import RegexMachine.Machine.Run
import Mathlib.Data.List.Nodup

/-!
# Runs of a program

A **run** goes through a program by itself, without the other threads of the machine. It stands at a
*configuration*, an instruction together with a byte offset of the subject, and its moves are the
steps that the instruction there allows. At a split it has the choice between two.
-/

namespace RegexMachine

/-- The character that begins at byte `offset`. -/
def Text.charAt? (s : String) (offset : Nat) : Option Char :=
  (cut? s.toList offset).bind fun (_, back) => back.head?

theorem Text.charAt?_of_toList {s : String} {front back : List Char}
    (hs : s.toList = front ++ back) :
    charAt? s (byteSize front) = back.head? := by
  simp [charAt?, hs]

theorem Text.charAt?_eq_some_iff {s : String} {offset : Nat} {c : Char} :
    charAt? s offset = some c ↔
      ∃ front back, s.toList = front ++ c :: back ∧ byteSize front = offset := by
  simp only [charAt?, Option.bind_eq_some_iff, Prod.exists, cut?_eq_some_iff,
    List.head?_eq_some_iff]
  constructor
  · rintro ⟨front, _, ⟨hs, hoffset⟩, back, rfl⟩
    exact ⟨front, back, hs, hoffset⟩
  · rintro ⟨front, back, hs, hoffset⟩
    exact ⟨front, c :: back, ⟨hs, hoffset⟩, back, rfl⟩

/-- Where a run stands. -/
structure Config where
  /-- the instruction that comes next -/
  pc : Nat
  /-- byte offset in the subject -/
  offset : Nat
  deriving DecidableEq, Repr

/-- Where every run of a program starts. -/
def Config.start : Config := ⟨0, 0⟩

/-- The target that a run takes at a split. -/
inductive Choice where
  /-- the preferred one -/
  | first
  /-- the other one -/
  | second
  deriving DecidableEq, Repr

/-- One step of a run. -/
structure Move where
  /-- the target taken, if the step is one of a split -/
  choice : Option Choice
  /-- the configuration to which it leads -/
  goal : Config
  deriving DecidableEq, Repr

/-- A run is given by its moves. -/
abbrev Run : Type := List Move

namespace Config

/-- The configuration in which a run ends. -/
def after : Config → Run → Config
  | c, [] => c
  | _, m :: r => after m.goal r

/-- All configurations of a run, in order. -/
def along (c : Config) (r : Run) : List Config := c :: r.map Move.goal

@[simp] theorem after_nil (c : Config) : c.after [] = c := rfl

@[simp] theorem after_cons (c : Config) (m : Move) (r : Run) :
    c.after (m :: r) = m.goal.after r := rfl

@[simp] theorem after_append (c : Config) (r s : Run) : c.after (r ++ s) = (c.after r).after s := by
  induction r generalizing c with
  | nil => rfl
  | cons m r ih => exact ih m.goal

theorem after_mem_along (c : Config) (r : Run) : c.after r ∈ c.along r := by
  induction r generalizing c with
  | nil => exact List.mem_singleton.mpr rfl
  | cons m r ih => exact List.mem_cons_of_mem _ (ih m.goal)

theorem after_mem_map_goal (c : Config) (m : Move) (r : Run) :
    c.after (m :: r) ∈ (m :: r).map Move.goal :=
  after_mem_along m.goal r

theorem along_append (c : Config) (r s : Run) :
    c.along (r ++ s) = c.along r ++ s.map Move.goal := by
  simp [along]

/-- The second part of a run passes through the last of its configurations. -/
theorem along_after_isSuffix (c : Config) (r s : Run) :
    (c.after r).along s <:+ c.along (r ++ s) := by
  induction r generalizing c with
  | nil => exact List.suffix_refl _
  | cons m r ih => exact (ih m.goal).trans (List.suffix_cons c _)

/-- A configuration on a run cuts it in two. -/
theorem exists_split_of_mem_along {c x : Config} {r : Run} (hx : x ∈ c.along r) :
    ∃ front back, r = front ++ back ∧ c.after front = x := by
  induction r generalizing c with
  | nil =>
    obtain rfl := List.mem_singleton.mp hx
    exact ⟨[], [], rfl, rfl⟩
  | cons m r ih =>
    rcases List.mem_cons.mp hx with rfl | hx
    · exact ⟨[], m :: r, rfl, rfl⟩
    · obtain ⟨front, back, rfl, hgoal⟩ := ih (c := m.goal) hx
      exact ⟨m :: front, back, rfl, hgoal⟩

end Config

namespace Program

variable {p : Program} {subject : String}

/-- The moves that a program allows. -/
inductive Step (p : Program) (subject : String) : Config → Move → Prop where
  /-- a character of the program reads the same character of the subject -/
  | char {pc offset : Nat} {c : Char} (hi : p.code[pc]? = some (.char c))
      (hc : Text.charAt? subject offset = some c) :
      Step p subject ⟨pc, offset⟩ ⟨none, ⟨pc + 1, offset + c.utf8Size⟩⟩
  /-- a jump goes on at its target -/
  | jump {pc offset target : Nat} (hi : p.code[pc]? = some (.jump target)) :
      Step p subject ⟨pc, offset⟩ ⟨none, ⟨target, offset⟩⟩
  /-- a split goes on at its first target -/
  | first {pc offset t u : Nat} (hi : p.code[pc]? = some (.split t u)) :
      Step p subject ⟨pc, offset⟩ ⟨some .first, ⟨t, offset⟩⟩
  /-- or a split goes on at its second target -/
  | second {pc offset t u : Nat} (hi : p.code[pc]? = some (.split t u)) :
      Step p subject ⟨pc, offset⟩ ⟨some .second, ⟨u, offset⟩⟩
  /-- saving goes on at the next instruction -/
  | save {pc offset slot : Nat} (hi : p.code[pc]? = some (.save slot)) :
      Step p subject ⟨pc, offset⟩ ⟨none, ⟨pc + 1, offset⟩⟩
  /-- doing nothing goes on at the next instruction -/
  | nop {pc offset : Nat} (hi : p.code[pc]? = some .nop) :
      Step p subject ⟨pc, offset⟩ ⟨none, ⟨pc + 1, offset⟩⟩

/-- The moves of a run follow each other in the program. -/
def Path (p : Program) (subject : String) : Config → Run → Prop
  | _, [] => True
  | c, m :: r => p.Step subject c m ∧ p.Path subject m.goal r

@[simp] theorem path_nil (c : Config) : p.Path subject c [] := trivial

@[simp] theorem path_cons {c : Config} {m : Move} {r : Run} :
    p.Path subject c (m :: r) ↔ p.Step subject c m ∧ p.Path subject m.goal r := Iff.rfl

@[simp] theorem path_append {c : Config} {r s : Run} :
    p.Path subject c (r ++ s) ↔ p.Path subject c r ∧ p.Path subject (c.after r) s := by
  induction r generalizing c with
  | nil => simp
  | cons m r ih => simp [ih, and_assoc]

/-- The slots when the instruction at a configuration is done. -/
def note (p : Program) (c : Config) (slots : Slots) : Slots :=
  match p.code[c.pc]? with
  | some (.save slot) => slots.setIfInBounds slot (some c.offset)
  | _ => slots

/-- The slots at the end of a run, given those at its beginning. -/
def slotsAfter (p : Program) : Config → Slots → Run → Slots
  | _, slots, [] => slots
  | c, slots, m :: r => p.slotsAfter m.goal (p.note c slots) r

@[simp] theorem slotsAfter_append (c : Config) (slots : Slots) (r s : Run) :
    p.slotsAfter c slots (r ++ s) = p.slotsAfter (c.after r) (p.slotsAfter c slots r) s := by
  induction r generalizing c slots with
  | nil => rfl
  | cons m r ih => exact ih m.goal (p.note c slots)

@[simp] theorem size_note (c : Config) (slots : Slots) : (p.note c slots).size = slots.size := by
  rw [note]
  split <;> simp

@[simp] theorem size_slotsAfter (c : Config) (slots : Slots) (r : Run) :
    (p.slotsAfter c slots r).size = slots.size := by
  induction r generalizing c slots with
  | nil => rfl
  | cons m r ih => rw [slotsAfter, ih, size_note]

/-- A slot may be noted again, but it is never blank again. -/
theorem exists_note {slots : Slots} {slot : Nat} (h : ∃ offset, slots[slot]? = some (some offset))
    (c : Config) : ∃ offset, (p.note c slots)[slot]? = some (some offset) := by
  obtain ⟨offset, hslot⟩ := h
  rw [note]
  split
  · rw [Array.getElem?_setIfInBounds]
    split_ifs with heq hlt
    · exact ⟨c.offset, rfl⟩
    · subst heq
      simp [Array.getElem?_eq_none (Nat.le_of_not_lt hlt)] at hslot
    · exact ⟨offset, hslot⟩
  · exact ⟨offset, hslot⟩

theorem exists_slotsAfter {slots : Slots} {slot : Nat}
    (h : ∃ offset, slots[slot]? = some (some offset)) (c : Config) (r : Run) :
    ∃ offset, (p.slotsAfter c slots r)[slot]? = some (some offset) := by
  induction r generalizing c slots with
  | nil => exact h
  | cons m r ih => exact ih (exists_note h c) m.goal

/-- A configuration at which the subject has matched. -/
def Final (p : Program) (c : Config) : Prop := p.code[c.pc]? = some .accept

theorem Final.not_step {c : Config} {m : Move} (hc : p.Final c) : ¬ p.Step subject c m := by
  intro hm
  cases hm <;> simp_all [Final]

/-- The run reaches a match. -/
structure Accepts (p : Program) (subject : String) (c : Config) (r : Run) : Prop where
  /-- the program allows its moves -/
  path : p.Path subject c r
  /-- it ends at an accepting instruction -/
  final : p.Final (c.after r)

theorem accepts_nil {c : Config} : p.Accepts subject c [] ↔ p.Final c :=
  ⟨fun h => h.final, fun h => ⟨trivial, h⟩⟩

theorem Accepts.eq_nil {c : Config} {r : Run} (hr : p.Accepts subject c r) (hc : p.Final c) :
    r = [] := by
  cases r with
  | nil => rfl
  | cons m r => exact absurd hr.path.1 hc.not_step

theorem accepts_cons {c : Config} {m : Move} {r : Run} :
    p.Accepts subject c (m :: r) ↔ p.Step subject c m ∧ p.Accepts subject m.goal r :=
  ⟨fun h => ⟨h.path.1, h.path.2, h.final⟩, fun h => ⟨⟨h.1, h.2.path⟩, h.2.final⟩⟩

theorem accepts_append {c : Config} {r s : Run} :
    p.Accepts subject c (r ++ s) ↔ p.Path subject c r ∧ p.Accepts subject (c.after r) s := by
  constructor
  · intro h
    obtain ⟨hr, hs⟩ := path_append.mp h.path
    exact ⟨hr, hs, by simpa using h.final⟩
  · rintro ⟨hr, hs⟩
    exact ⟨path_append.mpr ⟨hr, hs.path⟩, by simpa using hs.final⟩

/-- A run from a split takes one of its targets. -/
theorem Accepts.of_split {pc offset t u : Nat} {r : Run} (hr : p.Accepts subject ⟨pc, offset⟩ r)
    (hi : p.code[pc]? = some (.split t u)) :
    (∃ s, r = ⟨some .first, ⟨t, offset⟩⟩ :: s ∧ p.Accepts subject ⟨t, offset⟩ s) ∨
      ∃ s, r = ⟨some .second, ⟨u, offset⟩⟩ :: s ∧ p.Accepts subject ⟨u, offset⟩ s := by
  rcases r with _ | ⟨m, r⟩
  · simp [accepts_nil, Final, hi] at hr
  · obtain ⟨hm, hr⟩ := accepts_cons.mp hr
    cases hm with
    | first hi' =>
      obtain ⟨rfl, rfl⟩ : t = _ ∧ u = _ := by simpa [hi] using hi'
      exact .inl ⟨r, rfl, hr⟩
    | second hi' =>
      obtain ⟨rfl, rfl⟩ : t = _ ∧ u = _ := by simpa [hi] using hi'
      exact .inr ⟨r, rfl, hr⟩
    | char hi' | jump hi' | save hi' | nop hi' => simp [hi] at hi'

theorem lt_size_of_getElem? {pc : Nat} {i : Instruction Nat} (hi : p.code[pc]? = some i) :
    pc < p.size :=
  (Array.getElem?_eq_some_iff.mp hi).1

theorem Step.lt_size {c : Config} {m : Move} (hm : p.Step subject c m) : c.pc < p.size := by
  cases hm <;> exact lt_size_of_getElem? ‹_›

/-- No run moves backwards in the subject. -/
theorem Step.offset_le {c : Config} {m : Move} (hm : p.Step subject c m) :
    c.offset ≤ m.goal.offset := by
  cases hm with
  | char => exact Nat.le_add_right _ _
  | _ => exact Nat.le_refl _

theorem Path.offset_le {c : Config} {r : Run} (hr : p.Path subject c r) :
    ∀ x ∈ c.along r, c.offset ≤ x.offset ∧ x.offset ≤ (c.after r).offset := by
  induction r generalizing c with
  | nil =>
    intro x hx
    obtain rfl := List.mem_singleton.mp hx
    exact ⟨Nat.le_refl _, Nat.le_refl _⟩
  | cons m r ih =>
    obtain ⟨hm, hr⟩ := hr
    have hcm := hm.offset_le
    intro x hx
    rcases List.mem_cons.mp hx with rfl | hx
    · exact ⟨Nat.le_refl _, Nat.le_trans hcm (ih hr _ (Config.after_mem_along _ _)).1⟩
    · exact ⟨Nat.le_trans hcm (ih hr x hx).1, (ih hr x hx).2⟩

/-- Two different moves from one configuration are the two of a split. -/
theorem Step.eq_or_choices {c : Config} {m n : Move} (hm : p.Step subject c m)
    (hn : p.Step subject c n) :
    m = n ∨ (m.choice = some .first ∧ n.choice = some .second) ∨
      (m.choice = some .second ∧ n.choice = some .first) := by
  cases hm <;> cases hn <;> simp_all

end Program

/-! ## Preference

Where two runs part, they do so at a split. The one that takes the first target is preferred. -/

/-- The run `r` takes the first target where `s` takes the second. -/
inductive Preferred : Run → Run → Prop where
  /-- they part here -/
  | here {c d : Config} (r s : Run) :
      Preferred (⟨some .first, c⟩ :: r) (⟨some .second, d⟩ :: s)
  /-- they part later -/
  | later (m : Move) {r s : Run} (h : Preferred r s) : Preferred (m :: r) (m :: s)

namespace Preferred

theorem irrefl {r : Run} : ¬ Preferred r r := by
  induction r with
  | nil => rintro ⟨⟩
  | cons m r ih =>
    intro h
    cases h with
    | later _ h => exact ih h

theorem trans {r s t : Run} (hrs : Preferred r s) (hst : Preferred s t) : Preferred r t := by
  induction hrs generalizing t with
  | here r s =>
    cases hst with
    | later _ h => exact .here _ _
  | later m h ih =>
    cases hst with
    | here => exact .here _ _
    | later _ h' => exact .later m (ih h')

theorem asymm {r s : Run} (hrs : Preferred r s) : ¬ Preferred s r :=
  fun hsr => irrefl (hrs.trans hsr)

theorem append {r s : Run} (h : Preferred r s) (x y : Run) : Preferred (r ++ x) (s ++ y) := by
  induction h with
  | here r s => exact .here _ _
  | later m h ih => exact .later m ih

theorem append_left_iff {r s : Run} (common : Run) :
    Preferred (common ++ r) (common ++ s) ↔ Preferred r s := by
  induction common with
  | nil => rfl
  | cons m common ih =>
    refine ⟨fun h => ?_, fun h => .later m (ih.mpr h)⟩
    cases h with
    | later _ h => exact ih.mp h

theorem of_isPrefix {r s s' : Run} (h : Preferred r s) (hs : s <+: s') : Preferred r s' := by
  obtain ⟨t, rfl⟩ := hs
  simpa using h.append [] t

/-- The place where two runs part. -/
theorem exists_parting {r s : Run} (h : Preferred r s) :
    ∃ common c d r' s', r = common ++ ⟨some .first, c⟩ :: r' ∧
      s = common ++ ⟨some .second, d⟩ :: s' := by
  induction h with
  | here r s => exact ⟨[], _, _, r, s, rfl, rfl⟩
  | later m h ih =>
    obtain ⟨common, c, d, r', s', rfl, rfl⟩ := ih
    exact ⟨m :: common, c, d, r', s', rfl, rfl⟩

end Preferred

end RegexMachine
