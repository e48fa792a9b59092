import RegexMachine.Proofs.Run.Captures
import Mathlib.Order.Monotone.Basic

/-!
# Saves in a row

Where a program notes an offset in one slot, another one may note it in two, one after the other,
and apart from that have the same instructions, at other places and with other slots. Its runs are
those of the first program with a stop between the two saves:

* **loops** — the stop has a place of its own, so a run makes a loop with the stops exactly if it
  does so without them;
* **preference** — neither save leaves a choice, so the same runs are preferred;
* **slots** — each slot is the copy of a slot of the first program, and stays so.

So both programs find the same, up to the slots in which they note it (`Doubling.exists_captures`).
-/

namespace RegexMachine

namespace Config

variable {place : Nat → Nat}

/-- The configuration at the place where another program has the instruction. -/
def moved (place : Nat → Nat) (c : Config) : Config := ⟨place c.pc, c.offset⟩

/-- The configuration between two saves. -/
def between (place : Nat → Nat) (c : Config) : Config := ⟨place c.pc + 1, c.offset⟩

theorem moved_injective (h : StrictMono place) : Function.Injective (moved place) := by
  intro c d heq
  obtain ⟨hpc, hoffset⟩ := Config.mk.inj heq
  cases c
  cases d
  exact congrArg₂ Config.mk (h.injective hpc) hoffset

end Config

/-- The moves of a program with saves in a row for a move from `c`. -/
def Move.doubled (place : Nat → Nat) (c : Config) (m : Move) : Run :=
  if place (c.pc + 1) = place c.pc + 2 then
    [⟨none, c.between place⟩, ⟨m.choice, m.goal.moved place⟩]
  else [⟨m.choice, m.goal.moved place⟩]

/-- The run with a stop between two saves. -/
def doubled (place : Nat → Nat) : Config → Run → Run
  | _, [] => []
  | c, m :: r => m.doubled place c ++ doubled place m.goal r

section

variable {place : Nat → Nat} {c x : Config} {m : Move} {r s : Run}

@[simp] theorem Config.after_doubled_move (d c : Config) (m : Move) :
    d.after (m.doubled place c) = m.goal.moved place := by
  rw [Move.doubled]
  split_ifs <;> rfl

theorem Move.doubled_of_once (h : place (c.pc + 1) = place c.pc + 1) (m : Move) :
    m.doubled place c = [⟨m.choice, m.goal.moved place⟩] := by
  rw [Move.doubled, if_neg (by omega)]

theorem Move.doubled_of_twice (h : place (c.pc + 1) = place c.pc + 2) (m : Move) :
    m.doubled place c = [⟨none, c.between place⟩, ⟨m.choice, m.goal.moved place⟩] :=
  if_pos h

theorem Move.length_doubled_pos (place : Nat → Nat) (c : Config) (m : Move) :
    0 < (m.doubled place c).length := by
  rw [Move.doubled]
  split_ifs <;> exact Nat.succ_pos _

theorem Config.after_doubled (c : Config) (r : Run) :
    (c.moved place).after (doubled place c r) = (c.after r).moved place := by
  induction r generalizing c with
  | nil => rfl
  | cons m r ih => rw [doubled, after_append, after_doubled_move, ih, after_cons]

theorem preferred_doubled (h : Preferred r s) (c : Config) :
    Preferred (doubled place c r) (doubled place c s) := by
  induction h generalizing c with
  | here r s =>
    rw [doubled, doubled, Move.doubled, Move.doubled]
    split_ifs
    · exact .later _ (.here _ _)
    · exact .here _ _
  | later m h ih => exact (Preferred.append_left_iff _).mpr (ih m.goal)

theorem sublist_map_goal_doubled (place : Nat → Nat) (c : Config) (r : Run) :
    ((r.map Move.goal).map (Config.moved place)).Sublist ((doubled place c r).map Move.goal) := by
  induction r generalizing c with
  | nil => exact List.Sublist.refl []
  | cons m r ih =>
    have hmore := (ih m.goal).cons_cons (m.goal.moved place)
    rw [doubled, Move.doubled]
    split_ifs
    · exact hmore.cons _
    · exact hmore

/-- A configuration of the run with stops is one of the other run, or a stop. -/
theorem mem_along_doubled (hx : x ∈ (c.moved place).along (doubled place c r)) :
    ∃ y ∈ c.along r, x = y.moved place ∨
      (x = y.between place ∧ place (y.pc + 1) = place y.pc + 2) := by
  induction r generalizing c with
  | nil => exact ⟨c, List.mem_singleton_self c, .inl (List.mem_singleton.mp hx)⟩
  | cons m r ih =>
    rcases List.mem_cons.mp hx with rfl | hx
    · exact ⟨c, List.mem_cons_self, .inl rfl⟩
    have hlater : x ∈ (m.goal.moved place).along (doubled place m.goal r) →
        ∃ y ∈ c.along (m :: r), x = y.moved place ∨
          (x = y.between place ∧ place (y.pc + 1) = place y.pc + 2) := by
      intro hx
      obtain ⟨y, hy, hxy⟩ := ih hx
      exact ⟨y, List.mem_cons_of_mem c hy, hxy⟩
    rw [doubled, Move.doubled] at hx
    split_ifs at hx with htwo
    · rcases List.mem_cons.mp hx with rfl | hx
      · exact ⟨c, List.mem_cons_self, .inr ⟨rfl, htwo⟩⟩
      · exact hlater hx
    · exact hlater hx

/-- A stop is at no place where the other program has an instruction. -/
theorem moved_ne_between (h : StrictMono place) (y : Config)
    (htwo : place (c.pc + 1) = place c.pc + 2) : y.moved place ≠ c.between place := by
  intro heq
  have hplace : place y.pc = place c.pc + 1 := (Config.mk.inj heq).1
  have hlow : c.pc < y.pc := h.lt_iff_lt.mp (by omega)
  have hhigh : y.pc < c.pc + 1 := h.lt_iff_lt.mp (by omega)
  omega

/-- **Loops**: the stops are not passed twice unless other configurations are. -/
theorem nodup_doubled_iff (h : StrictMono place) :
    ((c.moved place).along (doubled place c r)).Nodup ↔ (c.along r).Nodup := by
  constructor
  · intro hnodup
    have hsub := (sublist_map_goal_doubled place c r).cons_cons (c.moved place)
    rw [← List.map_cons] at hsub
    exact (hsub.nodup hnodup).of_map _
  · intro hnodup
    induction r generalizing c with
    | nil => exact List.nodup_singleton _
    | cons m r ih =>
      obtain ⟨hc, hnodup⟩ := List.nodup_cons.mp hnodup
      have hmore := ih hnodup
      have hmoved : c.moved place ∉ (m.goal.moved place).along (doubled place m.goal r) := by
        intro hmem
        obtain ⟨y, hy, heq | ⟨heq, htwo⟩⟩ := mem_along_doubled hmem
        · rw [Config.moved_injective h heq] at hc
          exact hc hy
        · exact moved_ne_between h c htwo heq
      rw [doubled, Move.doubled]
      split_ifs with htwo
      · refine List.nodup_cons.mpr ⟨fun hmem => ?_, List.nodup_cons.mpr ⟨fun hmem => ?_, hmore⟩⟩
        · rcases List.mem_cons.mp hmem with heq | hmem
          · exact moved_ne_between h c htwo heq
          · exact hmoved hmem
        · obtain ⟨y, hy, heq | ⟨heq, -⟩⟩ := mem_along_doubled hmem
          · exact moved_ne_between h y htwo heq.symm
          · obtain ⟨hpc, hoffset⟩ := Config.mk.inj heq
            have hcy : c.moved place = y.moved place :=
              congrArg₂ Config.mk (Nat.succ_injective hpc) hoffset
            rw [Config.moved_injective h hcy] at hc
            exact hc hy
      · exact List.nodup_cons.mpr ⟨hmoved, hmore⟩

end

/-- Each slot of the second list is a copy of a slot of the first one. -/
def Copies (source : Nat → Nat) (slots slots' : Slots) : Prop :=
  ∀ j : Nat, slots'[j]? = slots[source j]?

namespace Copies

variable {source : Nat → Nat} {slots slots' : Slots} {slot : Nat} {value : Option Nat}

theorem set_set (h : Copies source slots slots') {first second : Nat}
    (hcopy : ∀ j, source j = slot ↔ j = first ∨ j = second) :
    Copies source (slots.setIfInBounds slot value)
      ((slots'.setIfInBounds first value).setIfInBounds second value) := by
  intro j
  have hslot := h j
  have hnoted := hcopy j
  grind

/-- With one copy only, it is as if it was noted there twice. -/
theorem set (h : Copies source slots slots') {copy : Nat}
    (hcopy : ∀ j, source j = slot ↔ j = copy) :
    Copies source (slots.setIfInBounds slot value) (slots'.setIfInBounds copy value) := by
  have htwice : Copies source (slots.setIfInBounds slot value) _ :=
    h.set_set fun j => (hcopy j).trans or_self_iff.symm
  rwa [Array.setIfInBounds_setIfInBounds] at htwice

end Copies

/-- The same instruction, with its targets at their places and the only copy of its slot. -/
inductive Instruction.Moved (place source : Nat → Nat) :
    Instruction Nat → Instruction Nat → Prop where
  /-- the same character -/
  | char (c : Char) : Moved place source (.char c) (.char c)
  /-- both accept -/
  | accept : Moved place source .accept .accept
  /-- the target is at its place -/
  | jump (t : Nat) : Moved place source (.jump t) (.jump (place t))
  /-- so are both targets -/
  | split (t u : Nat) : Moved place source (.split t u) (.split (place t) (place u))
  /-- the slot has no other copy -/
  | save {slot copy : Nat} (hcopy : ∀ j, source j = slot ↔ j = copy) :
      Moved place source (.save slot) (.save copy)
  /-- both do nothing -/
  | nop : Moved place source .nop .nop

namespace Program

variable {p q : Program} {place source : Nat → Nat} {subject : String} {c : Config} {m : Move}
  {r s : Run} {slots slots' : Slots} {pc : Nat}

/-- What stands in `q` for an instruction of `p`. -/
inductive Doubled (p q : Program) (place source : Nat → Nat) (pc : Nat) : Prop where
  /-- the instruction -/
  | once {i j : Instruction Nat} (hi : p.code[pc]? = some i) (hj : q.code[place pc]? = some j)
      (hij : i.Moved place source j) (hnext : place (pc + 1) = place pc + 1)
  /-- two saves in a row, for both copies of the slot -/
  | twice {slot first second : Nat} (hi : p.code[pc]? = some (.save slot))
      (hj : q.code[place pc]? = some (.save first))
      (hj' : q.code[place pc + 1]? = some (.save second))
      (hcopy : ∀ j, source j = slot ↔ j = first ∨ j = second)
      (hnext : place (pc + 1) = place pc + 2)
  /-- nothing stands there -/
  | outside (hi : p.code[pc]? = none) (hj : q.code[place pc]? = none)

/-! ## One move -/

/-- The moves that an instruction allows from its configuration. -/
def Moves (subject : String) (c : Config) (m : Move) : Instruction Nat → Prop
  | .char d => Text.charAt? subject c.offset = some d ∧
      m = ⟨none, ⟨c.pc + 1, c.offset + d.utf8Size⟩⟩
  | .jump t => m = ⟨none, ⟨t, c.offset⟩⟩
  | .split t u => m = ⟨some .first, ⟨t, c.offset⟩⟩ ∨ m = ⟨some .second, ⟨u, c.offset⟩⟩
  | .save _ | .nop => m = ⟨none, ⟨c.pc + 1, c.offset⟩⟩
  | .accept => False

theorem step_iff {i : Instruction Nat} (hi : p.code[c.pc]? = some i) :
    p.Step subject c m ↔ Moves subject c m i := by
  constructor
  · intro hm
    cases hm <;> simp_all [Moves]
  · intro hm
    obtain ⟨pc, offset⟩ := c
    cases i with
    | char d =>
      obtain ⟨hd, rfl⟩ := hm
      exact .char hi hd
    | accept => exact hm.elim
    | jump t =>
      obtain rfl := hm
      exact .jump hi
    | split t u =>
      obtain rfl | rfl := hm
      · exact .first hi
      · exact .second hi
    | save slot =>
      obtain rfl := hm
      exact .save hi
    | nop =>
      obtain rfl := hm
      exact .nop hi

theorem not_step_of_none (hi : p.code[c.pc]? = none) : ¬ p.Step subject c m := by
  intro hm
  cases hm <;> simp_all

theorem Accepts.of_save {pc offset slot : Nat} (hr : p.Accepts subject ⟨pc, offset⟩ r)
    (hi : p.code[pc]? = some (.save slot)) :
    ∃ s, r = ⟨none, ⟨pc + 1, offset⟩⟩ :: s ∧ p.Accepts subject ⟨pc + 1, offset⟩ s := by
  cases r with
  | nil => simp [accepts_nil, Final, hi] at hr
  | cons m s =>
    obtain ⟨hm, hs⟩ := accepts_cons.mp hr
    obtain rfl := (step_iff hi).mp hm
    exact ⟨s, rfl, hs⟩

/-- The same instruction makes the same moves, at other places. -/
theorem moves_moved_iff {i j : Instruction Nat} (hij : i.Moved place source j)
    (hnext : place (c.pc + 1) = place c.pc + 1) {m' : Move} :
    Moves subject (c.moved place) m' j ↔
      ∃ m, Moves subject c m i ∧ m' = ⟨m.choice, m.goal.moved place⟩ := by
  cases hij <;> simp [Moves, Config.moved, hnext, or_and_right, exists_or, and_assoc]

namespace Doubled

variable (h : p.Doubled q place source c.pc)

include h

theorem final_iff : q.Final (c.moved place) ↔ p.Final c := by
  rw [Final, Final, Config.moved]
  cases h with
  | once hi hj hij =>
    rw [hi, hj]
    cases hij <;> simp
  | twice hi hj => simp [hi, hj]
  | outside hi hj => simp [hi, hj]

/-- **Forth**: a move is made in one step or in two. -/
theorem path (hm : p.Step subject c m) : q.Path subject (c.moved place) (m.doubled place c) := by
  cases h with
  | once hi hj hij hnext =>
    rw [Move.doubled_of_once hnext]
    refine ⟨(step_iff hj).mpr ((moves_moved_iff hij hnext).mpr ⟨m, ?_, rfl⟩), trivial⟩
    exact (step_iff hi).mp hm
  | twice hi hj hj' hcopy hnext =>
    rw [Move.doubled_of_twice hnext]
    obtain rfl := (step_iff hi).mp hm
    refine ⟨.save hj, ?_, trivial⟩
    rw [Config.moved, hnext]
    exact .save hj'
  | outside hi hj => exact absurd hm (not_step_of_none hi)

/-- **Back**: what the second program does next is to make a move of the first one. -/
theorem exists_step (hs : q.Accepts subject (c.moved place) s) (hfinal : ¬ p.Final c) :
    ∃ m s', p.Step subject c m ∧ s = m.doubled place c ++ s' ∧
      q.Accepts subject (m.goal.moved place) s' := by
  have hne : s ≠ [] := by
    rintro rfl
    exact hfinal (h.final_iff.mp (accepts_nil.mp hs))
  obtain ⟨m', s, rfl⟩ := List.exists_cons_of_ne_nil hne
  obtain ⟨hm', hmore⟩ := accepts_cons.mp hs
  cases h with
  | once hi hj hij hnext =>
    obtain ⟨m, hm, rfl⟩ := (moves_moved_iff hij hnext).mp ((step_iff hj).mp hm')
    refine ⟨m, s, (step_iff hi).mpr hm, ?_, hmore⟩
    rw [Move.doubled_of_once hnext, List.singleton_append]
  | twice hi hj hj' hcopy hnext =>
    have hgoal : Config.moved place ⟨c.pc + 1, c.offset⟩ = ⟨place c.pc + 1 + 1, c.offset⟩ :=
      congrArg (Config.mk · c.offset) hnext
    obtain rfl := (step_iff hj).mp hm'
    obtain ⟨s, rfl, hlast⟩ := hmore.of_save hj'
    refine ⟨⟨none, ⟨c.pc + 1, c.offset⟩⟩, s, (step_iff hi).mpr rfl, ?_, hgoal ▸ hlast⟩
    rw [Move.doubled_of_twice hnext, hgoal]
    rfl
  | outside hi hj => exact absurd hm' (not_step_of_none hj)

/-- **Slots**: what is noted is noted in all copies. -/
theorem copies (hm : p.Step subject c m) (hslots : Copies source slots slots') :
    Copies source (p.note c slots) (q.slotsAfter (c.moved place) slots' (m.doubled place c)) := by
  cases h with
  | once hi hj hij hnext =>
    rw [Move.doubled_of_once hnext, slotsAfter, slotsAfter, note, note, hi, Config.moved, hj]
    cases hij with
    | save hcopy => exact hslots.set hcopy
    | char | accept | jump | split | nop => exact hslots
  | twice hi hj hj' hcopy hnext =>
    rw [Move.doubled_of_twice hnext, slotsAfter, slotsAfter, slotsAfter, note, note, note, hi,
      Config.moved, hj, Config.between, hj']
    exact hslots.set_set hcopy
  | outside hi hj => exact absurd hm (not_step_of_none hi)

end Doubled

/-! ## Whole runs -/

/-- The program `q` is `p` with two saves in a row in some places, where there is one. -/
structure Doubling (p q : Program) (place source : Nat → Nat) : Prop where
  /-- the instructions stand in the same order -/
  mono : StrictMono place
  /-- the first one is where a run starts -/
  start : place 0 = 0
  /-- each slot is the copy of one -/
  slots : ∀ j, j < q.slots ↔ source j < p.slots
  /-- for each instruction there is one, or two -/
  each : ∀ pc, p.Doubled q place source pc

namespace Doubling

variable (h : p.Doubling q place source)

include h

theorem moved_start : Config.start.moved place = .start := congrArg (Config.mk · 0) h.start

theorem path_doubled (hr : p.Path subject c r) :
    q.Path subject (c.moved place) (doubled place c r) := by
  induction r generalizing c with
  | nil => trivial
  | cons m r ih =>
    rw [doubled, path_append, Config.after_doubled_move]
    exact ⟨(h.each c.pc).path hr.1, ih hr.2⟩

theorem accepts_doubled (hr : p.Accepts subject c r) :
    q.Accepts subject (c.moved place) (doubled place c r) := by
  refine ⟨h.path_doubled hr.path, ?_⟩
  rw [Config.after_doubled, (h.each _).final_iff]
  exact hr.final

/-- Each run of the second program to a match is one of the first program, with the stops. -/
theorem exists_doubled (hs : q.Accepts subject (c.moved place) s) :
    ∃ r, p.Accepts subject c r ∧ s = doubled place c r := by
  induction hn : s.length using Nat.strong_induction_on generalizing c s with
  | _ n ih =>
    by_cases hfinal : p.Final c
    · exact ⟨[], accepts_nil.mpr hfinal, hs.eq_nil ((h.each c.pc).final_iff.mpr hfinal)⟩
    · obtain ⟨m, s', hm, rfl, hs'⟩ := (h.each c.pc).exists_step hs hfinal
      have hshorter : s'.length < n := by
        have hpos := m.length_doubled_pos place c
        rw [← hn, List.length_append]
        omega
      obtain ⟨r, hr, rfl⟩ := ih s'.length hshorter hs' rfl
      exact ⟨m :: r, accepts_cons.mpr ⟨hm, hr⟩, rfl⟩

theorem copies_doubled (hr : p.Path subject c r) (hslots : Copies source slots slots') :
    Copies source (p.slotsAfter c slots r)
      (q.slotsAfter (c.moved place) slots' (doubled place c r)) := by
  induction r generalizing c slots slots' with
  | nil => exact hslots
  | cons m r ih =>
    rw [doubled, slotsAfter_append, Config.after_doubled_move]
    exact ih hr.2 ((h.each c.pc).copies hr.1 hslots)

theorem copies_blankSlots : Copies source p.blankSlots q.blankSlots := by
  intro j
  have hslot := h.slots j
  grind [blankSlots]

theorem copies_slotsOf (hr : p.Path subject .start r) :
    Copies source (p.slotsOf r) (q.slotsOf (doubled place .start r)) := by
  have hcopies := h.copies_doubled hr h.copies_blankSlots
  rwa [h.moved_start] at hcopies

theorem simple_doubled_iff : Simple (doubled place .start r) ↔ Simple r := by
  have hnodup := nodup_doubled_iff h.mono (c := .start) (r := r)
  rwa [h.moved_start] at hnodup

theorem mostPreferred_doubled (hr : p.MostPreferred subject r) :
    q.MostPreferred subject (doubled place .start r) := by
  refine ⟨?_, h.simple_doubled_iff.mpr hr.simple, fun s hs hsimple => ?_⟩
  · have haccepts := h.accepts_doubled hr.accepts
    rwa [h.moved_start] at haccepts
  · rw [← h.moved_start] at hs
    obtain ⟨r', hr', rfl⟩ := h.exists_doubled hs
    exact (hr.least r' hr' (h.simple_doubled_iff.mp hsimple)).imp (congrArg _)
      (preferred_doubled · _)

/-- Where the first program finds nothing the second one finds nothing. -/
theorem captures_eq_none (hnone : ((Machine.ofProgram p).captures subject).1 = none) :
    ((Machine.ofProgram q).captures subject).1 = none := by
  have hno := (Machine.captures_eq_none_iff (Machine.fits_ofProgram p) subject).mp hnone
  refine (Machine.captures_eq_none_iff (Machine.fits_ofProgram q) subject).mpr fun s hs => ?_
  rw [← h.moved_start] at hs
  obtain ⟨r, hr, -⟩ := h.exists_doubled hs
  exact hno r hr

/-- **Copies**: where the first program finds something, the second one finds the same, in the
copies of its slots. -/
theorem exists_captures {found : Captures}
    (hsome : ((Machine.ofProgram p).captures subject).1 = some found) :
    ∃ found', ((Machine.ofProgram q).captures subject).1 = some found' ∧
      found'.subject = found.subject ∧ Copies source found.slots found'.slots := by
  obtain ⟨r, hr, rfl⟩ :=
    (Machine.captures_eq_some_iff (Machine.fits_ofProgram p) subject found).mp hsome
  have hbest := h.mostPreferred_doubled hr
  exact ⟨_, Machine.captures_of_mostPreferred (Machine.fits_ofProgram q) hbest, rfl,
    h.copies_slotsOf hr.accepts.path⟩

end Doubling

end Program

end RegexMachine
