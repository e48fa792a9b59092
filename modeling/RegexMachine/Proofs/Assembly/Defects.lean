import RegexMachine.Proofs.Assembly.Resolve
import Mathlib.Tactic.SplitIfs

/-!
# What resolving refuses

A draft that is well formed (`Draft.WellFormed`) resolves to the program it describes, and any other
one is refused for its first defect (`Draft.Refused`):

* **labels** come first, all of them, in the order in which they stand;
* **the program as a whole** is next, which must not be empty or have too many groups;
* **slots** come last, together with the end of the program.
-/

namespace RegexMachine

open Instruction (relativeTo relativeFrom)

/-! ## First things -/

/-- The first element at which a function has a value, and its place in the list. -/
theorem findSome?_zipIdx_eq_some_iff {α β : Type} {f : α × Nat → Option β} {xs : List α} {b : β}
    (n : Nat) :
    (xs.zipIdx n).findSome? f = some b ↔ ∃ k x, xs[k]? = some x ∧ f (x, n + k) = some b ∧
      ∀ j < k, ∀ y, xs[j]? = some y → f (y, n + j) = none := by
  induction xs generalizing n with
  | nil => simp
  | cons x xs ih =>
    rw [List.zipIdx_cons, List.findSome?_cons]
    cases hx : f (x, n) with
    | some b' =>
      constructor
      · intro h
        exact ⟨0, x, rfl, hx.trans h, fun j hj => absurd hj (Nat.not_lt_zero j)⟩
      · rintro ⟨k, y, hy, hvalue, hbefore⟩
        cases k with
        | zero =>
          obtain rfl := Option.some.inj hy
          exact hx.symm.trans hvalue
        | succ k =>
          have hnone := hbefore 0 (Nat.succ_pos k) x rfl
          rw [Nat.add_zero, hx] at hnone
          cases hnone
    | none =>
      simp only [ih, Nat.add_assoc n 1, Nat.add_comm 1]
      constructor
      · rintro ⟨k, y, hy, hvalue, hbefore⟩
        refine ⟨k + 1, y, hy, hvalue, fun j hj z hz => ?_⟩
        cases j with
        | zero =>
          obtain rfl := Option.some.inj hz
          exact hx
        | succ j => exact hbefore j (Nat.lt_of_succ_lt_succ hj) z hz
      · rintro ⟨k, y, hy, hvalue, hbefore⟩
        cases k with
        | zero =>
          obtain rfl := Option.some.inj hy
          rw [Nat.add_zero, hx] at hvalue
          cases hvalue
        | succ k =>
          exact ⟨k, y, hy, hvalue, fun j hj z hz => hbefore (j + 1) (Nat.succ_lt_succ hj) z hz⟩

/-! ## Instructions and programs -/

namespace Instruction

theorem fits_iff {length slots : Nat} {i : Instruction Nat} :
    i.Fits length slots ↔ (∀ target ∈ i.targets, target < length) ∧
      ∀ slot, i = .save slot → slot < slots := by
  cases i <;> simp [Fits, targets]

theorem relativeTo_eq_save_iff {pc slot : Nat} {i : Instruction Nat} :
    relativeTo pc i = .save slot ↔ i = .save slot := by
  cases i <;> simp [relativeTo]

@[simp] theorem fallsThrough_relativeTo (pc : Nat) (i : Instruction Nat) :
    (relativeTo pc i).fallsThrough = i.fallsThrough := by
  cases i <;> rfl

theorem fallsThrough_iff {L : Type} {i : Instruction L} :
    i.fallsThrough = true ↔ (∃ c, i = .char c) ∨ (∃ slot, i = .save slot) ∨ i = .nop := by
  cases i <;> simp [fallsThrough]

theorem fallsThrough_eq_false_iff {L : Type} {i : Instruction L} : i.fallsThrough = false ↔
    (∀ c, i ≠ .char c) ∧ (∀ slot, i ≠ .save slot) ∧ i ≠ .nop := by
  cases i <;> simp [fallsThrough]

theorem getElem?_relativeFrom (pc : Nat) (code : List (Instruction Nat)) (k : Nat) :
    (relativeFrom pc code)[k]? = code[k]?.map (relativeTo (pc + k)) := by
  induction code generalizing pc k with
  | nil => rfl
  | cons i code ih =>
    cases k with
    | zero => rfl
    | succ k => simp [relativeFrom, ih, Nat.add_assoc, Nat.add_comm 1]

end Instruction

namespace Program

theorem targets_lt (p : Program) : ∀ i ∈ p.code.toList, ∀ target ∈ i.targets, target < p.size := by
  intro i hi
  obtain ⟨pc, hpc⟩ := List.mem_iff_getElem?.mp hi
  rw [Array.getElem?_toList] at hpc
  exact (Instruction.fits_iff.mp (p.valid.fits pc i hpc)).1

theorem ofCode_eq_error_iff {code : Array (Instruction Nat)} {groups : Nat} {e : ProgramError} :
    ofCode code groups = .error e ↔ firstError? code groups = some e := by
  rw [ofCode]
  split <;> simp_all

variable {code : Array (Instruction Nat)} {groups length slots pc : Nat} {i : Instruction Nat}

/-- The check looks at the program as a whole, and then for the first instruction at fault. -/
theorem firstError?_eq_some_iff {e : ProgramError} : firstError? code groups = some e ↔
    (code.size = 0 ∧ e = ⟨0, .emptyProgram⟩) ∨
    (0 < code.size ∧ code.size < groups ∧ e = ⟨0, .tooManyGroups groups code.size⟩) ∨
    (groups ≤ code.size ∧ ∃ pc i violation, code[pc]? = some i ∧
      violationAt? code.size (slotsFor groups) pc i = some violation ∧ e = ⟨pc, violation⟩ ∧
      ∀ pc' < pc, ∀ j, code[pc']? = some j →
        violationAt? code.size (slotsFor groups) pc' j = none) := by
  rw [firstError?]
  split_ifs with hempty hgroups
  · simp [hempty, eq_comm]
  · simp [hempty, hgroups, Nat.pos_of_ne_zero hempty, Nat.not_le.mpr hgroups, eq_comm]
  · rw [findSome?_zipIdx_eq_some_iff]
    simp only [hempty, hgroups, false_and, and_false, false_or, Nat.not_lt.mp hgroups, true_and,
      Nat.zero_add, Array.getElem?_toList, Option.map_eq_some_iff, Option.map_eq_none_iff]
    constructor
    · rintro ⟨pc, i, hi, ⟨violation, hviolation, rfl⟩, hbefore⟩
      exact ⟨pc, i, violation, hi, hviolation, rfl, hbefore⟩
    · rintro ⟨pc, i, violation, hi, hviolation, rfl, hbefore⟩
      exact ⟨pc, i, hi, ⟨violation, hviolation, rfl⟩, hbefore⟩

/-- An instruction with targets in the program is at fault for its slot, or as the last one. -/
theorem violationAt?_eq_some_iff (htargets : ∀ target ∈ i.targets, target < length)
    {violation : Violation} : violationAt? length slots pc i = some violation ↔
    (∃ slot, i = .save slot ∧ slots ≤ slot ∧ violation = .slotOutOfRange slot slots) ∨
    ((∀ slot, i = .save slot → slot < slots) ∧ pc + 1 = length ∧ i.fallsThrough = true ∧
      violation = .fallsOffEnd) := by
  by_cases hslots : ∀ slot, i = .save slot → slot < slots
  · have hoperands := Instruction.operandViolation?_eq_none_iff.mpr
      (Instruction.fits_iff.mpr ⟨htargets, hslots⟩)
    have hviolation : violationAt? length slots pc i =
        if pc + 1 = length ∧ i.fallsThrough = true then some .fallsOffEnd else none := by
      simp [violationAt?, hoperands]
    rw [hviolation]
    constructor
    · intro h
      split_ifs at h with hlast
      exact .inr ⟨hslots, hlast.1, hlast.2, (Option.some.inj h).symm⟩
    · rintro (⟨slot, rfl, hle, -⟩ | ⟨-, hlast, hfalls, rfl⟩)
      · exact absurd (hslots slot rfl) (Nat.not_lt.mpr hle)
      · rw [if_pos ⟨hlast, hfalls⟩]
  · obtain ⟨slot, hsave⟩ := Classical.not_forall.mp hslots
    obtain ⟨rfl, hle⟩ := Classical.not_imp.mp hsave
    rw [Nat.not_lt] at hle
    have hviolation : violationAt? length slots pc (.save slot) =
        some (.slotOutOfRange slot slots) := by
      simp [violationAt?, Instruction.operandViolation?, Nat.not_lt.mpr hle]
    rw [hviolation, Option.some.injEq]
    constructor
    · rintro rfl
      exact .inl ⟨slot, rfl, hle, rfl⟩
    · rintro (⟨slot, ⟨⟩, -, rfl⟩ | ⟨hfit, -⟩)
      · rfl
      · exact absurd hfit hslots

end Program

/-! ## Labels -/

namespace Label

/-- What is wrong with a label at `pc` in a program of `length` instructions. A target behind the
largest word is reported as that word. -/
def violation? (length pc : Nat) : Label → Option Violation
  | hole => some .unpatchedHole
  | relative distance =>
    if 0 ≤ pc + distance ∧ pc + distance < length then none
    else some (.targetOutOfRange (min (pc + distance) Word.maxValue) length)

/-- The distance is a signed word. -/
def IsWord : Label → Prop
  | hole => True
  | relative distance => Word.minValue ≤ distance ∧ distance ≤ Word.maxValue

instance : (label : Label) → Decidable label.IsWord
  | hole => .isTrue trivial
  | relative distance =>
    inferInstanceAs (Decidable (Word.minValue ≤ distance ∧ distance ≤ Word.maxValue))

variable {length pc : Nat} {label : Label}

theorem resolve_of_violation {violation : Violation} (hword : label.IsWord)
    (h : label.violation? length pc = some violation) :
    label.resolve length pc = .error ⟨pc, violation⟩ := by
  cases label with
  | hole =>
    obtain rfl := Option.some.inj h
    rfl
  | relative distance =>
    simp only [violation?] at h
    split_ifs at h with hrange
    obtain rfl := Option.some.inj h
    -- the sum of a place and a word is no less than the smallest word
    have hlow : Word.minValue ≤ min (pc + distance) Word.maxValue := by
      have := hword.1
      simp only [Word.minValue, Word.maxValue] at *
      omega
    rw [resolve, if_neg hrange, Word.saturate, Int.max_eq_right hlow]

theorem eq_between_of_violation (h : label.violation? length pc = none) :
    ∃ target < length, label = between pc target := by
  cases label with
  | hole => cases h
  | relative distance =>
    simp only [violation?] at h
    split_ifs at h with hrange
    refine ⟨(pc + distance).toNat, by omega, ?_⟩
    rw [between, relative.injEq]
    omega

end Label

namespace Draft

/-- The labels of code that stands at `pc`, in order, each with the place of its instruction. -/
def labelsFrom (pc : Nat) (code : List (Instruction Label)) : List (Nat × Label) :=
  (code.zipIdx pc).flatMap fun (i, pc) => i.targets.map (pc, ·)

/-- The labels of a draft, in order, each with the place of its instruction. -/
def labels (d : Draft) : List (Nat × Label) := labelsFrom 0 d.code.toList

/-- The error for a label, if it is a hole or leads out of a program of `length` instructions. -/
def labelError? (length : Nat) (x : Nat × Label) : Option ProgramError :=
  (x.2.violation? length x.1).map (⟨x.1, ·⟩)

theorem labelsFrom_cons (pc : Nat) (i : Instruction Label) (code : List (Instruction Label)) :
    labelsFrom pc (i :: code) = i.targets.map (pc, ·) ++ labelsFrom (pc + 1) code := rfl

theorem error_bind {ε α β : Type} (e : ε) (f : α → Except ε β) :
    (Except.error e >>= f) = Except.error e := rfl

variable {length pc : Nat}

theorem mapTargets_of_error {i : Instruction Label} {e : ProgramError}
    (hwords : ∀ label ∈ i.targets, label.IsWord)
    (h : (i.targets.map (pc, ·)).findSome? (labelError? length) = some e) :
    i.mapTargets (Label.resolve length pc) = .error e := by
  have hresolve {label : Label} (hlabel : label ∈ i.targets)
      (he : labelError? length (pc, label) = some e) : label.resolve length pc = .error e := by
    obtain ⟨violation, hviolation, rfl⟩ := Option.map_eq_some_iff.mp he
    exact Label.resolve_of_violation (hwords label hlabel) hviolation
  cases i with
  | jump target =>
    have htarget : labelError? length (pc, target) = some e := by
      simpa [Instruction.targets] using h
    rw [Instruction.mapTargets, hresolve (by simp [Instruction.targets]) htarget, error_bind]
  | split first second =>
    simp only [Instruction.targets, List.map_cons, List.findSome?_cons] at h
    cases hfirst : labelError? length (pc, first) with
    | some e' =>
      rw [hfirst] at h
      obtain rfl := Option.some.inj h
      rw [Instruction.mapTargets, hresolve (by simp [Instruction.targets]) hfirst, error_bind]
    | none =>
      have hsecond : labelError? length (pc, second) = some e := by
        rw [hfirst] at h
        cases hsecond : labelError? length (pc, second) with
        | none => simp [hsecond] at h
        | some e' => simpa [hsecond] using h
      have hfits : first.violation? length pc = none := Option.map_eq_none_iff.mp hfirst
      obtain ⟨target, htarget, hbetween⟩ := Label.eq_between_of_violation hfits
      rw [Instruction.mapTargets, hresolve (by simp [Instruction.targets]) hsecond, hbetween,
        Label.between, Label.resolve_between pc htarget, ok_bind, error_bind]
  | char | accept | save | nop => cases h

theorem exists_relativeTo {i : Instruction Label}
    (h : (i.targets.map (pc, ·)).findSome? (labelError? length) = none) :
    ∃ j, i = relativeTo pc j ∧ ∀ target ∈ j.targets, target < length := by
  have hlabel {label : Label} (hlabel : label ∈ i.targets) :
      ∃ target < length, label = .between pc target := by
    rw [List.findSome?_eq_none_iff] at h
    exact Label.eq_between_of_violation
      (Option.map_eq_none_iff.mp (h (pc, label) (List.mem_map_of_mem hlabel)))
  cases i with
  | jump target =>
    obtain ⟨t, ht, rfl⟩ := hlabel (List.mem_singleton_self target)
    exact ⟨.jump t, rfl, by simpa [Instruction.targets] using ht⟩
  | split first second =>
    obtain ⟨t, ht, rfl⟩ := hlabel List.mem_cons_self
    obtain ⟨u, hu, rfl⟩ := hlabel (List.mem_cons_of_mem _ (List.mem_singleton_self second))
    exact ⟨.split t u, rfl, by simpa [Instruction.targets] using ⟨ht, hu⟩⟩
  | char c => exact ⟨.char c, rfl, by simp [Instruction.targets]⟩
  | accept => exact ⟨.accept, rfl, by simp [Instruction.targets]⟩
  | save slot => exact ⟨.save slot, rfl, by simp [Instruction.targets]⟩
  | nop => exact ⟨.nop, rfl, by simp [Instruction.targets]⟩

/-- The first label that does not fit is the error. -/
theorem mapM_of_error {code : List (Instruction Label)} {e : ProgramError}
    (hwords : ∀ x ∈ labelsFrom pc code, x.2.IsWord)
    (h : (labelsFrom pc code).findSome? (labelError? length) = some e) :
    (code.zipIdx pc).mapM (fun (i, pc) => i.mapTargets (Label.resolve length pc)) = .error e := by
  induction code generalizing pc with
  | nil => cases h
  | cons i code ih =>
    rw [labelsFrom_cons] at h hwords
    rw [List.forall_mem_append, List.forall_mem_map] at hwords
    rw [List.findSome?_append] at h
    rw [List.zipIdx_cons, List.mapM_cons]
    dsimp only
    cases hfirst : (i.targets.map (pc, ·)).findSome? (labelError? length) with
    | some e' =>
      rw [hfirst] at h
      obtain rfl := Option.some.inj h
      rw [mapTargets_of_error hwords.1 hfirst, error_bind]
    | none =>
      rw [hfirst, Option.none_or] at h
      obtain ⟨j, rfl, htargets⟩ := exists_relativeTo hfirst
      rw [Instruction.mapTargets_relativeTo pc htargets, ok_bind, ih hwords.2 h, error_bind]

/-- Labels that all fit are those of some code. -/
theorem exists_relativeFrom {code : List (Instruction Label)}
    (h : (labelsFrom pc code).findSome? (labelError? length) = none) :
    ∃ code', code = relativeFrom pc code' ∧ ∀ j ∈ code', ∀ target ∈ j.targets, target < length := by
  induction code generalizing pc with
  | nil => exact ⟨[], rfl, by simp⟩
  | cons i code ih =>
    rw [labelsFrom_cons, List.findSome?_append, Option.or_eq_none_iff] at h
    obtain ⟨j, rfl, hj⟩ := exists_relativeTo h.1
    obtain ⟨code', rfl, hcode'⟩ := ih h.2
    exact ⟨j :: code', rfl, List.forall_mem_cons.mpr ⟨hj, hcode'⟩⟩

/-- All distances are signed words. -/
def InWords (d : Draft) : Prop := ∀ x ∈ d.labels, x.2.IsWord

instance (d : Draft) : Decidable d.InWords :=
  inferInstanceAs (Decidable (∀ x ∈ d.labels, x.2.IsWord))

variable {d : Draft}

/-- **Labels first**: the first label that does not fit is the error, and if there is none the check
of the finished code decides. -/
theorem resolve_cases (hwords : d.InWords) :
    (∃ e, d.labels.findSome? (labelError? d.code.size) = some e ∧ d.resolve = .error e) ∨
      ∃ code, d.labels.findSome? (labelError? d.code.size) = none ∧
        d.code.toList = relativeFrom 0 code ∧
        (∀ j ∈ code, ∀ target ∈ j.targets, target < code.length) ∧
        d.resolve = Program.ofCode code.toArray d.groups := by
  cases hfirst : d.labels.findSome? (labelError? d.code.size) with
  | some e =>
    refine .inl ⟨e, rfl, ?_⟩
    rw [resolve, mapM_of_error hwords hfirst, error_bind]
  | none =>
    obtain ⟨code, hcode, htargets⟩ := exists_relativeFrom hfirst
    have hsize : d.code.size = code.length := by
      rw [← Array.length_toList, hcode, Instruction.length_relativeFrom]
    rw [hsize] at htargets
    have hdraft : d = ⟨(relativeFrom 0 code).toArray, d.groups⟩ := by
      rw [← hcode]
    refine .inr ⟨code, rfl, hcode, htargets, ?_⟩
    rw [hdraft]
    exact resolve_relativeFrom d.groups htargets

/-- The program of a draft is the one from which its distances could have been taken. -/
theorem resolve_eq_ok_iff (hwords : d.InWords) {p : Program} :
    d.resolve = .ok p ↔ d.code.toList = relativeFrom 0 p.code.toList ∧ p.groups = d.groups := by
  constructor
  · intro hresolve
    rcases resolve_cases hwords with ⟨e, -, herror⟩ | ⟨code, -, hcode, -, hcheck⟩
    · rw [herror] at hresolve
      cases hresolve
    · rw [hcheck] at hresolve
      obtain ⟨hp, hgroups⟩ := Program.ofCode_eq_ok hresolve
      rw [hp]
      exact ⟨hcode, hgroups⟩
  · rintro ⟨hcode, hgroups⟩
    have hdraft : d = ⟨(relativeFrom 0 p.code.toList).toArray, p.groups⟩ := by
      rw [← hcode, hgroups]
    rw [hdraft, resolve_relativeFrom p.groups p.targets_lt]
    exact p.ofCode_code

/-- All labels lead to instructions of the draft. -/
def LabelsFit (d : Draft) : Prop := ∀ x ∈ d.labels, x.2.violation? d.code.size x.1 = none

/-- The draft describes a program. -/
structure WellFormed (d : Draft) : Prop where
  /-- there is an instruction -/
  nonempty : 0 < d.code.size
  /-- no label is a hole, and all of them lead to instructions -/
  labels : ∀ x ∈ d.labels, ∃ distance, x.2 = .relative distance ∧
    0 ≤ x.1 + distance ∧ x.1 + distance < d.code.size
  /-- there are no more groups than instructions -/
  groups : d.groups ≤ d.code.size
  /-- every group has two slots, and so has the whole match -/
  slots : ∀ pc slot : Nat, d.code[pc]? = some (.save slot) → slot < 2 * d.groups + 2
  /-- control does not go on behind the last instruction -/
  last : ∀ i, d.code[d.code.size - 1]? = some i →
    (∀ c, i ≠ .char c) ∧ (∀ slot, i ≠ .save slot) ∧ i ≠ .nop

/-- The error for the first defect of a draft. -/
inductive Refused (d : Draft) : ProgramError → Prop where
  /-- a label is a hole or leads out of the draft, and all before it fit -/
  | label {before after : List (Nat × Label)} {pc : Nat} {label : Label} {violation : Violation}
      (split : d.labels = before ++ (pc, label) :: after)
      (fit : ∀ x ∈ before, x.2.violation? d.code.size x.1 = none)
      (defect : label.violation? d.code.size pc = some violation) : d.Refused ⟨pc, violation⟩
  /-- there is no instruction, and so no label -/
  | empty (defect : d.code.size = 0) : d.Refused ⟨0, .emptyProgram⟩
  /-- all labels fit, but there are too many groups -/
  | groups (labels : d.LabelsFit) (nonempty : 0 < d.code.size) (defect : d.code.size < d.groups) :
      d.Refused ⟨0, .tooManyGroups d.groups d.code.size⟩
  /-- the labels and the number of groups fit, and so do the slots before this one -/
  | slot {pc slot : Nat} (labels : d.LabelsFit) (groups : d.groups ≤ d.code.size)
      (fit : ∀ pc' < pc, ∀ slot', d.code[pc']? = some (.save slot') →
        slot' < 2 * d.groups + 2)
      (save : d.code[pc]? = some (.save slot)) (defect : 2 * d.groups + 2 ≤ slot) :
      d.Refused ⟨pc, .slotOutOfRange slot (2 * d.groups + 2)⟩
  /-- all operands fit, but control goes on behind the last instruction -/
  | last {pc : Nat} {i : Instruction Label} (labels : d.LabelsFit)
      (groups : d.groups ≤ d.code.size)
      (fit : ∀ pc' slot : Nat, d.code[pc']? = some (.save slot) → slot < 2 * d.groups + 2)
      (last : d.code[pc]? = some i) (length : pc + 1 = d.code.size)
      (defect : (∃ c, i = .char c) ∨ (∃ slot, i = .save slot) ∨ i = .nop) :
      d.Refused ⟨pc, .fallsOffEnd⟩

theorem labelsFit_iff :
    d.LabelsFit ↔ d.labels.findSome? (labelError? d.code.size) = none := by
  simp [LabelsFit, labelError?]

theorem labelsFit_of_empty (h : d.code.size = 0) : d.LabelsFit := by
  have hcode : d.code = #[] := Array.eq_empty_of_size_eq_zero h
  simp [LabelsFit, labels, hcode, labelsFrom]

/-- Labels that do not all fit are what a draft is refused for. -/
theorem refused_iff_of_label {e : ProgramError}
    (h : d.labels.findSome? (labelError? d.code.size) = some e) {e' : ProgramError} :
    d.Refused e' ↔ e' = e := by
  have hmisfit : ¬ d.LabelsFit := fun hfit => by
    rw [labelsFit_iff, h] at hfit
    cases hfit
  constructor
  · intro hrefused
    cases hrefused with
    | label split fit defect =>
      have hfirst : d.labels.findSome? (labelError? d.code.size) = some _ :=
        List.findSome?_eq_some_iff.mpr ⟨_, _, _, split,
          Option.map_eq_some_iff.mpr ⟨_, defect, rfl⟩,
          fun x hx => Option.map_eq_none_iff.mpr (fit x hx)⟩
      exact Option.some.inj (hfirst.symm.trans h)
    | empty defect => exact absurd (labelsFit_of_empty defect) hmisfit
    | groups labels => exact absurd labels hmisfit
    | slot labels => exact absurd labels hmisfit
    | last labels => exact absurd labels hmisfit
  · rintro rfl
    obtain ⟨before, x, after, hsplit, hx, hbefore⟩ := List.findSome?_eq_some_iff.mp h
    obtain ⟨violation, hdefect, rfl⟩ := Option.map_eq_some_iff.mp hx
    exact .label hsplit (fun y hy => Option.map_eq_none_iff.mp (hbefore y hy)) hdefect

section Code

variable {code : List (Instruction Nat)} (hcode : d.code.toList = relativeFrom 0 code)

include hcode

theorem size_of_relativeFrom : d.code.size = code.length := by
  rw [← Array.length_toList, hcode, Instruction.length_relativeFrom]

theorem getElem?_of_relativeFrom (pc : Nat) : d.code[pc]? = code[pc]?.map (relativeTo pc) := by
  rw [← Array.getElem?_toList, hcode, Instruction.getElem?_relativeFrom, Nat.zero_add]

theorem save_iff_of_relativeFrom {pc slot : Nat} :
    d.code[pc]? = some (.save slot) ↔ code[pc]? = some (.save slot) := by
  rw [getElem?_of_relativeFrom hcode]
  cases code[pc]? with
  | none => simp
  | some i => simp [Instruction.relativeTo_eq_save_iff]

variable (htargets : ∀ j ∈ code, ∀ target ∈ j.targets, target < code.length)

include htargets

/-- Targets fit, so it depends on the slots of the draft whether operands do. -/
theorem fits_iff_of_relativeFrom {pc slots : Nat} {j : Instruction Nat} (hj : code[pc]? = some j) :
    j.Fits code.length slots ↔ ∀ slot, d.code[pc]? = some (.save slot) → slot < slots := by
  rw [Instruction.fits_iff, and_iff_right (htargets j (List.mem_of_getElem? hj))]
  simp only [save_iff_of_relativeFrom hcode, hj, Option.some.injEq]

/-- Nothing is wrong before an instruction exactly if the slots before it fit. -/
theorem violationAt?_before_iff {pc slots : Nat} (hpc : pc < code.length) :
    (∀ pc' < pc, ∀ j, code[pc']? = some j →
      Program.violationAt? code.length slots pc' j = none) ↔
    ∀ pc' < pc, ∀ slot, d.code[pc']? = some (.save slot) → slot < slots := by
  have hinside {pc' : Nat} (hpc' : pc' < pc) {j : Instruction Nat} :
      pc' + 1 = code.length → j.fallsThrough = false := by omega
  constructor
  · intro hnone pc' hpc' slot hsave
    have hj := (save_iff_of_relativeFrom hcode).mp hsave
    have hfits := (Program.violationAt?_eq_none_iff.mp (hnone pc' hpc' _ hj)).1
    exact (fits_iff_of_relativeFrom hcode htargets hj).mp hfits slot hsave
  · intro hslots pc' hpc' j hj
    exact Program.violationAt?_eq_none_iff.mpr
      ⟨(fits_iff_of_relativeFrom hcode htargets hj).mpr (hslots pc' hpc'), hinside hpc'⟩

/-- Code with all targets in it is valid exactly if the draft it comes from is well formed. -/
theorem wellFormed_iff_valid (hfit : d.LabelsFit) :
    d.WellFormed ↔ Program.Valid code.toArray d.groups := by
  have hsize : code.toArray.size = d.code.size := by
    rw [List.size_toArray, size_of_relativeFrom hcode]
  constructor
  · intro hwell
    refine ⟨hsize ▸ hwell.nonempty, hsize ▸ hwell.groups, fun pc j hj => ?_,
      fun pc j hj hlast => ?_⟩
    · rw [List.getElem?_toArray] at hj
      exact (fits_iff_of_relativeFrom hcode htargets hj).mpr (hwell.slots pc)
    · rw [List.getElem?_toArray] at hj
      have hpc : d.code.size - 1 = pc := by omega
      have hi : d.code[d.code.size - 1]? = some (relativeTo pc j) := by
        rw [hpc, getElem?_of_relativeFrom hcode, hj, Option.map_some]
      rw [← Instruction.fallsThrough_relativeTo pc, Instruction.fallsThrough_eq_false_iff]
      exact hwell.last _ hi
  · intro hvalid
    have hnonempty : 0 < d.code.size := hsize ▸ hvalid.nonempty
    refine ⟨hnonempty, fun x hx => ?_, hsize ▸ hvalid.groups_le, fun pc slot hslot => ?_,
      fun i hi => ?_⟩
    · obtain ⟨target, htarget, hbetween⟩ := Label.eq_between_of_violation (hfit x hx)
      exact ⟨target - x.1, hbetween, by omega, by omega⟩
    · rw [save_iff_of_relativeFrom hcode, ← List.getElem?_toArray] at hslot
      exact hvalid.fits pc _ hslot
    · rw [getElem?_of_relativeFrom hcode] at hi
      obtain ⟨j, hj, rfl⟩ := Option.map_eq_some_iff.mp hi
      rw [← List.getElem?_toArray] at hj
      rw [← Instruction.fallsThrough_eq_false_iff, Instruction.fallsThrough_relativeTo]
      exact hvalid.stops _ j hj (by omega)

/-- What the draft is refused for is what the check of the finished code finds. -/
theorem firstError?_of_refused (hfit : d.LabelsFit) {e : ProgramError} (h : d.Refused e) :
    Program.firstError? code.toArray d.groups = some e := by
  have hsize := size_of_relativeFrom hcode
  rw [Program.firstError?_eq_some_iff]
  simp only [List.size_toArray, List.getElem?_toArray]
  cases h with
  | @label before after pc label violation split fit defect =>
    have hmem : (pc, label) ∈ d.labels := by simp [split]
    rw [hfit (pc, label) hmem] at defect
    cases defect
  | empty defect => exact .inl ⟨hsize ▸ defect, rfl⟩
  | groups _ nonempty defect =>
    rw [hsize] at nonempty defect ⊢
    exact .inr (.inl ⟨nonempty, defect, rfl⟩)
  | @slot pc slot _ groups fit save defect =>
    rw [save_iff_of_relativeFrom hcode] at save
    have hpc := (List.getElem?_eq_some_iff.mp save).1
    have hviolation : Program.violationAt? code.length (Program.slotsFor d.groups) pc (.save slot) =
        some (.slotOutOfRange slot (2 * d.groups + 2)) :=
      (Program.violationAt?_eq_some_iff (htargets _ (List.mem_of_getElem? save))).mpr
        (.inl ⟨slot, rfl, defect, rfl⟩)
    exact .inr (.inr ⟨hsize ▸ groups, pc, .save slot, _, save, hviolation, rfl,
      (violationAt?_before_iff hcode htargets hpc).mpr fit⟩)
  | @last pc i _ groups fit last length defect =>
    rw [getElem?_of_relativeFrom hcode] at last
    obtain ⟨j, hj, rfl⟩ := Option.map_eq_some_iff.mp last
    have hpc := (List.getElem?_eq_some_iff.mp hj).1
    rw [← Instruction.fallsThrough_iff, Instruction.fallsThrough_relativeTo] at defect
    have hslots := Instruction.fits_iff.mp
      ((fits_iff_of_relativeFrom hcode htargets hj).mpr (fit pc))
    have hviolation := (Program.violationAt?_eq_some_iff hslots.1).mpr
      (.inr ⟨hslots.2, hsize ▸ length, defect, rfl⟩)
    exact .inr (.inr ⟨hsize ▸ groups, pc, j, _, hj, hviolation, rfl,
      (violationAt?_before_iff hcode htargets hpc).mpr fun pc' _ => fit pc'⟩)

theorem refused_of_firstError? (hfit : d.LabelsFit) {e : ProgramError}
    (h : Program.firstError? code.toArray d.groups = some e) : d.Refused e := by
  have hsize := size_of_relativeFrom hcode
  rw [Program.firstError?_eq_some_iff] at h
  simp only [List.size_toArray, List.getElem?_toArray] at h
  rcases h with ⟨hempty, rfl⟩ | ⟨hnonempty, hgroups, rfl⟩ |
    ⟨hgroups, pc, j, violation, hj, hviolation, rfl, hbefore⟩
  · exact .empty (hsize ▸ hempty)
  · rw [← hsize] at hnonempty hgroups ⊢
    exact .groups hfit hnonempty hgroups
  · have hpc := (List.getElem?_eq_some_iff.mp hj).1
    have hfits := (violationAt?_before_iff hcode htargets hpc).mp hbefore
    rw [Program.violationAt?_eq_some_iff (htargets j (List.mem_of_getElem? hj))] at hviolation
    rcases hviolation with ⟨slot, rfl, hle, rfl⟩ | ⟨hslot, hlength, hfalls, rfl⟩
    · exact .slot hfit (hsize ▸ hgroups) hfits ((save_iff_of_relativeFrom hcode).mpr hj) hle
    · have hlast : d.code[pc]? = some (relativeTo pc j) := by
        rw [getElem?_of_relativeFrom hcode, hj, Option.map_some]
      rw [← Instruction.fallsThrough_relativeTo pc, Instruction.fallsThrough_iff] at hfalls
      refine .last hfit (hsize ▸ hgroups) (fun pc' slot' hsave => ?_) hlast (hsize ▸ hlength) hfalls
      -- the slots before the last instruction fit, and so does its own
      have hpc' := (List.getElem?_eq_some_iff.mp ((save_iff_of_relativeFrom hcode).mp hsave)).1
      rcases Nat.lt_or_eq_of_le (show pc' ≤ pc by omega) with hpc' | rfl
      · exact hfits pc' hpc' slot' hsave
      · rw [save_iff_of_relativeFrom hcode, hj] at hsave
        exact hslot slot' (Option.some.inj hsave)

end Code

/-- A draft is well formed exactly if it resolves. -/
theorem exists_resolve_iff (hwords : d.InWords) : (∃ p, d.resolve = .ok p) ↔ d.WellFormed := by
  rcases resolve_cases hwords with ⟨e, hfirst, herror⟩ | ⟨code, hfirst, hcode, htargets, hcheck⟩
  · constructor
    · rintro ⟨p, hp⟩
      rw [herror] at hp
      cases hp
    · intro hwell
      have hfit : d.LabelsFit := fun x hx => by
        obtain ⟨distance, hlabel, hlow, hhigh⟩ := hwell.labels x hx
        rw [hlabel, Label.violation?, if_pos ⟨hlow, hhigh⟩]
      rw [labelsFit_iff, hfirst] at hfit
      cases hfit
  · rw [wellFormed_iff_valid hcode htargets (labelsFit_iff.mpr hfirst), hcheck]
    constructor
    · rintro ⟨p, hp⟩
      obtain ⟨hcode', hgroups⟩ := Program.ofCode_eq_ok hp
      rw [← hcode', ← hgroups]
      exact p.valid
    · intro hvalid
      exact Program.exists_ofCode (Program.firstError?_eq_none_iff.mpr hvalid)

theorem resolve_eq_error_iff (hwords : d.InWords) {e : ProgramError} :
    d.resolve = .error e ↔ d.Refused e := by
  rcases resolve_cases hwords with ⟨e', hfirst, herror⟩ | ⟨code, hfirst, hcode, htargets, hcheck⟩
  · rw [refused_iff_of_label hfirst, herror, Except.error.injEq, eq_comm]
  · have hfit := labelsFit_iff.mpr hfirst
    rw [hcheck, Program.ofCode_eq_error_iff]
    exact ⟨refused_of_firstError? hcode htargets hfit, firstError?_of_refused hcode htargets hfit⟩

end Draft

end RegexMachine
