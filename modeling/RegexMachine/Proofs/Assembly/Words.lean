import RegexMachine.Proofs.Assembly.Defects

/-!
# Resolving in words

Places, targets and numbers of slots are 64-bit words. `Draft.resolveInWords` resolves a draft one
operation after the other, and halts with `Halt.overflow` at the first result that is not a word of
its type. That never happens for a draft that fits the memory (`Draft.resolveInWords_eq`): additions
that may leave the words are saturating or checked, and there are no more groups than instructions.

So it makes no difference that `Draft.resolve` works with numbers, and what it does with every draft
is the main result (`Draft.resolve_first_defect`).
-/

namespace RegexMachine

open Instruction (relativeTo relativeFrom)
open Draft (ok_bind)

/-- Why resolving in words does not end with a program. -/
inductive Halt where
  /-- a result is not a word of its type -/
  | overflow
  /-- the draft is refused -/
  | refused (e : ProgramError)

/-- Halts if there is an error, and goes on otherwise. -/
def Halt.raise : Option ProgramError → Except Halt Unit
  | none => .ok ()
  | some e => .error (.refused e)

namespace Word

/-- The largest unsigned word, 2^64 - 1. -/
def maxUnsigned : Nat := 18446744073709551615

/-- An unsigned word as a signed one. -/
def signed (n : Nat) : Except Halt Int :=
  if (n : Int) ≤ maxValue then .ok n else .error .overflow

/-- A signed word as an unsigned one, if it is not negative. -/
def unsigned? (n : Int) : Option Nat :=
  if 0 ≤ n then some n.toNat else none

/-- The result of a checked operation. -/
def checked? (n : Nat) : Option Nat :=
  if n ≤ maxUnsigned then some n else none

/-- The unsigned word before this one. -/
def pred (n : Nat) : Except Halt Nat :=
  if n = 0 then .error .overflow else .ok (n - 1)

variable {n : Nat}

theorem signed_of_lt (h : (n : Int) < maxValue) : signed n = .ok n :=
  if_pos (Int.le_of_lt h)

theorem pred_of_pos (h : 0 < n) : pred n = .ok (n - 1) :=
  if_neg (Nat.pos_iff_ne_zero.mp h)

end Word

/-! ## The steps in words -/

/-- `Label.resolve` in words. -/
def Label.resolveInWords (length pc : Nat) : Label → Except Halt Nat
  | hole => .error (.refused ⟨pc, .unpatchedHole⟩)
  | relative distance => do
    let source ← Word.signed pc
    let target := Word.saturate (source + distance)
    match (Word.unsigned? target).filter (· < length) with
    | some target => .ok target
    | none => .error (.refused ⟨pc, .targetOutOfRange target length⟩)

namespace Instruction

/-- Checks a target in words. The report of a target outside needs it as a signed word. -/
def checkTargetInWords (length pc target : Nat) : Except Halt Unit :=
  if target < length then .ok ()
  else do
    let target ← Word.signed target
    .error (.refused ⟨pc, .targetOutOfRange target length⟩)

/-- Checks the operands of the instruction at `pc` in words. -/
def checkInWords (length slots pc : Nat) : Instruction Nat → Except Halt Unit
  | jump target => checkTargetInWords length pc target
  | split first second => do
    checkTargetInWords length pc first
    checkTargetInWords length pc second
  | save slot => if slot < slots then .ok () else .error (.refused ⟨pc, .slotOutOfRange slot slots⟩)
  | char _ | accept | nop => .ok ()

end Instruction

namespace Program

/-- The number of slots in words, if there are not too many groups. -/
def slotsInWords (groups length : Nat) : Except Halt Nat :=
  match ((Word.checked? (2 * groups)).bind fun n => Word.checked? (n + 2)).filter
    (fun _ => groups ≤ length) with
  | some slots => .ok slots
  | none => .error (.refused ⟨0, .tooManyGroups groups length⟩)

/-- The check of the finished code in words. -/
def checkInWords (code : Array (Instruction Nat)) (groups : Nat) : Except Halt Unit :=
  if code.size = 0 then .error (.refused ⟨0, .emptyProgram⟩)
  else do
    let slots ← slotsInWords groups code.size
    forM code.toList.zipIdx fun (i, pc) => do
      i.checkInWords code.size slots pc
      let last ← Word.pred code.size
      if pc = last ∧ i.fallsThrough = true then .error (.refused ⟨pc, .fallsOffEnd⟩) else .ok ()

end Program

/-- `Draft.resolve` in words: the code, and the number of groups. -/
def Draft.resolveInWords (d : Draft) : Except Halt (Array (Instruction Nat) × Nat) := do
  let code ← d.code.toList.zipIdx.mapM fun (i, pc) =>
    i.mapTargets (Label.resolveInWords d.code.size pc)
  Program.checkInWords code.toArray d.groups
  .ok (code.toArray, d.groups)

/-! ## No step overflows -/

theorem Halt.unless_bind (e e' : Option ProgramError) :
    (raise e >>= fun _ => raise e') = raise (e <|> e') := by
  cases e <;> rfl

/-- A loop that goes on as long as there is no error ends with the first one. -/
theorem Halt.forM_eq {α : Type} {f : α → Except Halt Unit} {g : α → Option ProgramError}
    {xs : List α} (h : ∀ x ∈ xs, f x = raise (g x)) : forM xs f = raise (xs.findSome? g) := by
  induction xs with
  | nil => rfl
  | cons x xs ih =>
    rw [List.forall_mem_cons] at h
    rw [List.forM_cons, h.1, ih h.2, unless_bind, List.findSome?_cons]
    cases g x <;> rfl

/-- Errors change along with those of the function that is applied. -/
theorem Instruction.mapTargets_mapError {L M ε ε' : Type} (f : L → Except ε M) (g : ε → ε')
    (i : Instruction L) :
    i.mapTargets (fun target => (f target).mapError g) = (i.mapTargets f).mapError g := by
  cases i with
  | jump target =>
    simp only [mapTargets]
    cases f target <;> rfl
  | split first second =>
    simp only [mapTargets]
    cases f first with
    | error => rfl
    | ok => cases f second <;> rfl
  | _ => rfl

theorem Halt.mapM_mapError {α β ε ε' : Type} {f : α → Except ε' β} {f' : α → Except ε β}
    {g : ε → ε'} {xs : List α} (h : ∀ x ∈ xs, f x = (f' x).mapError g) :
    xs.mapM f = (xs.mapM f').mapError g := by
  induction xs with
  | nil => rfl
  | cons x xs ih =>
    rw [List.forall_mem_cons] at h
    rw [List.mapM_cons, List.mapM_cons, h.1, ih h.2]
    cases f' x with
    | error => rfl
    | ok => cases xs.mapM f' <;> rfl

variable {length pc : Nat}

/-- A place is a signed word, and a sum that is not is out of range. -/
theorem Label.resolveInWords_eq (hlength : (length : Int) < Word.maxValue) (hpc : pc < length)
    (label : Label) :
    label.resolveInWords length pc = (label.resolve length pc).mapError .refused := by
  cases label with
  | hole => rfl
  | relative distance =>
    have hsource : Word.signed pc = .ok pc := Word.signed_of_lt (by omega)
    rw [resolveInWords, hsource, ok_bind, resolve]
    by_cases hrange : 0 ≤ (pc : Int) + distance ∧ pc + distance < length
    · have hword : Word.saturate (pc + distance) = pc + distance :=
        Word.saturate_of_mem (by simp only [Word.minValue]; omega) (by omega)
      have hlt : (pc + distance).toNat < length := by omega
      simp [hword, hrange, Word.unsigned?, Option.filter_some, hlt, Except.mapError]
    · have hfilter :
          (Word.unsigned? (Word.saturate (pc + distance))).filter (· < length) = none := by
        rw [Option.filter_eq_none_iff, Word.unsigned?]
        intro target htarget
        split at htarget
        · obtain rfl := Option.some.inj htarget
          rw [decide_eq_true_eq]
          simp only [Word.saturate, Word.minValue, Word.maxValue] at *
          omega
        · cases htarget
      simp [hfilter, hrange, Except.mapError]

/-- A target within the program needs no report. -/
theorem Instruction.checkInWords_eq {slots : Nat} {i : Instruction Nat}
    (htargets : ∀ target ∈ i.targets, target < length) :
    i.checkInWords length slots pc =
      Halt.raise ((i.operandViolation? length slots).map (⟨pc, ·⟩)) := by
  cases i with
  | jump target =>
    have htarget := htargets target (by simp [targets])
    simp [checkInWords, checkTargetInWords, operandViolation?, targetViolation?, htarget,
      Halt.raise]
  | split first second =>
    have hfirst := htargets first (by simp [targets])
    have hsecond := htargets second (by simp [targets])
    simp [checkInWords, checkTargetInWords, operandViolation?, targetViolation?, hfirst, hsecond,
      Halt.raise, ok_bind]
  | save slot =>
    by_cases hslot : slot < slots <;> simp [checkInWords, operandViolation?, hslot, Halt.raise]
  | _ => rfl

namespace Program

/-- The number of slots is a word whenever the groups are no more than the instructions. -/
theorem slotsInWords_eq {groups : Nat} (hlength : (length : Int) < Word.maxValue) :
    slotsInWords groups length =
      if length < groups then .error (.refused ⟨0, .tooManyGroups groups length⟩)
      else .ok (slotsFor groups) := by
  rw [slotsInWords]
  split_ifs with hgroups
  · have hfilter (o : Option Nat) : o.filter (fun _ => groups ≤ length) = none := by
      simp [Option.filter_eq_none_iff, hgroups]
    rw [hfilter]
  · have hdouble : 2 * groups ≤ Word.maxUnsigned := by
      simp only [Word.maxValue, Word.maxUnsigned] at *
      omega
    have hsum : 2 * groups + 2 ≤ Word.maxUnsigned := by
      simp only [Word.maxValue, Word.maxUnsigned] at *
      omega
    simp [Word.checked?, hdouble, hsum, Nat.not_lt.mp hgroups, slotsFor, Option.filter_some]

/-- The check in words finds what the check finds. -/
theorem checkInWords_eq {code : Array (Instruction Nat)} {groups : Nat}
    (hlength : (code.size : Int) < Word.maxValue)
    (htargets : ∀ i ∈ code.toList, ∀ target ∈ i.targets, target < code.size) :
    checkInWords code groups = Halt.raise (firstError? code groups) := by
  rw [checkInWords, firstError?, slotsInWords_eq hlength]
  split_ifs with hempty hgroups
  · rfl
  · rfl
  · rw [ok_bind]
    refine Halt.forM_eq ?_
    rintro ⟨i, pc⟩ hi
    have hmem : i ∈ code.toList := List.mem_of_getElem? (List.mem_zipIdx_iff_getElem?.mp hi)
    dsimp only
    rw [Instruction.checkInWords_eq (htargets i hmem), Word.pred_of_pos (Nat.pos_of_ne_zero hempty),
      violationAt?]
    cases i.operandViolation? code.size (slotsFor groups) with
    | some violation => rfl
    | none =>
      have hlast : pc = code.size - 1 ↔ pc + 1 = code.size := by omega
      by_cases h : pc + 1 = code.size ∧ i.fallsThrough = true <;>
        simp [Halt.raise, ok_bind, hlast, h]

end Program

namespace Draft

variable {d : Draft}

/-- **Resolving does not overflow**: in words it ends as it does in numbers. -/
theorem resolveInWords_eq (hsize : (d.code.size : Int) < Word.maxValue) (hwords : d.InWords) :
    d.resolveInWords = (d.resolve.mapError .refused).map fun p => (p.code, p.groups) := by
  have hmap : (d.code.toList.zipIdx.mapM fun x : Instruction Label × Nat =>
        x.1.mapTargets (Label.resolveInWords d.code.size x.2)) =
      (d.code.toList.zipIdx.mapM fun x : Instruction Label × Nat =>
        x.1.mapTargets (Label.resolve d.code.size x.2)).mapError Halt.refused := by
    refine Halt.mapM_mapError ?_
    rintro ⟨i, pc⟩ hi
    have hpc : pc < d.code.size := by
      rw [List.mem_zipIdx_iff_getElem?] at hi
      exact (List.getElem?_eq_some_iff.mp hi).1
    rw [← Instruction.mapTargets_mapError]
    exact congrArg (i.mapTargets ·) (funext (Label.resolveInWords_eq hsize hpc))
  rw [resolveInWords, hmap, resolve]
  cases hfirst : d.labels.findSome? (labelError? d.code.size) with
  | some e =>
    rw [mapM_of_error hwords hfirst]
    rfl
  | none =>
    obtain ⟨code, hcode, htargets⟩ := exists_relativeFrom hfirst
    rw [size_of_relativeFrom hcode] at hsize htargets ⊢
    rw [hcode, mapM_relativeFrom 0 htargets]
    change (Program.checkInWords code.toArray d.groups >>= _) = _
    rw [Program.checkInWords_eq hsize htargets]
    cases hcheck : Program.firstError? code.toArray d.groups with
    | some e =>
      rw [ok_bind, Program.ofCode_eq_error_iff.mpr hcheck]
      rfl
    | none =>
      obtain ⟨p, hp⟩ := Program.exists_ofCode hcheck
      obtain ⟨hpcode, hpgroups⟩ := Program.ofCode_eq_ok hp
      rw [ok_bind, hp, ← hpcode, ← hpgroups]
      rfl

/-- **The first defect**: of the drafts whose distances are signed words, the well-formed ones
resolve to the program that has these distances, and all others are refused for the first thing that
is wrong with them. If the draft fits the memory, no operation on the way overflows. -/
theorem resolve_first_defect (d : Draft) (hwords : d.InWords) :
    ((∃ p, d.resolve = .ok p) ↔ d.WellFormed) ∧
    (∀ p, d.resolve = .ok p → p.size = d.code.size ∧ p.groups = d.groups ∧
      ∀ pc : Nat, d.code[pc]? = p.code[pc]?.map (relativeTo pc)) ∧
    (∀ e, d.resolve = .error e ↔ d.Refused e) ∧
    ((d.code.size : Int) < Word.maxValue →
      d.resolveInWords = (d.resolve.mapError .refused).map fun p => (p.code, p.groups)) := by
  refine ⟨exists_resolve_iff hwords, fun p hp => ?_, fun e => resolve_eq_error_iff hwords,
    fun hsize => resolveInWords_eq hsize hwords⟩
  obtain ⟨hcode, hgroups⟩ := (resolve_eq_ok_iff hwords).mp hp
  refine ⟨(size_of_relativeFrom hcode).symm, hgroups, fun pc => ?_⟩
  rw [getElem?_of_relativeFrom hcode, Array.getElem?_toList]

/-- The second target of the split is the first defect, before a hole, too many groups, a slot that
does not exist and an end that goes on. -/
theorem resolve_first_defect_saturated :
    let d : Draft := ⟨#[.jump (.relative 1), .split (.relative (-1)) (.relative Word.maxValue),
      .jump .hole, .save 99], 7⟩
    let e : ProgramError := ⟨1, .targetOutOfRange 9223372036854775807 4⟩
    d.InWords ∧ (d.code.size : Int) < Word.maxValue ∧ ¬ d.WellFormed ∧ d.resolve = .error e ∧
      d.resolveInWords = .error (.refused e) := by
  intro d e
  have hwords : d.InWords := by decide
  have hsize : (d.code.size : Int) < Word.maxValue := by decide
  obtain ⟨hwell, -, herror, hwordwise⟩ := resolve_first_defect d hwords
  have hlabels : d.labels = [(0, .relative 1), (1, .relative (-1))] ++
      (1, .relative Word.maxValue) :: [(2, .hole)] := rfl
  have hresolve : d.resolve = .error e := (herror e).mpr (.label hlabels (by decide) rfl)
  refine ⟨hwords, hsize, fun h => ?_, hresolve, ?_⟩
  · obtain ⟨p, hp⟩ := hwell.mpr h
    rw [hresolve] at hp
    cases hp
  · rw [hwordwise hsize, hresolve]
    rfl

end Draft

end RegexMachine
