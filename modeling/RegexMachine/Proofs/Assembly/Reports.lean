import RegexMachine.Proofs.Assembly.Words

/-!
# Reports of targets

Finished code is checked as it is given, with program counters for targets. `Program.ofCode` accepts
it if all operands fit and control stops at the end (`Program.valid_iff`), and keeps it as it is. If
it refuses an instruction for a target, that is the first of its targets which are not in the
program (`Instruction.misfit?`).

A target is an unsigned word, but the report has a signed one with the same bits. So a target is
reported as the number that it is exactly up to the largest signed word (`Program.ofCode_reports`),
and a larger one is reported as a negative number (`Program.ofCode_reports_negative`).
-/

namespace RegexMachine

namespace Word

variable {n : Nat}

/-- A number keeps its value if it is a signed word. -/
theorem wrap_eq_self_iff : wrap n = n ↔ (n : Int) ≤ maxValue := by
  rw [wrap, maxValue, Int.bmod_def]
  split <;> omega

/-- An unsigned word that is larger becomes negative. -/
theorem wrap_of_large (hlarge : maxValue < (n : Int)) (hword : n ≤ maxUnsigned) :
    wrap n = n - (maxUnsigned + 1) ∧ wrap n < 0 := by
  rw [maxValue] at hlarge
  rw [maxUnsigned] at hword ⊢
  rw [wrap, Int.bmod_def]
  split <;> omega

end Word

namespace Instruction

/-- The first target that is not in a program of `length` instructions. -/
def misfit? (length : Nat) (i : Instruction Nat) : Option Nat :=
  i.targets.find? (length ≤ ·)

theorem targetViolation?_eq_find? (length target : Nat) : targetViolation? length target =
    ([target].find? (length ≤ ·)).map fun operand =>
      .targetOutOfRange (Word.wrap operand) length := by
  rcases Nat.lt_or_ge target length with h | h
  · simp [targetViolation?, h, Nat.not_le.mpr h]
  · simp [targetViolation?, h, Nat.not_lt.mpr h]

/-- What is wrong with targets is wrong with the first one that does not fit. -/
theorem operandViolation?_eq_misfit? (length slots : Nat) {i : Instruction Nat}
    (h : ∀ slot, i ≠ .save slot) : i.operandViolation? length slots =
      (i.misfit? length).map fun operand => .targetOutOfRange (Word.wrap operand) length := by
  cases i with
  | jump t => exact targetViolation?_eq_find? length t
  | split t u =>
    rw [misfit?, targets, ← List.singleton_append, List.find?_append, Option.map_or,
      ← targetViolation?_eq_find?, ← targetViolation?_eq_find?, operandViolation?,
      Option.orElse_eq_orElse, Option.orElse_eq_or]
  | save slot => exact absurd rfl (h slot)
  | char | accept | nop => rfl

theorem operandViolation?_eq_targetOutOfRange_iff {length length' : Nat} (slots : Nat)
    {target : Int} {i : Instruction Nat} :
    i.operandViolation? length slots = some (.targetOutOfRange target length') ↔
      length' = length ∧
        ∃ operand, i.misfit? length = some operand ∧ target = Word.wrap operand := by
  by_cases hsave : ∃ slot, i = .save slot
  · obtain ⟨slot, rfl⟩ := hsave
    by_cases hslot : slot < slots <;> simp [operandViolation?, misfit?, targets, hslot]
  · rw [operandViolation?_eq_misfit? length slots (not_exists.mp hsave), Option.map_eq_some_iff]
    constructor
    · rintro ⟨operand, hoperand, heq⟩
      obtain ⟨htarget, hlength⟩ := Violation.targetOutOfRange.inj heq
      exact ⟨hlength.symm, operand, hoperand, htarget.symm⟩
    · rintro ⟨hlength, operand, hoperand, htarget⟩
      exact ⟨operand, hoperand, by rw [htarget, hlength]⟩

end Instruction

namespace Program

variable {code : Array (Instruction Nat)} {groups : Nat}

theorem exists_ofCode_iff_valid : (∃ p, ofCode code groups = .ok p) ↔ Valid code groups := by
  constructor
  · rintro ⟨p, hp⟩
    obtain ⟨rfl, rfl⟩ := ofCode_eq_ok hp
    exact p.valid
  · intro valid
    exact exists_ofCode (firstError?_eq_none_iff.mpr valid)

theorem getLast?_toList_eq_some_iff {i : Instruction Nat} :
    code.toList.getLast? = some i ↔ ∃ pc, code[pc]? = some i ∧ pc + 1 = code.size := by
  rw [List.getLast?_eq_getElem?, Array.length_toList, Array.getElem?_toList]
  constructor
  · intro h
    have hlt := (Array.getElem?_eq_some_iff.mp h).1
    exact ⟨_, h, by omega⟩
  · rintro ⟨pc, hpc, hend⟩
    rwa [← hend, Nat.add_sub_cancel]

/-- Code is valid if all operands fit and control stops at the end. -/
theorem valid_iff : Valid code groups ↔
    0 < code.size ∧ groups ≤ code.size ∧
    (∀ i ∈ code.toList, ∀ target ∈ i.targets, target < code.size) ∧
    (∀ slot, .save slot ∈ code.toList → slot < 2 * groups + 2) ∧
    ∀ i, code.toList.getLast? = some i → i.fallsThrough = false := by
  have hmem (i : Instruction Nat) : i ∈ code.toList ↔ ∃ pc : Nat, code[pc]? = some i := by
    simp [List.mem_iff_getElem?]
  constructor
  · intro ⟨nonempty, groups_le, fits, stops⟩
    refine ⟨nonempty, groups_le, fun i hi => ?_, fun slot hslot => ?_, fun i hi => ?_⟩
    · obtain ⟨pc, hpc⟩ := (hmem i).mp hi
      exact (Instruction.fits_iff.mp (fits pc i hpc)).1
    · obtain ⟨pc, hpc⟩ := (hmem _).mp hslot
      exact fits pc _ hpc
    · obtain ⟨pc, hpc, hend⟩ := getLast?_toList_eq_some_iff.mp hi
      exact stops pc i hpc hend
  · rintro ⟨nonempty, groups_le, targets, slots, last⟩
    refine ⟨nonempty, groups_le, fun pc i hi => ?_, fun pc i hi hend => ?_⟩
    · have himem := (hmem i).mpr ⟨pc, hi⟩
      exact Instruction.fits_iff.mpr ⟨targets i himem, fun slot hslot => slots slot (hslot ▸ himem)⟩
    · exact last i (getLast?_toList_eq_some_iff.mpr ⟨pc, hi, hend⟩)

theorem violationAt?_eq_targetOutOfRange_iff {length slots pc length' : Nat} {target : Int}
    {i : Instruction Nat} :
    violationAt? length slots pc i = some (.targetOutOfRange target length') ↔
      length' = length ∧
        ∃ operand, i.misfit? length = some operand ∧ target = Word.wrap operand := by
  rw [← Instruction.operandViolation?_eq_targetOutOfRange_iff slots, violationAt?]
  cases i.operandViolation? length slots with
  | some violation => rfl
  | none =>
    -- what is left is the end of the program
    by_cases hend : pc + 1 = length ∧ i.fallsThrough = true <;> simp [hend]

/-- If code is refused for a target, it is reported from the first one that does not fit. -/
theorem misfit_of_ofCode {pc length : Nat} {target : Int}
    (h : ofCode code groups = .error ⟨pc, .targetOutOfRange target length⟩) :
    length = code.size ∧ ∃ i operand, code[pc]? = some i ∧ i.misfit? code.size = some operand ∧
      target = Word.wrap operand := by
  rw [ofCode_eq_error_iff, firstError?_eq_some_iff] at h
  rcases h with ⟨-, h⟩ | ⟨-, -, h⟩ | ⟨-, pc', i, violation, hi, hviolation, heq, -⟩
  · cases h
  · cases h
  · obtain ⟨rfl, rfl⟩ := ProgramError.mk.inj heq
    obtain ⟨rfl, operand, hoperand, htarget⟩ := violationAt?_eq_targetOutOfRange_iff.mp hviolation
    exact ⟨rfl, i, operand, hi, hoperand, htarget⟩

/-- **Reports**: code is accepted if there is nothing wrong with it, and is then the code of the
program. If it is refused for a target, that is the first target of the instruction which is not in
the program; and the number that is reported is this target exactly if it is a signed word. A larger
word is reported as negative. -/
theorem ofCode_reports (code : Array (Instruction Nat)) (groups : Nat) :
    ((∃ p, ofCode code groups = .ok p) ↔
      0 < code.size ∧ groups ≤ code.size ∧
      (∀ i ∈ code.toList, ∀ target ∈ i.targets, target < code.size) ∧
      (∀ slot, .save slot ∈ code.toList → slot < 2 * groups + 2) ∧
      ∀ i, code.toList.getLast? = some i → i.fallsThrough = false) ∧
    (∀ p, ofCode code groups = .ok p → p.code = code ∧ p.groups = groups) ∧
    ∀ pc target length, ofCode code groups = .error ⟨pc, .targetOutOfRange target length⟩ →
      length = code.size ∧ ∃ i operand, code[pc]? = some i ∧ i.misfit? code.size = some operand ∧
        (target = operand ↔ (operand : Int) ≤ Word.maxValue) ∧
        (Word.maxValue < (operand : Int) → operand ≤ Word.maxUnsigned →
          target = operand - (Word.maxUnsigned + 1) ∧ target < 0) := by
  refine ⟨exists_ofCode_iff_valid.trans valid_iff, fun p => ofCode_eq_ok,
    fun pc target length h => ?_⟩
  obtain ⟨hlength, i, operand, hi, hoperand, htarget⟩ := misfit_of_ofCode h
  rw [htarget]
  exact ⟨hlength, i, operand, hi, hoperand, Word.wrap_eq_self_iff, Word.wrap_of_large⟩

/-- The first unsigned word that is no signed one is reported as the smallest signed one. -/
theorem ofCode_reports_negative :
    let code : Array (Instruction Nat) := #[.jump 9223372036854775808, .accept]
    ofCode code 0 = .error ⟨0, .targetOutOfRange (-9223372036854775808) 2⟩ ∧
    ¬ ∀ pc target length, ofCode code 0 = .error ⟨pc, .targetOutOfRange target length⟩ →
      ∃ i operand, code[pc]? = some i ∧ i.misfit? code.size = some operand ∧
        target = operand := by
  intro code
  have hrefused : ofCode code 0 = .error ⟨0, .targetOutOfRange (-9223372036854775808) 2⟩ := by
    rw [ofCode_eq_error_iff]
    decide
  refine ⟨hrefused, fun h => ?_⟩
  obtain ⟨i, operand, -, -, hreported⟩ := h _ _ _ hrefused
  -- no target is negative
  omega

end Program

end RegexMachine
