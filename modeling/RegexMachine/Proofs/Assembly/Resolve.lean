import RegexMachine.Proofs.Assembly.Patch

/-!
# Resolving gives the listing back

All targets of a listing are within it, so resolving the distances of a draft gives back the
instructions they were taken from, and only the check of the finished code is left
(`Expr.program_eq`).
-/

namespace RegexMachine

open Instruction (relativeTo relativeFrom)

namespace Instruction

/-- The targets of an instruction. -/
def targets {L : Type} : Instruction L → List L
  | jump target => [target]
  | split first second => [first, second]
  | char _ | accept | save _ | nop => []

@[simp] theorem targets_fork (greedy : Bool) (body exit : Nat) :
    (fork greedy body exit).targets = if greedy then [body, exit] else [exit, body] := by
  cases greedy <;> rfl

end Instruction

theorem Label.resolve_between {length target : Nat} (source : Nat) (h : target < length) :
    resolve length source (relative (target - source)) = .ok target := by
  have hsum : (source : Int) + (target - source) = target := by omega
  simp [resolve, hsum, h]

theorem Instruction.mapTargets_relativeTo {length : Nat} {i : Instruction Nat} (pc : Nat)
    (h : ∀ target ∈ i.targets, target < length) :
    (relativeTo pc i).mapTargets (Label.resolve length pc) = .ok i := by
  cases i with
  | jump target =>
    simp [relativeTo, mapTargets, Label.resolve_between pc (h target (by simp [targets])),
      Draft.ok_bind]
  | split first second =>
    simp [relativeTo, mapTargets, Label.resolve_between pc (h first (by simp [targets])),
      Label.resolve_between pc (h second (by simp [targets])), Draft.ok_bind]
  | _ => rfl

namespace Draft

theorem mapM_relativeFrom {length : Nat} {code : List (Instruction Nat)} (pc : Nat)
    (h : ∀ i ∈ code, ∀ target ∈ i.targets, target < length) :
    ((relativeFrom pc code).zipIdx pc).mapM
      (fun (i, pc) => i.mapTargets (Label.resolve length pc)) = .ok code := by
  induction code generalizing pc with
  | nil => rfl
  | cons i code ih =>
    have hi := Instruction.mapTargets_relativeTo pc (h i List.mem_cons_self)
    have hcode := ih (pc + 1) fun j hj => h j (List.mem_cons_of_mem _ hj)
    simp [relativeFrom, hi, hcode, ok_bind, pure, Except.pure]

/-- Labels that were taken from targets within the code resolve to these. -/
theorem resolve_relativeFrom {code : List (Instruction Nat)} (groups : Nat)
    (h : ∀ i ∈ code, ∀ target ∈ i.targets, target < code.length) :
    resolve ⟨(relativeFrom 0 code).toArray, groups⟩ = Program.ofCode code.toArray groups := by
  have hsize : (relativeFrom 0 code).toArray.size = code.length := by simp
  rw [resolve, hsize, List.toList_toArray, mapM_relativeFrom 0 h]
  rfl

end Draft

namespace Expr

/-- The blocks of the parts lie within that of the concatenation. -/
theorem targets_blocks {parts : List Expr}
    (ih : ∀ e ∈ parts, ∀ entry exit, ∀ i ∈ e.block entry exit, ∀ target ∈ i.targets,
      target = exit ∨ entry ≤ target ∧ target ≤ entry + e.blockSize) (entry exit : Nat) :
    ∀ i ∈ blocks parts entry exit, ∀ target ∈ i.targets,
      target = exit ∨ entry ≤ target ∧ target ≤ entry + blockSizes parts := by
  induction parts generalizing entry with
  | nil =>
    intro i hi
    simp [blocks] at hi
  | cons e es ihes =>
    intro i hi target htarget
    simp only [blocks, List.mem_append] at hi
    rw [blockSizes]
    rcases hi with hi | hi
    · have := ih e List.mem_cons_self _ _ i hi target htarget
      split at this <;> omega
    · have := ihes (fun e he => ih e (List.mem_cons_of_mem _ he)) _ i hi target htarget
      omega

/-- Control leaves a block for its exit, or for the end of the block. -/
theorem targets_block (e : Expr) (entry exit : Nat) :
    ∀ i ∈ e.block entry exit, ∀ target ∈ i.targets,
      target = exit ∨ entry ≤ target ∧ target ≤ entry + e.blockSize := by
  induction e generalizing entry exit with
  | literal c => simp [block, Instruction.targets]
  | concat parts ih => exact targets_blocks ih entry exit
  | alternation first second ih₁ ih₂ =>
    intro i hi target htarget
    simp only [block, List.cons_append, List.mem_cons, List.mem_append] at hi
    rw [blockSize]
    rcases hi with rfl | hi | rfl | hi
    · simp [Instruction.targets] at htarget
      omega
    · have := ih₁ _ _ i hi target htarget
      omega
    · simp [Instruction.targets] at htarget
      omega
    · have := ih₂ _ _ i hi target htarget
      omega
  | repetition q greedy body ih =>
    intro i hi target htarget
    cases q with
    | star =>
      simp only [block, List.cons_append, List.mem_cons, List.mem_append, List.not_mem_nil,
        or_false] at hi
      rw [blockSize]
      rcases hi with rfl | hi | rfl
      · cases greedy <;> simp at htarget <;> omega
      · have := ih _ _ i hi target htarget
        omega
      · simp [Instruction.targets] at htarget
        omega
    | plus =>
      simp only [block, List.mem_append, List.mem_singleton] at hi
      rw [blockSize]
      rcases hi with hi | rfl
      · have := ih _ _ i hi target htarget
        omega
      · cases greedy <;> simp at htarget <;> omega
    | question =>
      simp only [block, List.mem_cons] at hi
      rw [blockSize]
      rcases hi with rfl | hi
      · cases greedy <;> simp at htarget <;> omega
      · have := ih _ _ i hi target htarget
        omega
  | group capture body ih =>
    intro i hi target htarget
    cases capture with
    | none => exact ih entry exit i hi target htarget
    | some index =>
      simp only [block, List.cons_append, List.mem_cons, List.mem_append, List.not_mem_nil,
        or_false] at hi
      rw [blockSize]
      rcases hi with rfl | hi | rfl
      · simp [Instruction.targets] at htarget
      · have := ih _ _ i hi target htarget
        omega
      · simp [Instruction.targets] at htarget

theorem length_listing (e : Expr) : e.listing.length = e.blockSize + 3 := by
  simp [listing]

theorem targets_listing (e : Expr) :
    ∀ i ∈ e.listing, ∀ target ∈ i.targets, target < e.listing.length := by
  intro i hi target htarget
  rw [length_listing]
  simp only [listing, List.cons_append, List.mem_cons, List.mem_append, List.not_mem_nil,
    or_false] at hi
  rcases hi with rfl | hi | rfl | rfl
  · simp [Instruction.targets] at htarget
  · have := e.targets_block _ _ i hi target htarget
    omega
  · simp [Instruction.targets] at htarget
  · simp [Instruction.targets] at htarget

/-- **Assembly in one step**: the program of an expression is its listing, if that is valid. -/
theorem program_eq (e : Expr) : e.program = Program.ofCode e.listing.toArray e.maxIndex := by
  rw [program, draft_eq]
  exact Draft.resolve_relativeFrom e.maxIndex e.targets_listing

end Expr

namespace Program

theorem ofCode_eq_ok {code : Array (Instruction Nat)} {groups : Nat} {p : Program}
    (h : ofCode code groups = .ok p) : p.code = code ∧ p.groups = groups := by
  rw [ofCode] at h
  split at h
  · obtain rfl := Except.ok.inj h
    exact ⟨rfl, rfl⟩
  · cases h

theorem exists_ofCode {code : Array (Instruction Nat)} {groups : Nat}
    (h : firstError? code groups = none) : ∃ p, ofCode code groups = .ok p := by
  rw [ofCode]
  split
  · exact ⟨_, rfl⟩
  · simp_all

/-- A program passes the check again. -/
theorem ofCode_code (p : Program) : ofCode p.code p.groups = .ok p := by
  rw [ofCode]
  split
  case h_1 => rfl
  case h_2 e he =>
    rw [firstError?_eq_none_iff.mpr p.valid] at he
    cases he

end Program

theorem Expr.exists_program {e : Expr}
    (h : Program.firstError? e.listing.toArray e.maxIndex = none) : ∃ p, e.program = .ok p := by
  rw [program_eq]
  exact Program.exists_ofCode h

end RegexMachine
