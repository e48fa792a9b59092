import RegexMachine.Proofs.Assembly.Resolve
import RegexMachine.Proofs.Expr.Groups
import Mathlib.Data.List.Nodup
import Mathlib.Tactic.SplitIfs

/-!
# The slots of a listing

A group notes its start in one slot and its end in the next one. So the slots that the listing of an
expression saves are given by the indices of its groups (`count_save_listing`), and if no index is
beyond the length of the listing, nothing else can be wrong with it (`valid_listing`).
-/

namespace RegexMachine

namespace Expr

theorem maxIndices_le_iff {parts : List Expr} {n : Nat}
    (ih : ∀ e ∈ parts, e.maxIndex ≤ n ↔ ∀ i ∈ e.indices, i ≤ n) :
    maxIndices parts ≤ n ↔ ∀ i ∈ parts.flatMap indices, i ≤ n := by
  induction parts with
  | nil => simp [maxIndices]
  | cons e es ihes =>
    rw [maxIndices, Nat.max_le, ih e List.mem_cons_self,
      ihes fun e he => ih e (List.mem_cons_of_mem _ he), List.flatMap_cons, List.forall_mem_append]

theorem maxIndex_le_iff (e : Expr) (n : Nat) : e.maxIndex ≤ n ↔ ∀ i ∈ e.indices, i ≤ n := by
  induction e with
  | literal c => simp [maxIndex]
  | concat parts ih => rw [maxIndex, maxIndices_le_iff ih, indices_concat]
  | alternation first second ih₁ ih₂ =>
    rw [maxIndex, Nat.max_le, ih₁, ih₂, indices_alternation, List.forall_mem_append]
  | repetition q greedy body ih => rw [maxIndex, ih, indices_repetition]
  | group capture body ih =>
    rw [maxIndex, Nat.max_le, ih, indices_group, List.forall_mem_append]
    cases capture <;> simp

/-- If the groups are numbered, the last number is the largest. -/
theorem maxIndex_of_numbered {e : Expr} {n : Nat} (h : e.indices = List.range' 1 n) :
    e.maxIndex = n := by
  have hle := e.maxIndex_le_iff
  simp only [h, List.mem_range'_1] at hle
  refine Nat.le_antisymm ((hle n).mpr fun i hi => by omega) ?_
  rcases Nat.eq_zero_or_pos n with rfl | hpos
  · exact Nat.zero_le _
  · exact (hle e.maxIndex).mp (Nat.le_refl _) n (by omega)

/-! ## Saved slots -/

/-- A group saves the two slots whose half is its index. -/
theorem count_save_group (index slot : Nat) :
    ([.save (2 * index), .save (2 * index + 1)] : List (Instruction Nat)).count (.save slot) =
      [index].count (slot / 2) := by
  simp only [List.count_cons, List.count_nil, beq_iff_eq, Instruction.save.injEq]
  split_ifs <;> omega

theorem count_save_blocks {parts : List Expr} {slot : Nat}
    (ih : ∀ e ∈ parts, ∀ entry exit,
      (e.block entry exit).count (.save slot) = e.indices.count (slot / 2)) (entry exit : Nat) :
    (blocks parts entry exit).count (.save slot) =
      (parts.flatMap indices).count (slot / 2) := by
  induction parts generalizing entry with
  | nil => simp [blocks]
  | cons e es ihes =>
    rw [blocks, List.count_append, List.flatMap_cons, List.count_append, ih e List.mem_cons_self,
      ihes fun e he => ih e (List.mem_cons_of_mem _ he)]

/-- A block saves each of the two slots of a group as often as the group stands in the
expression. -/
theorem count_save_block (e : Expr) (slot entry exit : Nat) :
    (e.block entry exit).count (.save slot) = e.indices.count (slot / 2) := by
  induction e generalizing entry exit with
  | literal c => simp [block]
  | concat parts ih => rw [block, count_save_blocks ih, indices_concat]
  | alternation first second ih₁ ih₂ => simp [block, List.count_append, ih₁, ih₂]
  | repetition q greedy body ih =>
    cases q <;> cases greedy <;> simp [block, Instruction.fork, List.count_append, ih]
  | group capture body ih =>
    cases capture with
    | none => exact ih entry exit
    | some index =>
      have hperm : ((group (some index) body).block entry exit).Perm
          ([.save (2 * index), .save (2 * index + 1)] ++
            body.block (entry + 1) (entry + 1 + body.blockSize)) := by
        rw [block, List.cons_append]
        exact (List.perm_append_singleton ..).cons _
      rw [hperm.count_eq, List.count_append, count_save_group, ih, ← List.count_append,
        indices_group]
      rfl

/-- The program matches a group with index zero around the whole expression, and then accepts. -/
theorem listing_eq (e : Expr) : e.listing = (group (some 0) e).block 0 0 ++ [.accept] := by
  simp [listing, block]

theorem count_save_listing (e : Expr) (slot : Nat) :
    e.listing.count (.save slot) = (0 :: e.indices).count (slot / 2) := by
  rw [listing_eq, List.count_append, count_save_block, indices_group]
  simp

/-! ## Validity -/

theorem lt_of_save_mem_listing {e : Expr} {slot : Nat} (h : .save slot ∈ e.listing) :
    slot < Program.slotsFor e.maxIndex := by
  have hpos := List.count_pos_iff.mpr h
  rw [count_save_listing, List.count_pos_iff, List.mem_cons] at hpos
  have hle : slot / 2 ≤ e.maxIndex := by
    rcases hpos with hzero | hmem
    · omega
    · exact (e.maxIndex_le_iff _).mp (Nat.le_refl _) _ hmem
  rw [Program.slotsFor]
  omega

theorem fits_of_mem_listing {e : Expr} {i : Instruction Nat} (h : i ∈ e.listing) :
    i.Fits e.listing.length (Program.slotsFor e.maxIndex) := by
  have htargets := e.targets_listing i h
  cases i with
  | char | accept | nop => trivial
  | jump target => exact htargets target (by simp [Instruction.targets])
  | split first second =>
    exact ⟨htargets first (by simp [Instruction.targets]),
      htargets second (by simp [Instruction.targets])⟩
  | save slot => exact lt_of_save_mem_listing h

/-- A listing is a program unless it has a group whose index is too large for it. -/
theorem valid_listing {e : Expr} (h : e.maxIndex ≤ e.blockSize + 3) :
    Program.Valid e.listing.toArray e.maxIndex where
  nonempty := by simp [length_listing]
  groups_le := by simpa [length_listing] using h
  fits pc i hi := by
    rw [List.getElem?_toArray] at hi
    simpa using fits_of_mem_listing (List.mem_of_getElem? hi)
  stops pc i hi hpc := by
    -- the last instruction accepts
    have hlast : pc = ((group (some 0) e).block 0 0).length := by
      rw [List.size_toArray, listing_eq] at hpc
      simpa using hpc
    rw [List.getElem?_toArray, listing_eq, hlast, List.getElem?_concat_length] at hi
    obtain rfl := Option.some.inj hi
    rfl

theorem program_eq_ok {e : Expr} (h : e.maxIndex ≤ e.blockSize + 3) :
    ∃ p, e.program = .ok p ∧ p.code.toList = e.listing ∧ p.groups = e.maxIndex := by
  obtain ⟨p, hp⟩ := exists_program (Program.firstError?_eq_none_iff.mpr (valid_listing h))
  have hcode := hp
  rw [program_eq] at hcode
  obtain ⟨hcode, hgroups⟩ := Program.ofCode_eq_ok hcode
  exact ⟨p, hp, by rw [hcode], hgroups⟩

/-! ## Numbered groups -/

theorem captureCounts_le_blockSizes {parts : List Expr}
    (ih : ∀ e ∈ parts, e.captureCount ≤ e.blockSize) :
    captureCounts parts ≤ blockSizes parts := by
  induction parts with
  | nil => exact Nat.le_refl _
  | cons e es ihes =>
    exact Nat.add_le_add (ih e List.mem_cons_self)
      (ihes fun e he => ih e (List.mem_cons_of_mem _ he))

/-- Each group takes instructions of its own. -/
theorem captureCount_le_blockSize (e : Expr) : e.captureCount ≤ e.blockSize := by
  induction e with
  | literal c => exact Nat.zero_le _
  | concat parts ih => exact captureCounts_le_blockSizes ih
  | alternation first second ih₁ ih₂ =>
    rw [captureCount, blockSize]
    omega
  | repetition q greedy body ih => cases q <;> rw [captureCount, blockSize] <;> omega
  | group capture body ih => cases capture <;> simp [captureCount, blockSize] <;> omega

/-- So numbered groups always have room. -/
theorem program_of_numbered {e : Expr} (h : e.indices = List.range' 1 e.captureCount) :
    ∃ p, e.program = .ok p ∧ p.code.toList = e.listing ∧ p.groups = e.captureCount := by
  have hmax := maxIndex_of_numbered h
  have hle : e.maxIndex ≤ e.blockSize + 3 := by
    have := e.captureCount_le_blockSize
    omega
  obtain ⟨p, hp, hcode, hgroups⟩ := program_eq_ok hle
  exact ⟨p, hp, hcode, hgroups.trans hmax⟩

/-- Every slot of a program with numbered groups is saved in one place. -/
theorem count_save_of_numbered {e : Expr} (h : e.indices = List.range' 1 e.captureCount)
    {slot : Nat}
    (hslot : slot < 2 * e.captureCount + 2) : e.listing.count (.save slot) = 1 := by
  have hrange : 0 :: e.indices = List.range' 0 (e.captureCount + 1) := by
    rw [h, List.range'_succ]
  rw [count_save_listing, hrange, List.count_eq_one_of_mem List.nodup_range']
  rw [List.mem_range'_1]
  omega

end Expr

end RegexMachine
