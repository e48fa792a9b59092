import RegexMachine.Proofs.Assembly.Slots
import RegexMachine.Proofs.Expr.Home
import RegexMachine.Proofs.Expr.Renumbering
import RegexMachine.Proofs.Run.Doubling

/-!
# A group around an expression

The program of a capturing group around an expression notes the ends of the match twice, for the
group and for the match as a whole. In between stands the block of the expression with all targets
and slots moved up (`Expr.block_shift`). So it is the program of the expression with two saves in a
row where the match begins and where it ends (`Expr.doubling_group`).
-/

namespace RegexMachine

/-- The instruction with its targets `distance` further on and its slot `later` by so many. -/
def Instruction.relocate (distance later : Nat) : Instruction Nat → Instruction Nat
  | char c => char c
  | accept => accept
  | jump target => jump (distance + target)
  | split first second => split (distance + first) (distance + second)
  | save slot => save (later + slot)
  | nop => nop

theorem Program.Holds.getElem?_add {p : Program} {code : List (Instruction Nat)} {pc k : Nat}
    (h : p.Holds pc code) (hk : k < code.length) : p.code[pc + k]? = code[k]? := by
  induction code generalizing pc k with
  | nil => cases hk
  | cons i code ih =>
    cases k with
    | zero => exact h.1
    | succ k =>
      rw [List.getElem?_cons_succ, ← ih h.2 (Nat.lt_of_succ_lt_succ hk), Nat.add_assoc,
        Nat.add_comm 1 k]

namespace Expr

open Instruction (relocate)

/-! ## The moved block -/

theorem blockSizes_renumberAll {f : Nat → Nat} {parts : List Expr}
    (ih : ∀ e ∈ parts, (e.renumber f).blockSize = e.blockSize) :
    blockSizes (renumberAll f parts) = blockSizes parts := by
  induction parts with
  | nil => rfl
  | cons e es ihes =>
    rw [renumberAll, blockSizes, blockSizes, ih e List.mem_cons_self,
      ihes fun e he => ih e (List.mem_cons_of_mem _ he)]

@[simp] theorem blockSize_renumber (f : Nat → Nat) (e : Expr) :
    (e.renumber f).blockSize = e.blockSize := by
  induction e with
  | literal c => rfl
  | concat parts ih => exact blockSizes_renumberAll ih
  | alternation first second ih₁ ih₂ => rw [renumber, blockSize, blockSize, ih₁, ih₂]
  | repetition q greedy body ih => cases q <;> rw [renumber, blockSize, blockSize, ih]
  | group capture body ih => cases capture <;> simp only [renumber, Option.map, blockSize, ih]

@[simp] theorem blockSize_shift (n : Nat) (e : Expr) : (e.shift n).blockSize = e.blockSize :=
  blockSize_renumber _ e

variable {n distance : Nat}

theorem relocate_fork {later : Nat} (greedy : Bool) (body exit : Nat) :
    relocate distance later (.fork greedy body exit) =
      .fork greedy (distance + body) (distance + exit) := by
  cases greedy <;> rfl

theorem blocks_shift {parts : List Expr}
    (ih : ∀ e ∈ parts, ∀ entry exit, (e.shift n).block (distance + entry) (distance + exit) =
      (e.block entry exit).map (relocate distance (2 * n))) (entry exit : Nat) :
    blocks (renumberAll (n + ·) parts) (distance + entry) (distance + exit) =
      (blocks parts entry exit).map (relocate distance (2 * n)) := by
  induction parts generalizing entry with
  | nil => simp [renumberAll, blocks]
  | cons e es ihes =>
    have hempty : (renumberAll (n + ·) es).isEmpty = es.isEmpty := by
      rw [renumberAll_eq_map, List.isEmpty_map]
    have hmore := ihes (fun e he => ih e (List.mem_cons_of_mem _ he)) (entry + e.blockSize)
    rw [renumberAll, blocks, blocks, blockSize_renumber, List.map_append, hempty, Nat.add_assoc,
      hmore, ← ih e List.mem_cons_self, shift, apply_ite (distance + ·)]

/-- **The moved block**: with later groups and at a later place. -/
theorem block_shift (e : Expr) (entry exit : Nat) :
    (e.shift n).block (distance + entry) (distance + exit) =
      (e.block entry exit).map (relocate distance (2 * n)) := by
  rw [shift]
  induction e generalizing entry exit with
  | literal c => simp [renumber, block, relocate]
  | concat parts ih =>
    rw [renumber, block, block]
    exact blocks_shift ih entry exit
  | alternation first second ih₁ ih₂ =>
    simp [renumber, block, relocate, ← ih₁, ← ih₂, Nat.add_assoc]
  | repetition q greedy body ih =>
    cases q with
    | star =>
      simp [renumber, block, relocate_fork, ← ih, Nat.add_assoc]
      rfl
    | plus | question => simp [renumber, block, relocate_fork, ← ih, Nat.add_assoc]
  | group capture body ih =>
    cases capture with
    | none => exact ih entry exit
    | some index => simp [renumber, block, relocate, ← ih, Nat.add_assoc, Nat.mul_add]

/-! ## The program of a group -/

/-- Where the instructions of a program stand in the program of a group around its expression, whose
block has so many instructions: behind the save that opens the group, and behind the one that closes
it. -/
def wrapPlace (size : Nat) : Nat → Nat
  | 0 => 0
  | pc + 1 => if pc ≤ size then pc + 2 else pc + 3

/-- The slots of the group are copies of those of the match, and all others are moved up. -/
def wrapSource (slot : Nat) : Nat := if slot < 2 then slot else slot - 2

theorem wrapSource_eq_iff {j slot : Nat} :
    wrapSource j = slot ↔ slot < 2 ∧ j = slot ∨ j = slot + 2 := by
  rw [wrapSource]
  split_ifs <;> omega

theorem strictMono_wrapPlace (size : Nat) : StrictMono (wrapPlace size) := by
  have hnext (pc : Nat) : wrapPlace size pc < wrapPlace size (pc + 1) := by
    cases pc with
    | zero => exact Nat.succ_pos _
    | succ pc =>
      rw [wrapPlace, wrapPlace]
      split_ifs <;> omega
  exact strictMono_nat_of_lt_succ hnext

theorem wrapPlace_of_le {size pc : Nat} (hpos : 0 < pc) (hle : pc ≤ size + 1) :
    wrapPlace size pc = pc + 1 := by
  obtain ⟨pc, rfl⟩ := Nat.exists_eq_add_of_le' hpos
  exact if_pos (Nat.le_of_succ_le_succ hle)

theorem wrapPlace_of_lt {size pc : Nat} (hlt : size + 1 < pc) : wrapPlace size pc = pc + 2 := by
  obtain ⟨pc, rfl⟩ := Nat.exists_eq_add_of_lt hlt
  exact if_neg (by omega)

variable {e : Expr} {p q : Program}

/-- An instruction of the block is moved up by one instruction, with its slot by one group. -/
theorem moved_of_mem_block (he : 0 ∉ e.indices) {i : Instruction Nat}
    (hi : i ∈ e.block 1 (1 + e.blockSize)) :
    i.Moved (wrapPlace e.blockSize) wrapSource (relocate 1 2 i) := by
  have htargets (t : Nat) (ht : t ∈ i.targets) : wrapPlace e.blockSize t = 1 + t := by
    have hrange := e.targets_block _ _ i hi t ht
    rw [wrapPlace_of_le (by omega) (by omega), Nat.add_comm]
  cases i with
  | char c => exact .char c
  | accept => exact .accept
  | jump t =>
    rw [relocate, ← htargets t (by simp [Instruction.targets])]
    exact .jump t
  | split t u =>
    rw [relocate, ← htargets t (by simp [Instruction.targets]),
      ← htargets u (by simp [Instruction.targets])]
    exact .split t u
  | save slot =>
    refine .save fun j => ?_
    have hslot : slot / 2 ≠ 0 := by
      rintro hzero
      have hpos := List.count_pos_iff.mpr hi
      rw [count_save_block, hzero, List.count_eq_zero.mpr he] at hpos
      cases hpos
    rw [wrapSource_eq_iff]
    omega
  | nop => exact .nop

/-- Where one program has a block and the other one has it moved up. -/
theorem doubled_of_holds (he : 0 ∉ e.indices) (hp : p.Holds 1 (e.block 1 (1 + e.blockSize)))
    (hq : q.Holds (1 + 1) ((e.shift 1).block (1 + 1) (1 + (1 + e.blockSize)))) {k : Nat}
    (hk : k < e.blockSize) : p.Doubled q (wrapPlace e.blockSize) wrapSource (k + 1) := by
  have hlength : k < (e.block 1 (1 + e.blockSize)).length := by rwa [length_block]
  have hi := List.getElem?_eq_getElem hlength
  rw [block_shift] at hq
  have hplace : wrapPlace e.blockSize (k + 1) = 1 + 1 + k := by
    rw [wrapPlace_of_le (by omega) (by omega), Nat.add_comm]
    omega
  refine .once ?_ ?_ (moved_of_mem_block he (List.getElem_mem hlength)) ?_
  · rw [Nat.add_comm, hp.getElem?_add hlength, hi]
  · rw [hplace, hq.getElem?_add (by rwa [List.length_map]), List.getElem?_map, hi]
    rfl
  · rw [hplace, wrapPlace_of_le (by omega) (by omega)]
    omega

/-- Every instruction has its place: the ends of the match are noted twice, and what is in between
is moved up. -/
theorem doubled_group (he : 0 ∉ e.indices) (hp : e.program = .ok p)
    (hq : (group (some 1) (e.shift 1)).program = .ok q) (pc : Nat) :
    p.Doubled q (wrapPlace e.blockSize) wrapSource pc := by
  have hsize := size_program hp
  have hsize' := size_program hq
  obtain ⟨hstart, hblock, hstop, haccept, -⟩ := placedIn hp
  obtain ⟨hstart', hgroup, hstop', haccept', -⟩ := placedIn hq
  obtain ⟨hopen, hblock', hclose⟩ := holds_group.mp hgroup
  rw [blockSize_shift] at hblock' hclose
  rw [blockSize, blockSize_shift] at hsize' hstop' haccept'
  rcases pc with _ | k
  · -- the match begins, and the group
    refine .twice hstart hstart' hopen (fun j => ?_) rfl
    rw [wrapSource_eq_iff]
    omega
  rcases Nat.lt_or_ge k e.blockSize with hinside | hbehind
  · rw [Nat.add_comm _ 1] at hblock
    rw [Nat.add_assoc 1 1] at hblock'
    exact doubled_of_holds he hblock hblock' hinside
  obtain ⟨k, rfl⟩ := Nat.exists_eq_add_of_le hbehind
  have hbeyond {pc : Nat} (h : e.blockSize + 1 < pc) : wrapPlace e.blockSize pc = pc + 2 :=
    wrapPlace_of_lt h
  rcases k with _ | _ | k
  · -- the group ends, and the match
    have hplace : wrapPlace e.blockSize (e.blockSize + 1) = e.blockSize + 2 :=
      wrapPlace_of_le (Nat.succ_pos _) (Nat.le_refl _)
    rw [Nat.add_comm _ e.blockSize] at hclose
    refine .twice hstop (hplace ▸ hclose) (hplace ▸ hstop') (fun j => ?_) ?_
    · rw [wrapSource_eq_iff]
      omega
    · rw [Nat.add_zero, hplace, hbeyond (by omega)]
  · have hplace := hbeyond (Nat.lt_succ_self (e.blockSize + 1))
    refine .once haccept (hplace ▸ haccept') .accept ?_
    rw [hplace, hbeyond (by omega)]
  · refine .outside (Array.getElem?_eq_none ?_) (Array.getElem?_eq_none ?_)
    · exact hsize.le.trans (by omega)
    · rw [hbeyond (by omega)]
      exact hsize'.le.trans (by omega)

theorem indices_group_shift (he : e.indices = List.range' 1 e.captureCount) :
    (group (some 1) (e.shift 1)).indices = List.range' 1 (e.captureCount + 1) := by
  rw [indices_group, indices_shift he]
  rfl

theorem slots_of_numbered {n : Nat} (he : e.indices = List.range' 1 n) (hp : e.program = .ok p) :
    p.slots = 2 * n + 2 := by
  rw [Program.slots, (placedIn hp).groups, maxIndex_of_numbered he]
  rfl

/-- **A group around an expression** notes both ends of the match a second time. -/
theorem doubling_group (he : e.indices = List.range' 1 e.captureCount) (hp : e.program = .ok p)
    (hq : (group (some 1) (e.shift 1)).program = .ok q) :
    p.Doubling q (wrapPlace e.blockSize) wrapSource where
  mono := strictMono_wrapPlace e.blockSize
  start := rfl
  slots j := by
    rw [slots_of_numbered he hp, slots_of_numbered (indices_group_shift he) hq, wrapSource]
    split_ifs <;> omega
  each := doubled_group (by simp [he]) hp hq

end Expr

end RegexMachine
