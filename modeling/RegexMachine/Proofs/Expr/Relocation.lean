import RegexMachine.Proofs.Assembly.Placement
import RegexMachine.Proofs.Run.Twins

/-!
# Blocks at other places

The block of an expression is the same wherever it stands, and wherever it is left for: only its
targets depend on that (`Expr.block_alike`). So two programs with the block at different places do
the same there, as long as the places correspond to each other (`Program.Holds.alike`).
-/

namespace RegexMachine

/-- The same instruction, up to targets that correspond to each other. -/
inductive Instruction.Like (Goes : Nat → Nat → Prop) :
    Instruction Nat → Instruction Nat → Prop where
  /-- the same character -/
  | char (c : Char) : Like Goes (.char c) (.char c)
  /-- both accept -/
  | accept : Like Goes .accept .accept
  /-- targets that correspond -/
  | jump {t u : Nat} (h : Goes t u) : Like Goes (.jump t) (.jump u)
  /-- two pairs of targets that correspond -/
  | split {t u t' u' : Nat} (h : Goes t u) (h' : Goes t' u') : Like Goes (.split t t') (.split u u')
  /-- the same slot -/
  | save (slot : Nat) : Like Goes (.save slot) (.save slot)
  /-- both do nothing -/
  | nop : Like Goes .nop .nop

namespace Expr

variable {Goes : Nat → Nat → Prop} {entry entry' exit exit' : Nat}

theorem fork_alike {body body' : Nat} (greedy : Bool) (hbody : Goes body body')
    (hexit : Goes exit exit') :
    (Instruction.fork greedy body exit).Like Goes (.fork greedy body' exit') := by
  cases greedy with
  | true => exact .split hbody hexit
  | false => exact .split hexit hbody

theorem blocks_alike {parts : List Expr}
    (ih : ∀ e ∈ parts, ∀ {entry entry' exit exit' : Nat}, Goes exit exit' →
      (∀ i ≤ e.blockSize, Goes (entry + i) (entry' + i)) →
      List.Forall₂ (Instruction.Like Goes) (e.block entry exit) (e.block entry' exit'))
    (hexit : Goes exit exit') (hplaces : ∀ i ≤ blockSizes parts, Goes (entry + i) (entry' + i)) :
    List.Forall₂ (Instruction.Like Goes) (blocks parts entry exit) (blocks parts entry' exit') := by
  induction parts generalizing entry entry' with
  | nil =>
    rw [blocks, blocks]
    exact .nil
  | cons e es ihes =>
    rw [blockSizes] at hplaces
    have hnext : Goes (entry + e.blockSize) (entry' + e.blockSize) := hplaces _ (by omega)
    rw [blocks, blocks]
    apply List.rel_append
    · apply ih e List.mem_cons_self
      · split_ifs
        · exact hexit
        · exact hnext
      · intro i hi
        exact hplaces i (by omega)
    · apply ihes fun e he => ih e (List.mem_cons_of_mem _ he)
      intro i hi
      rw [Nat.add_assoc, Nat.add_assoc]
      exact hplaces _ (by omega)

/-- **Relocation**: the block of an expression at another place, and left for another one. -/
theorem block_alike (e : Expr) (hexit : Goes exit exit')
    (hplaces : ∀ i ≤ e.blockSize, Goes (entry + i) (entry' + i)) :
    List.Forall₂ (Instruction.Like Goes) (e.block entry exit) (e.block entry' exit') := by
  induction e generalizing entry entry' exit exit' with
  | literal c =>
    rw [block, block]
    exact .cons (.char c) .nil
  | concat parts ih =>
    rw [block, block]
    exact blocks_alike (fun e he _ _ _ _ => ih e he) hexit hplaces
  | alternation first second ih₁ ih₂ =>
    rw [blockSize] at hplaces
    have hother : Goes (entry + first.blockSize + 2) (entry' + first.blockSize + 2) :=
      hplaces (first.blockSize + 2) (by omega)
    have hfirst : List.Forall₂ (Instruction.Like Goes) (first.block (entry + 1) exit)
        (first.block (entry' + 1) exit') := by
      apply ih₁ hexit
      intro i hi
      rw [Nat.add_assoc, Nat.add_assoc]
      exact hplaces _ (by omega)
    have hsecond : List.Forall₂ (Instruction.Like Goes)
        (second.block (entry + first.blockSize + 2) exit)
        (second.block (entry' + first.blockSize + 2) exit') := by
      apply ih₂ hexit
      intro i hi
      have := hplaces (first.blockSize + 2 + i) (by omega)
      simpa only [Nat.add_assoc] using this
    rw [block, block]
    exact List.rel_append (.cons (.split (hplaces 1 (by omega)) hother) hfirst)
      (.cons (.jump hexit) hsecond)
  | repetition q greedy body ih =>
    cases q with
    | star =>
      rw [blockSize] at hplaces
      have hbody (i : Nat) (hi : i ≤ body.blockSize) : Goes (entry + 1 + i) (entry' + 1 + i) := by
        rw [Nat.add_assoc, Nat.add_assoc]
        exact hplaces _ (by omega)
      rw [block, block]
      refine List.rel_append (.cons (fork_alike greedy (hplaces 1 (by omega)) hexit)
        (ih (hbody _ (Nat.le_refl _)) hbody)) (.cons (.jump (hplaces 0 (Nat.zero_le _))) .nil)
    | plus =>
      rw [blockSize] at hplaces
      rw [block, block]
      refine List.rel_append (ih (hplaces _ (by omega)) fun i hi => hplaces i (by omega))
        (.cons (fork_alike greedy (hplaces 0 (Nat.zero_le _)) hexit) .nil)
    | question =>
      rw [blockSize] at hplaces
      rw [block, block]
      refine .cons (fork_alike greedy (hplaces 1 (by omega)) hexit) (ih hexit fun i hi => ?_)
      rw [Nat.add_assoc, Nat.add_assoc]
      exact hplaces _ (by omega)
  | group capture body ih =>
    cases capture with
    | none =>
      rw [block, block]
      exact ih hexit hplaces
    | some index =>
      rw [blockSize] at hplaces
      have hbody (i : Nat) (hi : i ≤ body.blockSize) : Goes (entry + 1 + i) (entry' + 1 + i) := by
        rw [Nat.add_assoc, Nat.add_assoc]
        exact hplaces _ (by omega)
      rw [block, block]
      exact List.rel_append (.cons (.save _) (ih (hbody _ (Nat.le_refl _)) hbody))
        (.cons (.save _) .nil)

end Expr

namespace Program

variable {p q : Program} {Goes : Nat → Nat → Prop} {a b : Nat}

theorem alike_of_like {i j : Instruction Nat} (hi : p.code[a]? = some i) (hj : q.code[b]? = some j)
    (h : i.Like Goes j) (hnext : i.fallsThrough = true → Goes (a + 1) (b + 1)) :
    p.Alike q Goes a b := by
  cases h with
  | char c => exact .char hi hj (hnext rfl)
  | accept => exact .accept hi hj
  | jump h => exact .jump hi hj h
  | split h h' => exact .split hi hj h h'
  | save slot => exact .save hi hj (hnext rfl)
  | nop => exact .nop hi hj (hnext rfl)

/-- Programs with like code at corresponding places do the same there. -/
theorem Holds.alike {code code' : List (Instruction Nat)} (hp : p.Holds a code)
    (hq : q.Holds b code')
    (h : List.Forall₂ (Instruction.Like Goes) code code')
    (hplaces : ∀ i ≤ code.length, Goes (a + i) (b + i)) :
    ∀ i < code.length, p.Alike q Goes (a + i) (b + i) := by
  induction h generalizing a b with
  | nil =>
    intro i hi
    cases hi
  | @cons x y code code' hxy h ih =>
    rw [List.length_cons] at hplaces ⊢
    intro i hi
    cases i with
    | zero => exact alike_of_like hp.1 hq.1 hxy fun _ => hplaces 1 (by omega)
    | succ i =>
      have hmore (i : Nat) (hi : i ≤ code.length) : Goes (a + 1 + i) (b + 1 + i) := by
        rw [Nat.add_assoc, Nat.add_assoc]
        exact hplaces _ (by omega)
      have halike := ih hp.2 hq.2 hmore i (by omega)
      simpa only [Nat.add_assoc, Nat.add_comm 1 i] using halike

/-- The same instruction at the same place, if control goes on from there where it should. -/
theorem alike_self (hcode : q.code[a]? = p.code[a]?)
    (hgoes : ∀ i, p.code[a]? = some i → (∀ t ∈ i.targets, Goes t t) ∧
      (i.fallsThrough = true → Goes (a + 1) (a + 1))) : p.Alike q Goes a a := by
  cases hi : p.code[a]? with
  | none => exact .outside hi (hcode.trans hi)
  | some i =>
    obtain ⟨htargets, hnext⟩ := hgoes i hi
    refine alike_of_like hi (hcode.trans hi) ?_ hnext
    cases i with
    | char c => exact .char c
    | accept => exact .accept
    | jump t => exact .jump (htargets t (by simp [Instruction.targets]))
    | split t u =>
      exact .split (htargets t (by simp [Instruction.targets]))
        (htargets u (by simp [Instruction.targets]))
    | save slot => exact .save slot
    | nop => exact .nop

end Program

namespace Expr

variable {p q : Program} {Goes : Nat → Nat → Prop} {entry entry' exit exit' : Nat}

/-- Programs that have the block of an expression at corresponding places do the same there. -/
theorem alike_block {e : Expr} (hp : p.Holds entry (e.block entry exit))
    (hq : q.Holds entry' (e.block entry' exit')) (hexit : Goes exit exit')
    (hplaces : ∀ i ≤ e.blockSize, Goes (entry + i) (entry' + i)) :
    ∀ i < e.blockSize, p.Alike q Goes (entry + i) (entry' + i) := by
  have halike := hp.alike hq (e.block_alike hexit hplaces)
  rw [length_block] at halike
  exact halike hplaces

end Expr

end RegexMachine
