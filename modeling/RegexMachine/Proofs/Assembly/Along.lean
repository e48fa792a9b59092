import RegexMachine.Proofs.Assembly.Placement
import Mathlib.Data.Set.Insert

/-!
# What goes along with the code

Much of what is said of the block of an expression is said of a place in the program and of some
exits: that the words of the language lead from there to the exits, that a search tries the ways to
them in order, that a run comes to one of them. All of it is shown alike, one instruction after the
other. `Expr.Along` says what there is to show, one clause for each piece of code that a block is
made of; the induction over the blocks is done here once (`Expr.Along.of_block`).
-/

namespace RegexMachine

namespace Expr

/-- What `P` says of an expression, of a place in the program and of the exits from there goes along
with the code. -/
structure Along (p : Program) (P : Expr → (entry : Nat) → (exits : Set Nat) → Prop) : Prop where
  /-- there may be more exits -/
  mono : ∀ {e entry exits more}, P e entry exits → exits ⊆ more → P e entry more
  /-- an exit may only lead to another one -/
  jump : ∀ {e entry exits mid target}, P e entry (insert mid exits) →
    p.code[mid]? = some (.jump target) → target ∈ exits → P e entry exits
  /-- one character -/
  literal : ∀ {c entry}, p.code[entry]? = some (.char c) → P (literal c) entry {entry + 1}
  /-- no parts: being there already -/
  empty : ∀ {entry exits}, entry ∈ exits → P (concat []) entry exits
  /-- the last part -/
  last : ∀ {e entry exits}, P e entry exits → P (concat [e]) entry exits
  /-- a part before others -/
  seq : ∀ {e es entry mid exits}, P e entry {mid} → P (concat es) mid exits →
    P (concat (e :: es)) entry exits
  /-- either of two -/
  alternation : ∀ {e₁ e₂ entry first second exits},
    p.code[entry]? = some (.split first second) → P e₁ first exits → P e₂ second exits →
    P (alternation e₁ e₂) entry exits
  /-- a fork whose body leads back to it -/
  star : ∀ {greedy e entry body exit}, p.code[entry]? = some (.fork greedy body exit) →
    P e body {entry} → P (repetition .star greedy e) entry {exit}
  /-- one round before the others -/
  plus : ∀ {greedy e entry mid exits}, P e entry {mid} →
    P (repetition .star greedy e) mid exits → P (repetition .plus greedy e) entry exits
  /-- a fork to the body or to an exit -/
  question : ∀ {greedy e entry body exit exits}, p.code[entry]? = some (.fork greedy body exit) →
    P e body exits → exit ∈ exits → P (repetition .question greedy e) entry exits
  /-- a group without an index leaves no code -/
  bare : ∀ {e entry exits}, P e entry exits → P (group none e) entry exits
  /-- the notes of a group around its body -/
  group : ∀ {index e entry mid}, p.code[entry]? = some (.save (2 * index)) →
    P e (entry + 1) {mid} → p.code[mid]? = some (.save (2 * index + 1)) →
    P (group (some index) e) entry {mid + 1}

namespace Along

variable {p : Program} {P : Expr → Nat → Set Nat → Prop}

theorem of_blocks (h : Along p P) {parts : List Expr}
    (ih : ∀ e ∈ parts, ∀ {entry exit}, p.Holds entry (e.block entry exit) →
      P e entry {exit, entry + e.blockSize}) {entry exit : Nat}
    (hcode : p.Holds entry (blocks parts entry exit)) :
    P (concat parts) entry {exit, entry + blockSizes parts} := by
  induction parts generalizing entry with
  | nil => exact h.empty (.inr rfl)
  | cons e es ihes =>
    obtain ⟨hfirst, hmore⟩ := holds_blocks_cons.mp hcode
    have he := ih e List.mem_cons_self hfirst
    have hes := ihes (fun e he => ih e (List.mem_cons_of_mem _ he)) hmore
    rw [blockSizes, ← Nat.add_assoc]
    -- only the last part may be left for the exit
    cases es with
    | nil => exact h.last he
    | cons e' es => exact h.seq (h.mono he (by simp)) hes

/-- **Along the code**: what goes along with the code holds of every block, where it stands. -/
theorem of_block (h : Along p P) (e : Expr) {entry exit : Nat}
    (hcode : p.Holds entry (e.block entry exit)) : P e entry {exit, entry + e.blockSize} := by
  induction e generalizing entry exit with
  | literal c => exact h.mono (h.literal hcode.1) (by simp [blockSize])
  | concat parts ih => exact h.of_blocks (fun e he {_ _} hcode => ih e he hcode) hcode
  | alternation first second ih₁ ih₂ =>
    obtain ⟨hsplit, hfirst, hjump, hsecond⟩ := holds_alternation.mp hcode
    have hend : entry + first.blockSize + 2 + second.blockSize =
        entry + (Expr.alternation first second).blockSize := by
      rw [blockSize]
      omega
    refine h.alternation hsplit ?_ (hend ▸ ih₂ hsecond)
    -- behind the first block there is a jump to where it may also go by itself
    exact h.jump (h.mono (ih₁ hfirst) (by grind)) hjump (.inl rfl)
  | repetition q greedy body ih =>
    cases q with
    | star =>
      obtain ⟨hfork, hbody, hjump⟩ := holds_star.mp hcode
      exact h.mono (h.star hfork (h.jump (h.mono (ih hbody) (by simp)) hjump rfl)) (by simp)
    | plus =>
      obtain ⟨hbody, hfork⟩ := holds_plus.mp hcode
      have hround : P body entry {entry + body.blockSize} := h.mono (ih hbody) (by simp)
      exact h.plus hround (h.mono (h.star hfork hround) (by simp))
    | question =>
      obtain ⟨hfork, hbody⟩ := holds_question.mp hcode
      have hend : entry + 1 + body.blockSize =
          entry + (Expr.repetition .question greedy body).blockSize := by
        rw [blockSize, Nat.add_assoc, Nat.add_comm 1]
      exact h.question hfork (hend ▸ ih hbody) (.inl rfl)
  | group capture body ih =>
    cases capture with
    | none => exact h.bare (ih hcode)
    | some index =>
      obtain ⟨hopen, hbody, hclose⟩ := holds_group.mp hcode
      have hend : entry + 1 + body.blockSize + 1 =
          entry + (Expr.group (some index) body).blockSize := by
        rw [blockSize]
        omega
      exact h.mono (h.group hopen (h.mono (ih hbody) (by simp)) hclose) (by simp [hend])

end Along

end Expr

end RegexMachine
