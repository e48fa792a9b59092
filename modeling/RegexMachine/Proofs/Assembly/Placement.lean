import RegexMachine.Proofs.Assembly.Resolve

/-!
# Where a block stands

In the program of an expression every block stands where the layout puts it. `Program.Holds` says so
for one block and splits along with it, one lemma for each shape of an expression; `Expr.PlacedIn`
is what there is around the block of the whole.
-/

namespace RegexMachine

namespace Program

/-- The program has these instructions from `pc` on. -/
def Holds (p : Program) : (pc : Nat) → List (Instruction Nat) → Prop
  | _, [] => True
  | pc, i :: code => p.code[pc]? = some i ∧ p.Holds (pc + 1) code

variable {p : Program}

@[simp] theorem holds_cons {pc : Nat} {i : Instruction Nat} {code : List (Instruction Nat)} :
    p.Holds pc (i :: code) ↔ p.code[pc]? = some i ∧ p.Holds (pc + 1) code := Iff.rfl

@[simp] theorem holds_append {pc : Nat} {code more : List (Instruction Nat)} :
    p.Holds pc (code ++ more) ↔ p.Holds pc code ∧ p.Holds (pc + code.length) more := by
  induction code generalizing pc with
  | nil => simp [Holds]
  | cons i code ih =>
    rw [List.cons_append, holds_cons, holds_cons, ih, List.length_cons, and_assoc,
      Nat.add_right_comm, Nat.add_assoc]

theorem holds_of_append (before code : List (Instruction Nat))
    (h : p.code.toList = before ++ code) : p.Holds before.length code := by
  induction code generalizing before with
  | nil => trivial
  | cons i code ih =>
    rw [holds_cons]
    constructor
    · rw [← Array.getElem?_toList, h]
      simp
    · have hcode := ih (before ++ [i]) (by simpa using h)
      simpa using hcode

end Program

namespace Expr

variable {p : Program} {entry exit : Nat}

/-! ## The parts of a block in a program -/

theorem holds_blocks_cons {e : Expr} {es : List Expr} :
    p.Holds entry (blocks (e :: es) entry exit) ↔
      p.Holds entry (e.block entry (if es.isEmpty then exit else entry + e.blockSize)) ∧
      p.Holds (entry + e.blockSize) (blocks es (entry + e.blockSize) exit) := by
  rw [blocks, Program.holds_append, length_block]

theorem holds_alternation {first second : Expr} :
    p.Holds entry ((alternation first second).block entry exit) ↔
      p.code[entry]? = some (.split (entry + 1) (entry + first.blockSize + 2)) ∧
      p.Holds (entry + 1) (first.block (entry + 1) exit) ∧
      p.code[entry + 1 + first.blockSize]? = some (.jump exit) ∧
      p.Holds (entry + first.blockSize + 2) (second.block (entry + first.blockSize + 2) exit) := by
  have hnext : entry + 1 + first.blockSize + 1 = entry + first.blockSize + 2 := by omega
  rw [block, List.cons_append, Program.holds_cons, Program.holds_append, Program.holds_cons,
    length_block, hnext]

theorem holds_star {greedy : Bool} {body : Expr} :
    p.Holds entry ((repetition .star greedy body).block entry exit) ↔
      p.code[entry]? = some (.fork greedy (entry + 1) exit) ∧
      p.Holds (entry + 1) (body.block (entry + 1) (entry + 1 + body.blockSize)) ∧
      p.code[entry + 1 + body.blockSize]? = some (.jump entry) := by
  simp [block, Program.Holds]

theorem holds_plus {greedy : Bool} {body : Expr} :
    p.Holds entry ((repetition .plus greedy body).block entry exit) ↔
      p.Holds entry (body.block entry (entry + body.blockSize)) ∧
      p.code[entry + body.blockSize]? = some (.fork greedy entry exit) := by
  simp [block, Program.Holds]

theorem holds_question {greedy : Bool} {body : Expr} :
    p.Holds entry ((repetition .question greedy body).block entry exit) ↔
      p.code[entry]? = some (.fork greedy (entry + 1) exit) ∧
      p.Holds (entry + 1) (body.block (entry + 1) exit) := by
  rw [block, Program.holds_cons]

theorem holds_group {index : Nat} {body : Expr} :
    p.Holds entry ((group (some index) body).block entry exit) ↔
      p.code[entry]? = some (.save (2 * index)) ∧
      p.Holds (entry + 1) (body.block (entry + 1) (entry + 1 + body.blockSize)) ∧
      p.code[entry + 1 + body.blockSize]? = some (.save (2 * index + 1)) := by
  simp [block, Program.Holds]

/-- The program of an expression: its block, with the ends of the match noted around it. -/
structure PlacedIn (e : Expr) (p : Program) : Prop where
  /-- the start of the match is noted -/
  start : p.code[0]? = some (.save 0)
  /-- the block follows -/
  block : p.Holds 1 (e.block 1 (e.blockSize + 1))
  /-- the end of the match is noted -/
  stop : p.code[e.blockSize + 1]? = some (.save 1)
  /-- the subject has matched -/
  accept : p.code[e.blockSize + 2]? = some .accept
  /-- there are slots for all groups -/
  groups : p.groups = e.maxIndex

theorem placedIn {e : Expr} (h : e.program = .ok p) : e.PlacedIn p := by
  rw [program_eq] at h
  obtain ⟨hcode, hgroups⟩ := Program.ofCode_eq_ok h
  have hlisting : p.Holds 0 e.listing := Program.holds_of_append [] e.listing (by simp [hcode])
  have hsize : 0 + 1 + e.blockSize = e.blockSize + 1 := by omega
  rw [listing, List.cons_append, Program.holds_cons, Program.holds_append, Program.holds_cons,
    Program.holds_cons, length_block, hsize] at hlisting
  obtain ⟨hstart, hblock, hstop, haccept, -⟩ := hlisting
  exact ⟨hstart, hblock, hstop, haccept, hgroups⟩

end Expr

end RegexMachine
