import RegexMachine.Program.Assembly

/-!
# The layout of a block

The block of an expression, with all addresses known before any instruction is written. Its size
depends on the expression alone (`Expr.blockSize`), so the address of every part follows from the
address of the whole; the exit is given by whoever places the block.
-/

namespace RegexMachine

namespace Instruction

/-- The split of a repetition: a greedy one prefers its body, a lazy one its exit. -/
def fork (greedy : Bool) (body exit : Nat) : Instruction Nat :=
  if greedy then split body exit else split exit body

/-- The instruction at `pc`, with the distances to its targets in place of the targets. -/
def relativeTo (pc : Nat) : Instruction Nat → Instruction Label
  | char c => char c
  | accept => accept
  | jump target => jump (.relative (target - pc))
  | split first second => split (.relative (first - pc)) (.relative (second - pc))
  | save slot => save slot
  | nop => nop

/-- The instructions from `pc` on, with distances in place of targets. -/
def relativeFrom (pc : Nat) : List (Instruction Nat) → List (Instruction Label)
  | [] => []
  | i :: code => i.relativeTo pc :: relativeFrom (pc + 1) code

@[simp] theorem length_relativeFrom (pc : Nat) (code : List (Instruction Nat)) :
    (relativeFrom pc code).length = code.length := by
  induction code generalizing pc with
  | nil => rfl
  | cons i code ih => simp [relativeFrom, ih]

theorem relativeFrom_append (pc : Nat) (code more : List (Instruction Nat)) :
    relativeFrom pc (code ++ more) =
      relativeFrom pc code ++ relativeFrom (pc + code.length) more := by
  induction code generalizing pc with
  | nil => rfl
  | cons i code ih =>
    simp only [List.cons_append, relativeFrom, ih, List.length_cons]
    rw [Nat.add_right_comm, Nat.add_assoc]

end Instruction

namespace Expr

mutual

/-- Number of instructions in the block of an expression. -/
def blockSize : Expr → Nat
  | literal _ => 1
  | concat parts => blockSizes parts
  | alternation first second => first.blockSize + second.blockSize + 2
  | repetition .star _ body => body.blockSize + 2
  | repetition .plus _ body => body.blockSize + 1
  | repetition .question _ body => body.blockSize + 1
  | group (some _) body => body.blockSize + 2
  | group none body => body.blockSize

/-- Number of instructions in the blocks of expressions. -/
def blockSizes : List Expr → Nat
  | [] => 0
  | e :: es => e.blockSize + blockSizes es

end

mutual

/-- The block of an expression that begins at `entry` and is left for `exit`. -/
def block : Expr → (entry exit : Nat) → List (Instruction Nat)
  | literal c, _, _ => [.char c]
  | concat parts, entry, exit => blocks parts entry exit
  | alternation first second, entry, exit =>
    -- behind the jump
    let other := entry + first.blockSize + 2
    .split (entry + 1) other :: first.block (entry + 1) exit ++
      .jump exit :: second.block other exit
  | repetition .star greedy body, entry, exit =>
    let back := entry + 1 + body.blockSize
    .fork greedy (entry + 1) exit :: body.block (entry + 1) back ++ [.jump entry]
  | repetition .plus greedy body, entry, exit =>
    body.block entry (entry + body.blockSize) ++ [.fork greedy entry exit]
  | repetition .question greedy body, entry, exit =>
    .fork greedy (entry + 1) exit :: body.block (entry + 1) exit
  | group (some index) body, entry, _ =>
    .save (2 * index) :: body.block (entry + 1) (entry + 1 + body.blockSize) ++
      [.save (2 * index + 1)]
  | group none body, entry, exit => body.block entry exit

/-- The blocks of expressions one after the other. Each is left for the next one, the last one for
`exit`. -/
def blocks : List Expr → (entry exit : Nat) → List (Instruction Nat)
  | [], _, _ => []
  | e :: es, entry, exit =>
    let next := entry + e.blockSize
    e.block entry (if es.isEmpty then exit else next) ++ blocks es next exit

end

mutual

/-- The largest index of a capturing group, zero if there is none. -/
def maxIndex : Expr → Nat
  | literal _ => 0
  | concat parts => maxIndices parts
  | alternation first second => max first.maxIndex second.maxIndex
  | repetition _ _ body => body.maxIndex
  | group capture body => max (capture.getD 0) body.maxIndex

/-- The largest index of a capturing group in any of the trees. -/
def maxIndices : List Expr → Nat
  | [] => 0
  | e :: es => max e.maxIndex (maxIndices es)

end

/-- The instructions of the program for an expression. -/
def listing (e : Expr) : List (Instruction Nat) :=
  .save 0 :: e.block 1 (1 + e.blockSize) ++ [.save 1, .accept]

theorem length_blocks {parts : List Expr}
    (h : ∀ e ∈ parts, ∀ entry exit, (e.block entry exit).length = e.blockSize) (entry exit : Nat) :
    (blocks parts entry exit).length = blockSizes parts := by
  induction parts generalizing entry with
  | nil => simp [blocks, blockSizes]
  | cons e es ih =>
    simp only [blocks, blockSizes, List.length_append]
    rw [h e List.mem_cons_self, ih fun e he => h e (List.mem_cons_of_mem _ he)]

@[simp] theorem length_block (e : Expr) (entry exit : Nat) :
    (e.block entry exit).length = e.blockSize := by
  induction e generalizing entry exit with
  | literal c => simp [block, blockSize]
  | concat parts ih => simp only [block, blockSize, length_blocks ih]
  | alternation first second ih₁ ih₂ =>
    simp only [block, blockSize, List.length_cons, List.length_append, ih₁, ih₂]
    omega
  | repetition q greedy body ih =>
    cases q <;> simp [block, blockSize, ih]
  | group capture body ih =>
    cases capture <;> simp [block, blockSize, ih]

end Expr

end RegexMachine
