import RegexMachine.Pattern.Expr
import RegexMachine.Program.Draft

/-!
# Assembling the program of an expression

Every expression becomes a block of instructions with one entry, its first instruction, and any
number of exits: its end, and the holes it leaves. Whoever places the next block patches the holes.

    literal c       char c
    e f …           e  f …
    e | f           split L1, L2;  L1: e;  jmp out;  L2: f
    e*              L1: split L2, out;  L2: e;  jmp L1
    e+              L1: e;  split L1, out
    e?              split L1, out;  L1: e
    (e)             save 2i;  e;  save 2i+1

A lazy repetition has the operands of its split the other way round.
-/

namespace RegexMachine

namespace Draft

mutual

/-- Appends the block of an expression, and hands out its holes. -/
def assemble (d : Draft) : Expr → Except ProgramError (Draft × List Hole)
  | .literal c => .ok (d.emit (.char c), [])
  | .concat parts => d.assembleAll [] parts
  | .alternation first second => d.assembleChoices [] first second
  | .repetition .star greedy body => do
    let entry := d.pc
    let (d, exit) := d.emitSplit (entry + 1) greedy
    let (d, holes) ← d.assemble body
    let back := d.pc
    let d := d.emit (.jump (.between back entry))
    let d ← d.patch back holes
    .ok (d, [exit])
  | .repetition .plus greedy body => do
    let entry := d.pc
    let (d, holes) ← d.assemble body
    let d ← d.patch d.pc holes
    let (d, exit) := d.emitSplit entry greedy
    .ok (d, [exit])
  | .repetition .question greedy body => do
    let (d, exit) := d.emitSplit (d.pc + 1) greedy
    let (d, holes) ← d.assemble body
    .ok (d, holes ++ [exit])
  | .group (some index) body => do
    let d := (d.noteGroup index).emit (.save (2 * index))
    let (d, holes) ← d.assemble body
    let d ← d.patch d.pc holes
    .ok (d.emit (.save (2 * index + 1)), [])
  | .group none body => d.assemble body
termination_by e => sizeOf e

/-- Appends the blocks of expressions one after the other, behind a block that left `holes`. -/
def assembleAll (d : Draft) (holes : List Hole) :
    List Expr → Except ProgramError (Draft × List Hole)
  | [] => .ok (d, holes)
  | e :: es => do
    let d ← d.patch d.pc holes
    let (d, holes) ← d.assemble e
    d.assembleAll holes es
termination_by parts => sizeOf parts

/-- Appends the block of an alternation, behind alternatives that left `exits`. Alternatives in a
row are nested to the right, and are gone through in a loop. -/
def assembleChoices (d : Draft) (exits : List Hole) (first second : Expr) :
    Except ProgramError (Draft × List Hole) := do
  let (d, choice) := d.emitSplit (d.pc + 1) true
  let (d, holes) ← d.assemble first
  let exits := exits ++ holes ++ [⟨d.pc, .first⟩]
  let d := d.emit (.jump .hole)
  let d ← d.patch d.pc [choice]
  match second with
  | .alternation first second => d.assembleChoices exits first second
  | last => do
    let (d, holes) ← d.assemble last
    .ok (d, exits ++ holes)
termination_by sizeOf first + sizeOf second

end

end Draft

namespace Expr

/-- The draft for matching an expression: the slots 0 and 1 hold the ends of the whole match. -/
def draft (e : Expr) : Except ProgramError Draft := do
  let (d, holes) ← (Draft.empty.emit (.save 0)).assemble e
  let d ← d.patch d.pc holes
  .ok ((d.emit (.save 1)).emit .accept)

/-- The program for matching an expression. -/
def program (e : Expr) : Except ProgramError Program := do
  let d ← e.draft
  d.resolve

end Expr

end RegexMachine
