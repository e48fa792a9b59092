import RegexMachine.Program.Basic

/-!
# Drafts of programs

While a program is being assembled its jumps hold labels: the distance to the target, or a hole
where the target is not known yet. A draft grows at the end, and its holes are patched later.
`Draft.resolve` turns distances into program counters and checks the result.
-/

namespace RegexMachine

/-- The target of a jump in a draft. -/
inductive Label where
  /-- not known yet -/
  | hole
  /-- so many instructions ahead of the jump itself -/
  | relative (distance : Int)
  deriving DecidableEq, Repr

namespace Label

/-- The label in a disassembly. -/
def text : Label → String
  | hole => "?"
  | relative distance => Text.signed distance

/-- The label of a jump at `source` to `target`. -/
def between (source target : Nat) : Label :=
  relative (target - source)

/-- The program counter that a label at `pc` means in a program of `length` instructions. A sum
beyond the signed words is as far out of range as the nearest word, which is the one reported. -/
def resolve (length pc : Nat) : Label → Except ProgramError Nat
  | hole => .error ⟨pc, .unpatchedHole⟩
  | relative distance =>
    let target := pc + distance
    if 0 ≤ target ∧ target < length then .ok target.toNat
    else .error ⟨pc, .targetOutOfRange (Word.saturate target) length⟩

end Label

/-- Which target of an instruction is meant. -/
inductive Operand where
  /-- the target of a jump, or the preferred one of a split -/
  | first
  /-- the other target of a split -/
  | second
  deriving DecidableEq, Repr

/-- A target that is to be filled in. -/
structure Hole where
  /-- program counter of the instruction -/
  pc : Nat
  /-- which of its targets -/
  operand : Operand
  deriving DecidableEq, Repr

/-- A program that is being assembled. -/
structure Draft where
  /-- the instructions so far -/
  code : Array (Instruction Label)
  /-- the largest number of a capturing group so far -/
  groups : Nat

/-- Fills in the target `operand` of an instruction, which has to be a hole. -/
def Instruction.fill? (label : Label) : Instruction Label → Operand → Option (Instruction Label)
  | .jump .hole, .first => some (.jump label)
  | .split .hole second, .first => some (.split label second)
  | .split first .hole, .second => some (.split first label)
  | _, _ => none

namespace Draft

/-- Nothing assembled yet. -/
def empty : Draft := ⟨#[], 0⟩

/-- The program counter of the next instruction. -/
def pc (d : Draft) : Nat := d.code.size

/-- Appends an instruction. -/
def emit (d : Draft) (i : Instruction Label) : Draft :=
  { d with code := d.code.push i }

/-- Takes note of the number of a capturing group. -/
def noteGroup (d : Draft) (index : Nat) : Draft :=
  { d with groups := max d.groups index }

/-- Appends a split between `target` and a hole. The target is preferred or the hole is. -/
def emitSplit (d : Draft) (target : Nat) (preferTarget : Bool) : Draft × Hole :=
  let label := Label.between d.pc target
  if preferTarget then (d.emit (.split label .hole), ⟨d.pc, .second⟩)
  else (d.emit (.split .hole label), ⟨d.pc, .first⟩)

/-- Makes the holes jumps to `target`. -/
def patch (d : Draft) (target : Nat) : List Hole → Except ProgramError Draft
  | [] => .ok d
  | hole :: holes =>
    match d.code[hole.pc]?.bind (·.fill? (Label.between hole.pc target) hole.operand) with
    | some i => patch { d with code := d.code.setIfInBounds hole.pc i } target holes
    | none => .error ⟨hole.pc, .notAHole⟩

/-- The lines of the disassembly, without program counters. -/
def lines (d : Draft) : List String :=
  d.code.toList.map (Instruction.text Label.text)

/-- The program that a draft describes. Labels are resolved first, in the order in which they
stand. -/
def resolve (d : Draft) : Except ProgramError Program := do
  let code ← d.code.toList.zipIdx.mapM fun (i, pc) => i.mapTargets (Label.resolve d.code.size pc)
  Program.ofCode code.toArray d.groups

end Draft

end RegexMachine
