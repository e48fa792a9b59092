import RegexMachine.Text.Quoted

/-!
# Instructions of the matching machine

An instruction is generic in the type of its jump targets: program counters once a program is
complete, labels while it is being assembled. Its `Record` is the same thing as a row of a table
with the same columns for every operation.
-/

namespace RegexMachine

/-- One instruction; `L` is the type of jump targets. -/
inductive Instruction (L : Type) where
  /-- read this character -/
  | char (c : Char)
  /-- the text read so far matches -/
  | accept
  /-- go on at the target -/
  | jump (target : L)
  /-- go on at both targets from the same position, the first one preferred -/
  | split (first second : L)
  /-- note the current position in a slot -/
  | save (slot : Nat)
  /-- do nothing -/
  | nop
  deriving DecidableEq, Repr

/-- The operation of an instruction, without its operands. -/
inductive Opcode where
  /-- read a character -/
  | char
  /-- match -/
  | accept
  /-- go on elsewhere -/
  | jump
  /-- go on at two places -/
  | split
  /-- note the position -/
  | save
  /-- do nothing -/
  | nop
  deriving DecidableEq, Repr

namespace Opcode

/-- The number of the operation in a table. -/
def toNat : Opcode → Nat
  | char => 0
  | accept => 1
  | jump => 2
  | split => 3
  | save => 4
  | nop => 5

/-- The operation with a given number. -/
def ofNat? : Nat → Option Opcode
  | 0 => some char
  | 1 => some accept
  | 2 => some jump
  | 3 => some split
  | 4 => some save
  | 5 => some nop
  | _ => none

@[simp] theorem ofNat?_toNat (op : Opcode) : ofNat? op.toNat = some op := by
  cases op <;> rfl

/-- The name of the operation in a disassembly. -/
def mnemonic : Opcode → String
  | char => "char"
  | accept => "match"
  | jump => "jmp"
  | split => "split"
  | save => "save"
  | nop => "nop"

end Opcode

/-- An instruction as a table row. Columns that its operation does not use are zero. -/
structure Record where
  /-- the operation -/
  opcode : Opcode
  /-- the character to read -/
  char : Char
  /-- the (first) target, or the slot -/
  label1 : Nat
  /-- the second target -/
  label2 : Nat
  deriving DecidableEq, Repr

namespace Instruction

variable {L M : Type}

/-- The operation. -/
def opcode : Instruction L → Opcode
  | char _ => .char
  | accept => .accept
  | jump _ => .jump
  | split _ _ => .split
  | save _ => .save
  | nop => .nop

/-- Whether control goes on at the next instruction. -/
def fallsThrough : Instruction L → Bool
  | char _ | save _ | nop => true
  | accept | jump _ | split _ _ => false

/-- Replaces the targets in the order in which they are written; the first failure ends it. -/
def mapTargets {ε : Type} (f : L → Except ε M) : Instruction L → Except ε (Instruction M)
  | char c => .ok (char c)
  | accept => .ok accept
  | jump target => do
    let target ← f target
    .ok (jump target)
  | split first second => do
    let first ← f first
    let second ← f second
    .ok (split first second)
  | save slot => .ok (save slot)
  | nop => .ok nop

/-- The instruction as a line of a disassembly, given how targets are written. -/
def text (target : L → String) (i : Instruction L) : String :=
  match i with
  | char c => i.opcode.mnemonic ++ " " ++ Text.quotedChar c
  | jump t => i.opcode.mnemonic ++ " " ++ target t
  | split t u => i.opcode.mnemonic ++ " " ++ target t ++ ", " ++ target u
  | save slot => i.opcode.mnemonic ++ " " ++ toString slot
  | accept | nop => i.opcode.mnemonic

/-- The instruction as a table row. -/
def record : Instruction Nat → Record
  | char c => ⟨.char, c, 0, 0⟩
  | accept => ⟨.accept, '\x00', 0, 0⟩
  | jump target => ⟨.jump, '\x00', target, 0⟩
  | split first second => ⟨.split, '\x00', first, second⟩
  | save slot => ⟨.save, '\x00', slot, 0⟩
  | nop => ⟨.nop, '\x00', 0, 0⟩

/-- The instruction in a table row. Columns that its operation does not use are ignored. -/
def ofRecord (r : Record) : Instruction Nat :=
  match r.opcode with
  | .char => char r.char
  | .accept => accept
  | .jump => jump r.label1
  | .split => split r.label1 r.label2
  | .save => save r.label1
  | .nop => nop

@[simp] theorem ofRecord_record (i : Instruction Nat) : ofRecord i.record = i := by
  cases i <;> rfl

end Instruction

end RegexMachine
