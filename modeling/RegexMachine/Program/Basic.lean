import RegexMachine.Program.Instruction
import RegexMachine.Program.Violation
import RegexMachine.Program.Word

/-!
# Programs

A `Program` is a table of instructions that the matching machine can run without looking out for
anything: every target is a program counter of the table, every slot exists, and control never runs
past the last instruction. `Program.ofCode` checks this, in the order in which the instructions
stand, and names the first thing that is wrong.

`firstError?_eq_none_iff` says that the check finds nothing exactly if the code is valid.
-/

namespace RegexMachine

namespace Instruction

/-- The operands fit a program of `length` instructions and `slots` slots. -/
def Fits (length slots : Nat) : Instruction Nat → Prop
  | jump target => target < length
  | split first second => first < length ∧ second < length
  | save slot => slot < slots
  | char _ | accept | nop => True

/-- A target outside a program is reported as a signed word. -/
def targetViolation? (length target : Nat) : Option Violation :=
  if target < length then none else some (.targetOutOfRange (Word.wrap target) length)

/-- The first operand that does not fit. -/
def operandViolation? (length slots : Nat) : Instruction Nat → Option Violation
  | jump target => targetViolation? length target
  | split first second => targetViolation? length first <|> targetViolation? length second
  | save slot => if slot < slots then none else some (.slotOutOfRange slot slots)
  | char _ | accept | nop => none

theorem targetViolation?_eq_none_iff {length target : Nat} :
    targetViolation? length target = none ↔ target < length := by
  simp [targetViolation?]

theorem operandViolation?_eq_none_iff {length slots : Nat} {i : Instruction Nat} :
    i.operandViolation? length slots = none ↔ i.Fits length slots := by
  cases i <;> simp [operandViolation?, Fits, targetViolation?_eq_none_iff]

end Instruction

namespace Program

/-- Number of slots of a program with so many capturing groups: two for every group, and two for the
match as a whole. -/
def slotsFor (groups : Nat) : Nat := 2 * groups + 2

/-- The code of a program that can be run. -/
structure Valid (code : Array (Instruction Nat)) (groups : Nat) : Prop where
  /-- there is an instruction to start at -/
  nonempty : 0 < code.size
  /-- each group takes instructions of its own -/
  groups_le : groups ≤ code.size
  /-- targets and slots exist -/
  fits : ∀ (pc : Nat) (i : Instruction Nat), code[pc]? = some i →
    i.Fits code.size (slotsFor groups)
  /-- the last instruction does not go on at the next one -/
  stops : ∀ (pc : Nat) (i : Instruction Nat), code[pc]? = some i → pc + 1 = code.size →
    i.fallsThrough = false

/-- What is wrong with the instruction `i` at `pc`. -/
def violationAt? (length slots pc : Nat) (i : Instruction Nat) : Option Violation :=
  i.operandViolation? length slots <|>
    if pc + 1 = length ∧ i.fallsThrough = true then some .fallsOffEnd else none

/-- The first thing wrong with code and number of groups. -/
def firstError? (code : Array (Instruction Nat)) (groups : Nat) : Option ProgramError :=
  if code.size = 0 then some ⟨0, .emptyProgram⟩
  else if code.size < groups then some ⟨0, .tooManyGroups groups code.size⟩
  else code.toList.zipIdx.findSome? fun (i, pc) =>
    (violationAt? code.size (slotsFor groups) pc i).map fun violation => ⟨pc, violation⟩

theorem violationAt?_eq_none_iff {length slots pc : Nat} {i : Instruction Nat} :
    violationAt? length slots pc i = none ↔
      i.Fits length slots ∧ (pc + 1 = length → i.fallsThrough = false) := by
  simp [violationAt?, Instruction.operandViolation?_eq_none_iff]

theorem firstError?_eq_none_iff {code : Array (Instruction Nat)} {groups : Nat} :
    firstError? code groups = none ↔ Valid code groups := by
  by_cases nonempty : code.size = 0
  · simp only [firstError?, nonempty, ↓reduceIte, reduceCtorEq, false_iff]
    exact fun valid => absurd valid.nonempty (by omega)
  · by_cases groups_le : code.size < groups
    · simp only [firstError?, nonempty, groups_le, ↓reduceIte, reduceCtorEq, false_iff]
      exact fun valid => absurd valid.groups_le (by omega)
    · simp only [firstError?, nonempty, groups_le, ↓reduceIte, List.findSome?_eq_none_iff,
        Option.map_eq_none_iff, violationAt?_eq_none_iff, Prod.forall, List.mem_zipIdx_iff_getElem?,
        Array.getElem?_toList]
      constructor
      · intro sound
        exact ⟨by omega, by omega, fun pc i at_pc => (sound i pc at_pc).1,
          fun pc i at_pc => (sound i pc at_pc).2⟩
      · intro valid i pc at_pc
        exact ⟨valid.fits pc i at_pc, valid.stops pc i at_pc⟩

end Program

/-- A program for the matching machine. -/
structure Program where
  /-- the instructions; the first one is where a run starts -/
  code : Array (Instruction Nat)
  /-- number of capturing groups -/
  groups : Nat
  /-- the machine can run it -/
  valid : Program.Valid code groups

namespace Program

/-- The program with this code, if it is valid. -/
def ofCode (code : Array (Instruction Nat)) (groups : Nat) : Except ProgramError Program :=
  match h : firstError? code groups with
  | none => .ok ⟨code, groups, firstError?_eq_none_iff.1 h⟩
  | some e => .error e

/-- Number of instructions. -/
def size (p : Program) : Nat := p.code.size

/-- Whether there are no instructions. -/
def isEmpty (p : Program) : Bool := p.code.isEmpty

/-- Number of slots that belong to capturing groups. -/
def captureSlots (p : Program) : Nat := 2 * p.groups

/-- Number of slots, the two of the whole match included. -/
def slots (p : Program) : Nat := slotsFor p.groups

/-- The instructions as table rows. -/
def records (p : Program) : List Record :=
  p.code.toList.map Instruction.record

/-- The lines of the disassembly. A line begins with its program counter in at least four digits. -/
def lines (p : Program) : List String :=
  p.code.toList.zipIdx.map fun (i, pc) => Text.padded 4 pc ++ ": " ++ i.text toString

/-- The disassembly, with a line feed behind every line. -/
def disassembly (p : Program) : String :=
  String.join (p.lines.map (· ++ "\n"))

end Program

end RegexMachine
