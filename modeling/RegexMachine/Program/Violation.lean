/-!
# Violations of program invariants

What can be wrong with a list of instructions as a program, and the texts that say so.
-/

namespace RegexMachine

/-- The reasons for which a program is refused. -/
inductive Violation where
  /-- an operand that should be filled in already has a target, or there is no such operand -/
  | notAHole
  /-- a target was never filled in -/
  | unpatchedHole
  /-- a target outside the program -/
  | targetOutOfRange (target : Int) (length : Nat)
  /-- a slot that the program does not have -/
  | slotOutOfRange (slot slots : Nat)
  /-- more capturing groups than instructions -/
  | tooManyGroups (groups length : Nat)
  /-- the last instruction goes on at the next one -/
  | fallsOffEnd
  /-- there are no instructions -/
  | emptyProgram
  deriving DecidableEq, Repr

/-- The violation in words. -/
def Violation.message : Violation → String
  | notAHole => "patched operand is not a hole"
  | unpatchedHole => "jump operand was never patched"
  | targetOutOfRange target length => s!"jump target {target} outside program of length {length}"
  | slotOutOfRange slot slots => s!"save slot {slot} outside {slots} capture slots"
  | tooManyGroups groups length =>
    s!"{groups} capture groups cannot fit in a program of length {length}"
  | fallsOffEnd => "control falls off the end of the program"
  | emptyProgram => "program is empty"

/-- A violation and the program counter of the instruction at fault. -/
structure ProgramError where
  /-- program counter of the instruction at fault, zero if it is the program as a whole -/
  pc : Nat
  /-- what is wrong there -/
  violation : Violation
  deriving DecidableEq, Repr

/-- The whole report. -/
def ProgramError.message (e : ProgramError) : String :=
  s!"compile invariant violated at pc {e.pc}: {e.violation.message}"

end RegexMachine
