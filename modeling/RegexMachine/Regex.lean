import RegexMachine.Machine.Run
import RegexMachine.Pattern.Parser
import RegexMachine.Program.Assembly

/-!
# Compiled regular expressions

A pattern together with its program.
-/

namespace RegexMachine

/-- Why a pattern has no program. -/
inductive Error where
  /-- the pattern cannot be read -/
  | pattern (e : PatternError)
  /-- the code is not a program -/
  | program (e : ProgramError)
  deriving DecidableEq, Repr

/-- The report of an error. -/
def Error.message : Error → String
  | pattern e => e.message
  | program e => e.message

/-- A compiled regular expression. -/
structure Regex where
  /-- the pattern as it was given -/
  pattern : String
  /-- the program that matches it -/
  program : Program

namespace Regex

/-- Compiles a pattern. -/
def compile (pattern : String) : Except Error Regex := do
  let e ← (Expr.parse pattern).mapError .pattern
  let program ← e.program.mapError .program
  .ok ⟨pattern, program⟩

/-- What the expression captures of a subject, if it matches. -/
def captures (r : Regex) (subject : String) : Option Captures :=
  ((Machine.ofProgram r.program).captures subject).1

/-- Whether the expression matches the start of a subject. -/
def isMatch (r : Regex) (subject : String) : Bool :=
  (r.captures subject).isSome

end Regex

end RegexMachine
