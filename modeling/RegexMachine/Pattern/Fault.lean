import RegexMachine.Pattern.Token

/-!
# Faults of a pattern

What can be wrong with a pattern, and the texts that say so.
-/

namespace RegexMachine

/-- Groups may stand inside each other this deep. -/
def maxNesting : Nat := 250

/-- The reasons for which a pattern is refused. -/
inductive Fault where
  /-- a `)` while no group is open -/
  | unmatchedClose
  /-- the pattern ends while a group is open -/
  | missingClose
  /-- a quantifier at the start of a term -/
  | danglingQuantifier (q : Quantifier)
  /-- a quantifier behind a complete repetition -/
  | repeatedQuantifier (q : Quantifier)
  /-- a bar with nothing on one of its sides -/
  | emptyAlternative
  /-- a backslash before a character that has no escape -/
  | invalidEscape (c : Char)
  /-- a backslash at the end of the pattern -/
  | trailingBackslash
  /-- `(?` without `:` -/
  | unsupportedGroup
  /-- a group inside `maxNesting` others -/
  | nestingTooDeep
  deriving DecidableEq, Repr

/-- The fault in words. -/
def Fault.message : Fault → String
  | unmatchedClose => "unmatched closing parenthesis"
  | missingClose => "missing closing parenthesis"
  | danglingQuantifier q => s!"quantifier `{q.symbol}` has nothing to repeat"
  | repeatedQuantifier q => s!"quantifier `{q.symbol}` repeats another quantifier"
  | emptyAlternative => "empty alternative"
  | invalidEscape c => s!"invalid escape sequence `\\{c}`"
  | trailingBackslash => "trailing backslash"
  | unsupportedGroup => "unsupported group syntax"
  | nestingTooDeep => s!"groups nested more than {maxNesting} levels deep"

/-- A fault and the byte offset in the pattern to which it is due. -/
structure PatternError where
  /-- byte offset of the token or piece of text at fault -/
  position : Nat
  /-- what is wrong there -/
  fault : Fault
  deriving DecidableEq, Repr

/-- The whole report. -/
def PatternError.message (e : PatternError) : String :=
  s!"syntax error at position {e.position}: {e.fault.message}"

end RegexMachine
