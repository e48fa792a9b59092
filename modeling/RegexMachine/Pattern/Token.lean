/-!
# Tokens of a pattern

A pattern is read as a sequence of tokens: characters that stand for themselves, and the few marks
with a meaning of their own.
-/

namespace RegexMachine

/-- The marks behind an atom that say how often it may occur. -/
inductive Quantifier where
  /-- any number of times -/
  | star
  /-- at least once -/
  | plus
  /-- at most once -/
  | question
  deriving DecidableEq, Repr

/-- The mark as it is written in a pattern. -/
def Quantifier.symbol : Quantifier → Char
  | star => '*'
  | plus => '+'
  | question => '?'

/-- One token of a pattern. -/
inductive Token where
  /-- a character that stands for itself, escaped or not -/
  | character (c : Char)
  /-- `|`, between two alternatives -/
  | bar
  /-- a quantifier, or the `?` that makes the quantifier before it lazy -/
  | quantifier (q : Quantifier)
  /-- `(` if the group captures, `(?:` if it does not -/
  | openGroup (captures : Bool)
  /-- `)` -/
  | closeGroup
  /-- the end of the pattern -/
  | finish
  deriving DecidableEq, Repr

namespace Token

/-- The text of a token. An escaped character shows without its escape. -/
def text : Token → String
  | character c => String.singleton c
  | bar => "|"
  | quantifier q => String.singleton q.symbol
  | openGroup true => "("
  | openGroup false => "(?:"
  | closeGroup => ")"
  | finish => "[empty]"

/-- The token that an unescaped character makes when it is read by itself. -/
def ofChar : Char → Token
  | '|' => bar
  | '*' => quantifier .star
  | '+' => quantifier .plus
  | '?' => quantifier .question
  | '(' => openGroup true
  | ')' => closeGroup
  | c => character c

end Token

end RegexMachine
