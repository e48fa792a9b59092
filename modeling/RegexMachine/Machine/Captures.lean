import RegexMachine.Machine.Thread
import RegexMachine.Text.Offset

/-!
# What a match captured

The slots of the thread that matched, read as spans of the subject. Group 0 is the match as a whole.
-/

namespace RegexMachine

/-- The outcome of a match. -/
structure Captures where
  /-- the text that was matched against -/
  subject : String
  /-- the offsets that the matching thread noted -/
  slots : Slots
  deriving DecidableEq, Repr

namespace Captures

/-- Number of groups, the whole match included. -/
def size (c : Captures) : Nat := c.slots.size / 2

/-- Start and end of a group, if it took part in the match. -/
def span (c : Captures) (group : Nat) : Option (Nat × Nat) := do
  let start ← c.slots[2 * group]?.join
  let stop ← c.slots[2 * group + 1]?.join
  return (start, stop)

/-- The text of a group, if its span is a piece of the subject. -/
def get (c : Captures) (group : Nat) : Option String := do
  let (start, stop) ← c.span group
  Text.slice? c.subject start stop

/-- The text of the whole match. -/
def text (c : Captures) : String := (c.get 0).getD ""

/-- The texts of the capturing groups, in order. -/
def groups (c : Captures) : List (Option String) :=
  (List.range' 1 (c.size - 1)).map c.get

end Captures

end RegexMachine
