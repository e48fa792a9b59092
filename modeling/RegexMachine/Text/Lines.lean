/-!
# Lines of a text

A line ends at a line feed. A carriage return in front of that belongs to the end of the line, and
one that stands elsewhere is an ordinary character.
-/

namespace RegexMachine.Text

/-- A line without the carriage return at its end, if there is one. -/
def chomp (cs : List Char) : List Char :=
  if cs.getLast? = some '\r' then cs.dropLast else cs

/-- The lines of a text. Behind the last line feed there is another line unless the text is over,
and that line keeps all its characters. -/
def lines (s : String) : List String :=
  let pieces := s.toList.splitOn '\n'
  (pieces.dropLast.map chomp ++ pieces.getLast?.toList.filter (· ≠ [])).map String.ofList

example : lines "a\r\nb\rc\n\nd\r" = ["a", "b\rc", "", "d\r"] := by decide

end RegexMachine.Text
