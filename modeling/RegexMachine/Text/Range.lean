/-!
# Ranges of characters

A character property is a table of inclusive ranges of code points; `inRanges` looks a character up.
-/

namespace RegexMachine.Text

/-- Whether the code point of `c` lies in one of the inclusive ranges. -/
def inRanges (ranges : List (Nat × Nat)) (c : Char) : Bool :=
  ranges.any fun (first, last) => first ≤ c.toNat && c.toNat ≤ last

end RegexMachine.Text
