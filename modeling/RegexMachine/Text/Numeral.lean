/-!
# Numerals

The three ways a number is written in a listing: plain decimal (`toString`), decimal filled up with
zeros to a least width, and decimal with a sign that is always shown.
-/

namespace RegexMachine.Text

/-- The decimal digits of `n`, with zeros in front up to `width` characters. A longer number keeps
all its digits. -/
def padded (width n : Nat) : String :=
  String.ofList (List.leftpad width '0' (Nat.toDigits 10 n))

/-- The decimal form of `n` with its sign, `+` for zero. -/
def signed (n : Int) : String :=
  (if 0 ≤ n then "+" else "-") ++ toString n.natAbs

/-- The lower-case hexadecimal digits of `n`, without leading zeros. -/
def hexDigits (n : Nat) : List Char :=
  Nat.toDigits 16 n

end RegexMachine.Text
