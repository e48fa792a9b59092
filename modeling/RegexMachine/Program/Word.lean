/-!
# Signed 64-bit words

Jump distances and the targets in reports are signed 64-bit words. A sum that leaves their range is
replaced by the nearest word; an unsigned word that is reported keeps its bits.
-/

namespace RegexMachine.Word

/-- The largest signed word, 2^63 - 1. -/
def maxValue : Int := 9223372036854775807

/-- The smallest signed word, -2^63. -/
def minValue : Int := -9223372036854775808

/-- The signed word nearest to a number. -/
def saturate (n : Int) : Int :=
  max minValue (min n maxValue)

/-- The signed word with the same low 64 bits as a number. -/
def wrap (n : Int) : Int :=
  n.bmod 18446744073709551616

theorem saturate_of_mem {n : Int} (low : minValue ≤ n) (high : n ≤ maxValue) : saturate n = n := by
  rw [saturate, Int.min_eq_left high, Int.max_eq_right low]

end RegexMachine.Word
