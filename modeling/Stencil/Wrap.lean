/-!
# Integers of 64 bits

An integer of 64 bits with a sign is the integer it stands for; what goes beyond the bounds wraps
around.
-/
namespace Stencil

/-- How many integers 64 bits hold. -/
def wordCount : Nat := 18446744073709551616

/-- The first integer beyond those of 64 bits with a sign. -/
def wordLimit : Nat := 9223372036854775808

/-- Wraps around to 64 bits with a sign. -/
def wrap (n : Int) : Int := n.bmod wordCount

/-- An integer within the bounds stays as it is. -/
theorem wrap_eq_self {n : Int} (low : -wordLimit ≤ n) (high : n < wordLimit) : wrap n = n := by
  unfold wrap
  rw [Int.bmod_eq_of_le]
  · simpa [wordLimit, wordCount] using low
  · simpa [wordLimit, wordCount] using high

end Stencil
