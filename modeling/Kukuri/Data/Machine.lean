import Mathlib

/-!
# Arithmetic of machine integers

Signed 64-bit integers are integers between `I64.least` and `I64.greatest`, unsigned ones are
natural numbers up to `U64.greatest`. Saturating operations stay at the nearest bound,
wrapping ones are taken modulo `2 ^ 64`.
-/

namespace I64

def least : ℤ := -2 ^ 63

def greatest : ℤ := 2 ^ 63 - 1

/-- The nearest integer in the range. -/
def clamp (n : ℤ) : ℤ := max least (min greatest n)

def saturatingAdd (a b : ℤ) : ℤ := clamp (a + b)

def saturatingSub (a b : ℤ) : ℤ := clamp (a - b)

/-- The integer in the range that is equal modulo `2 ^ 64`. -/
def wrap (n : ℤ) : ℤ := n.bmod (2 ^ 64)

def wrappingSub (a b : ℤ) : ℤ := wrap (a - b)

end I64

namespace U64

def greatest : ℕ := 2 ^ 64 - 1

def saturatingAdd (a b : ℕ) : ℕ := min greatest (a + b)

def saturatingMul (a b : ℕ) : ℕ := min greatest (a * b)

end U64

namespace U32

/-- The nearest natural number that 32 bits can hold. -/
def saturate (n : ℕ) : ℕ := min (2 ^ 32 - 1) n

end U32
