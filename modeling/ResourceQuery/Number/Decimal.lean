/-!
# Decimal numbers

A decimal is a natural number shifted by a power of ten. Numerals are read as decimals, and
floats are written as decimals.
-/

namespace ResourceQuery

/-- The number `digits * 10 ^ exponent`. -/
structure Decimal where
  digits : Nat
  exponent : Int
deriving DecidableEq

namespace Decimal

/-- The decimal digits of a natural number, the highest first. -/
def digitChars (n : Nat) : List Char :=
  Nat.toDigits 10 n

/-- The natural number that decimal digits denote; no digits denote zero. -/
def ofDigitChars (cs : List Char) : Nat :=
  Nat.ofDigitChars 10 cs 0

@[simp]
theorem ofDigitChars_digitChars (n : Nat) : ofDigitChars (digitChars n) = n :=
  Nat.ofDigitChars_toDigits (by decide) (by decide)

end Decimal

end ResourceQuery
