import ResourceQuery.Number.Binary64
import ResourceQuery.Number.Decimal

/-!
# Rounding to the nearest float

Integers and decimals are read as the nearest binary floating-point number, a value half-way
between two numbers as the one with the even magnitude. A value too large for the format is
infinite.
-/

namespace ResourceQuery.Binary64

/-- The natural number nearest to a quotient; a half goes to the even neighbour. -/
def roundHalfEven (num den : Nat) : Nat :=
  let quotient := num / den
  let rest := num % den
  if den < 2 * rest ∨ (2 * rest = den ∧ quotient % 2 = 1) then quotient + 1 else quotient

/--
The magnitude of the number nearest to a quotient. In units of the least positive number the
quotient is rounded to a multiple of the power of two that leaves it fifty-three bits; a carry
into a fifty-fourth bit moves the magnitude to the next exponent by itself.
-/
def nearest (num den : Nat) : Nat :=
  let scaled := num <<< unitPlaces
  let shift := (scaled / den).log2 - 52
  min (shift * fractions + roundHalfEven scaled (den <<< shift)) infinity

theorem nearest_lt (num den : Nat) : nearest num den < signBit :=
  Nat.lt_of_le_of_lt (Nat.min_le_right _ _) infinity_lt

/-- The number of a sign nearest to a quotient. -/
def ofQuotient (negative : Bool) (num den : Nat) : Binary64 :=
  ⟨negative, nearest num den, nearest_lt num den⟩

/-- The number nearest to an integer. -/
def ofInt (n : Int) : Binary64 :=
  ofQuotient (n < 0) n.natAbs 1

/--
The non-negative number nearest to a decimal. Decimals of `10 ^ 309` and more, and those below
half of the least positive number, are told by their exponents, so that no huge power of ten is
computed.
-/
def ofDecimal (d : Decimal) : Binary64 :=
  if d.digits = 0 then ofQuotient false 0 1
  else match d.exponent with
    | .ofNat e =>
      if 309 ≤ e then ⟨false, infinity, infinity_lt⟩
      else ofQuotient false (d.digits * Nat.pow 10 e) 1
    | .negSucc e =>
      if d.digits.log2 + unitPlaces + 2 ≤ 3 * (e + 1) then ofQuotient false 0 1
      else ofQuotient false d.digits (Nat.pow 10 (e + 1))

end ResourceQuery.Binary64
