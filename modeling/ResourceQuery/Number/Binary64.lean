/-!
# Binary floating-point numbers

The numbers of the IEEE 754 format `binary64`: a sign and sixty-three bits of magnitude. Read as
a natural number, the magnitude grows with the size of the number it stands for; it ends with
infinity and, above that, what is not a number.
-/

namespace ResourceQuery

/-- A floating-point number of sixty-four bits. -/
structure Binary64 where
  negative : Bool
  /-- The bits below the sign: eleven of exponent, then fifty-two of fraction. -/
  magnitude : Nat
  magnitude_lt : magnitude < 0x8000000000000000
deriving DecidableEq

namespace Binary64

/-- The weight of the sign among sixty-four bits. -/
def signBit : Nat := 0x8000000000000000

/-- The number of magnitudes that share an exponent: fifty-two bits of fraction. -/
def fractions : Nat := 0x10000000000000

/-- The magnitude of infinity: all bits of the exponent, no fraction. -/
def infinity : Nat := 0x7FF0000000000000

theorem infinity_lt : infinity < signBit := by decide

/-- The least positive number is one half multiplied by itself so many times. -/
def unitPlaces : Nat := 1074

/-- Whether a number is neither infinite nor not a number. -/
def isFinite (x : Binary64) : Bool :=
  x.magnitude < infinity

def isNaN (x : Binary64) : Bool :=
  infinity < x.magnitude

def isZero (x : Binary64) : Bool :=
  x.magnitude = 0

/-- The number of the opposite sign. -/
def neg (x : Binary64) : Binary64 :=
  { x with negative := !x.negative }

instance : Neg Binary64 := ⟨neg⟩

/-- Equality of numbers: both zeros are equal, and what is not a number equals nothing. -/
def same (x y : Binary64) : Bool :=
  !x.isNaN && !y.isNaN &&
    (x.magnitude = y.magnitude && (x.negative = y.negative || x.isZero))

/-- The size of a finite number in units of the least positive number. -/
def units (x : Binary64) : Nat :=
  let exponent := x.magnitude / fractions
  let fraction := x.magnitude % fractions
  if exponent = 0 then fraction else (fractions + fraction) <<< (exponent - 1)

/-- The number that sixty-four bits stand for, the sign on top. -/
def ofBits (bits : UInt64) : Binary64 :=
  ⟨decide (signBit ≤ bits.toNat), bits.toNat % signBit, Nat.mod_lt _ (by decide)⟩

/-- The sixty-four bits of a number. -/
def toBits (x : Binary64) : UInt64 :=
  UInt64.ofNat ((if x.negative then signBit else 0) + x.magnitude)

theorem neg_neg (x : Binary64) : - -x = x := by
  cases x
  simp [Neg.neg, neg]

end Binary64

end ResourceQuery
