import ResourceQuery.Number.Shortest

/-!
# Written floats

How a finite float is laid out once its digits are known: which numbers are written out in full,
which with an exponent, and what marks a whole number.
-/

namespace ResourceQuery.Binary64

/-- The choices that a written form makes. -/
structure Layout where
  /-- Whether the power of ten of the first digit is written out. -/
  positional : Int → Bool
  /-- What follows the digits of a whole number that is written out. -/
  wholeMark : List Char
  tie : Tie

/-- The digits of a number with the point where the last of them counts `10 ^ exponent`. -/
def writePositional (wholeMark digits : List Char) : Int → List Char
  | .ofNat e => digits ++ List.replicate e '0' ++ wholeMark
  | .negSucc e =>
    let places := e + 1
    if places < digits.length then
      digits.take (digits.length - places) ++ '.' :: digits.drop (digits.length - places)
    else '0' :: '.' :: (List.replicate (places - digits.length) '0' ++ digits)

/-- The digits of a number with the point after the first and an exponent that bears a sign. -/
def writeScientific (digits : List Char) (exponent : Int) : List Char :=
  let fraction := if digits.length ≤ 1 then [] else '.' :: digits.drop 1
  let sign := if exponent < 0 then '-' else '+'
  digits.take 1 ++ fraction ++ 'e' :: sign :: Decimal.digitChars exponent.natAbs

/-- The text of a decimal. -/
def Layout.writeDecimal (layout : Layout) (d : Decimal) : List Char :=
  let digits := Decimal.digitChars d.digits
  let leading := d.exponent + (digits.length - 1 : Nat)
  if layout.positional leading then writePositional layout.wholeMark digits d.exponent
  else writeScientific digits leading

/-- The text of a finite number. -/
def Layout.write (layout : Layout) (x : Binary64) : List Char :=
  let size :=
    if x.isZero then '0' :: layout.wholeMark else layout.writeDecimal (shortest layout.tie x)
  if x.negative then '-' :: size else size

end ResourceQuery.Binary64
