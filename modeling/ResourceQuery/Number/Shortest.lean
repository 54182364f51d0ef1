import ResourceQuery.Number.Rounding

/-!
# Shortest decimals

A finite float is written with the fewest digits that read back as the same number. The decimals
with a given last place form a grid; from coarse to fine, the first grid on which a neighbour of
the number reads back gives the digits, the nearer neighbour if both do.
-/

namespace ResourceQuery.Binary64

/-- Which of two equally near neighbours is written. -/
inductive Tie
  | even
  | up
deriving DecidableEq

/-- The digits of the exact decimal value of a finite number, with `unitPlaces` places. -/
def exactDigits (x : Binary64) : Nat :=
  x.units * Nat.pow 5 unitPlaces

/-- The decimal `digits * 10 ^ (place - unitPlaces)`, a point of the grid of a place. -/
def gridPoint (digits place : Nat) : Decimal :=
  ⟨digits, (place : Int) - unitPlaces⟩

/-- Whether a decimal reads back as the magnitude of a number. -/
def readsBack (x : Binary64) (d : Decimal) : Bool :=
  (ofDecimal d).magnitude = x.magnitude

/-- The neighbour that is written on the grid of a place, if one reads back. -/
def onGrid? (tie : Tie) (x : Binary64) (place : Nat) : Option Decimal :=
  let step := Nat.pow 10 place
  let below := exactDigits x / step
  let rest := exactDigits x % step
  let lower := gridPoint below place
  let upper := gridPoint (below + 1) place
  let lowerNearer :=
    2 * rest < step || (2 * rest = step && tie = .even && below % 2 = 0)
  (if lowerNearer then [lower, upper] else [upper, lower]).find? (readsBack x)

/-- The first decimal found on the grids of a place and below; on the last grid lies the number. -/
def coarsest (tie : Tie) (x : Binary64) : Nat → Decimal
  | 0 => gridPoint (exactDigits x) 0
  | place + 1 => (onGrid? tie x (place + 1)).getD (coarsest tie x place)

/-- The shortest decimal that reads back as the magnitude of a finite number. -/
def shortest (tie : Tie) (x : Binary64) : Decimal :=
  coarsest tie x (Decimal.digitChars (exactDigits x)).length

end ResourceQuery.Binary64
