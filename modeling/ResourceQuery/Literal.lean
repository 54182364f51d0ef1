import ResourceQuery.Number.Layout

/-!
# Literal values

The values that a query compares properties with: integers, floats and texts. There are no truth
values and no null; `true` is a text.
-/

namespace ResourceQuery

/-- A value in a query. -/
inductive Literal
  | integer (value : Int64)
  | float (value : Binary64)
  | text (value : String)
deriving DecidableEq

namespace Literal

/-- The number of the opposite sign; a text stays as it is. -/
def negated : Literal → Literal
  | integer n => integer (-n)
  | float x => float (-x)
  | text s => text s

def integer? : Literal → Option Int64
  | integer n => some n
  | _ => none

/-- The value as a float; an integer is rounded to the nearest. -/
def float? : Literal → Option Binary64
  | integer n => some (.ofInt n.toInt)
  | float x => some x
  | text _ => none

def text? : Literal → Option String
  | text s => some s
  | _ => none

/-- Equality of values: floats compare as numbers, and an integer never equals a float. -/
def same : Literal → Literal → Bool
  | integer m, integer n => m = n
  | float x, float y => x.same y
  | text s, text t => s = t
  | _, _ => false

instance : BEq Literal := ⟨same⟩

/-- Floats are shown in full, whole numbers without a point; of two equally near, the larger. -/
def floatLayout : Binary64.Layout where
  positional := fun _ => true
  wholeMark := []
  tie := .up

/-- A float as it is shown. -/
def displayFloat (x : Binary64) : String :=
  if x.isNaN then "NaN"
  else if x.isFinite then String.ofList (floatLayout.write x)
  else if x.negative then "-inf" else "inf"

/-- A value as it is shown. -/
def display : Literal → String
  | integer n => toString n.toInt
  | float x => displayFloat x
  | text s => s

end Literal

end ResourceQuery
