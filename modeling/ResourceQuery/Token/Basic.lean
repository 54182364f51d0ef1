import ResourceQuery.Literal
import ResourceQuery.Token.Kind

/-!
# Tokens

A token is a piece of a query with its kind and the place where it begins.
-/

namespace ResourceQuery

/-- A piece of a query. -/
structure Token where
  kind : Kind
  text : String
  /-- The offset of the first character, in bytes. -/
  position : Nat
deriving DecidableEq

namespace Token

/-- Whether a token is of a kind. -/
def is (token : Token) (kind : Kind) : Bool :=
  token.kind = kind

/-- A token as messages show it: its text in quotes. -/
def quoted (token : Token) : String :=
  "'" ++ token.text ++ "'"

/-- The numeral that a token's text is. -/
def numeral? (token : Token) : Option Numeral :=
  Numeral.ofChars? token.text.toList

/-- The integer that a token denotes, if its text is a number in range. -/
def integer? (token : Token) : Option Int64 := do
  let n ← (← token.numeral?).natural?
  if n ≤ Kind.integerMax then some (Int64.ofNat n) else none

/-- The count that a token denotes, if its text is a number of sixty-four bits. -/
def count? (token : Token) : Option UInt64 := do
  let n ← (← token.numeral?).natural?
  if n < UInt64.size then some (UInt64.ofNat n) else none

/-- The float that a token denotes, if its text is a number. -/
def float? (token : Token) : Option Binary64 :=
  token.numeral?.map fun numeral => .ofDecimal numeral.decimal

/-- The literal that a token denotes as a value: a number for a number, its text for any other. -/
def literal? (token : Token) : Option Literal :=
  match token.kind with
  | .integer => token.integer?.map .integer
  | .float => token.float?.map .float
  | _ => some (.text token.text)

end Token

end ResourceQuery
