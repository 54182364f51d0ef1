import ResourceQuery.Query.Basic
import ResourceQuery.SyntaxError
import ResourceQuery.Token.Basic

/-!
# Places in a query

Between two tokens, reading stands at a place: it knows which tokens fit next, what has been
gathered so far, and what to report when no fitting token follows.
-/

namespace ResourceQuery

/-- An operation that tests a property. -/
inductive Test
  | comparison (op : Comparison)
  | membership (op : Membership)
deriving DecidableEq

/-- What the next value belongs to. -/
inductive Slot
  | comparison (op : Comparison) (property : String)
  /-- A list of values, with the values before. -/
  | member (op : Membership) (property : String) (before : List Literal)
deriving DecidableEq

/-- A place between two tokens of a query. -/
inductive Place
  /-- A query begins here. -/
  | query
  /-- The keyword has been read. -/
  | opening (op : Operation)
  /-- The property of a test comes here. -/
  | property (test : Test)
  | afterProperty (test : Test) (property : String)
  /-- The list of a membership test begins here. -/
  | bracket (op : Membership) (property : String)
  /-- The list has begun; it may end at once. -/
  | firstValue (op : Membership) (property : String)
  | value (slot : Slot)
  /-- The sign of a number has been read. -/
  | number (slot : Slot) (negative : Bool)
  | afterValue (op : Membership) (property : String) (values : List Literal)
  /-- Only the closing parenthesis is missing. -/
  | closing (query : Query)
  /-- A sort field comes here, perhaps with a sign. -/
  | field (before : List SortField)
  | fieldProperty (before : List SortField) (direction : Direction)
  | afterField (fields : List SortField)
  | firstCount
  | afterFirstCount (count : UInt64)
  | secondCount (count : UInt64)
  | afterSecondCount (count : UInt64) (skip : UInt64)
  /-- An operand of a combination has been read. -/
  | afterOperand (op : Combinator) (operands : List Query)

/-- The place after a value that fills a slot. -/
def Slot.fill (value : Literal) : Slot → Place
  | comparison op property => .closing (.comparison op property value)
  | member op property before => .afterValue op property (before ++ [value])

namespace Place

/-- The query that is complete at a place if nothing follows: a sort or a limit left open. -/
def complete? : Place → Option Query
  | afterField fields => some (.sort fields)
  | afterFirstCount count => some (.limit count 0)
  | afterSecondCount count skip => some (.limit count skip)
  | _ => none

/-! ## Reports -/

/-- The report that something else was found than what was expected. -/
def lacking (wanted : String) (found : Option Token) : String :=
  "expected " ++ wanted ++ ", found " ++ (found.map Token.quoted).getD "end of input"

/-- What is wrong when a token, or the end of the query, does not fit a place. -/
def complaint (found : Option Token) : Place → ErrorKind × String
  | query =>
    match found with
    | some token => (.unknownOperation, "unknown operation " ++ token.quoted)
    | none => (.unexpectedEndOfInput, "unexpected end of input")
  | opening _ => (.missingOpenParen, lacking (Kind.mark .openParen).describe found)
  | property _ => (.expectedProperty, lacking Kind.text.describe found)
  | afterProperty _ _ => (.missingComma, lacking (Kind.mark .comma).describe found)
  | bracket _ _ => (.missingOpenBracket, lacking (Kind.mark .openBracket).describe found)
  | firstValue _ _ => (.expectedValue, lacking "value" found)
  | value _ => (.expectedValue, lacking "value" found)
  | number _ _ => (.expectedValue, lacking "number after sign" found)
  | afterValue _ _ _ => (.missingCloseBracket, lacking "',' or ']'" found)
  | closing _ => (.missingCloseParen, lacking (Kind.mark .closeParen).describe found)
  | field _ => (.expectedProperty, lacking Kind.text.describe found)
  | fieldProperty _ _ => (.expectedProperty, lacking Kind.text.describe found)
  | afterField _ => (.missingComma, lacking "',' or ')'" found)
  | firstCount =>
    if found.all fun token => token.is (.mark .closeParen) then
      (.missingLimit, "limit requires at least one integer argument")
    else (.expectedValue, lacking Kind.integer.describe found)
  | afterFirstCount _ => (.missingComma, lacking "',' or ')'" found)
  | secondCount _ => (.expectedValue, lacking Kind.integer.describe found)
  | afterSecondCount _ _ => (.missingCloseParen, lacking (Kind.mark .closeParen).describe found)
  | afterOperand _ _ => (.missingCloseParen, lacking "',' or ')'" found)

/-- The error when a token does not fit a place. -/
def refuse (place : Place) (token : Token) : SyntaxError :=
  let (kind, message) := place.complaint (some token)
  ⟨kind, message, token.position⟩

/-- The error when a query of a length ends at a place. -/
def refuseEnd (place : Place) (length : Nat) : SyntaxError :=
  let (kind, message) := place.complaint none
  ⟨kind, message, length⟩

end Place

end ResourceQuery
