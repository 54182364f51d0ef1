import ResourceQuery.Json.Writer
import ResourceQuery.Query.Basic
import ResourceQuery.Token.Basic

/-!
# Queries and tokens as JSON

A query becomes a record whose member `node` names its kind. Numbers are written so that they
read back: integers in full, floats with the fewest digits, always with a fraction or an
exponent. A float that is no finite number becomes null.
-/

namespace ResourceQuery

/-- Floats are written out from `0.00001` up to below `10 ^ 16`; a tie goes to the even digit. -/
def Json.floatLayout : Binary64.Layout where
  positional := fun leading => -5 ≤ leading && leading ≤ 15
  wholeMark := ['.', '0']
  tie := .even

/-- A natural number as a document. -/
def Json.ofNat (n : Nat) : Json :=
  .number (Decimal.digitChars n)

/-- An integer as a document. -/
def Json.ofInt (n : Int) : Json :=
  .number (if n < 0 then '-' :: Decimal.digitChars n.natAbs else Decimal.digitChars n.natAbs)

/-- A literal as a document. -/
def Literal.document : Literal → Json
  | integer n => .ofInt n.toInt
  | float x => if x.isFinite then .number (Json.floatLayout.write x) else .null
  | text s => .string s

/-- A sort field as a document. -/
def SortField.document (field : SortField) : Json :=
  .object [("property", .string field.property), ("direction", .string field.direction.word)]

/-- A token as a document. -/
def Token.document (token : Token) : Json :=
  .object [("kind", .string token.kind.name), ("text", .string token.text),
    ("position", .ofNat token.position)]

namespace Query

mutual

/-- A query as a document. -/
def document : Query → Json
  | comparison op property value =>
    .object [("node", .string "comparison"), ("operator", .string op.word),
      ("property", .string property), ("value", value.document)]
  | combination op operands =>
    .object [("node", .string "boolean_combinator"), ("operator", .string op.word),
      ("operands", .array (documents operands))]
  | sort fields =>
    .object [("node", .string "sort"), ("fields", .array (fields.map SortField.document))]
  | limit count skip =>
    .object [("node", .string "limit"), ("limit", .ofNat count.toNat), ("skip", .ofNat skip.toNat)]
  | membership op property values =>
    .object [("node", .string "set_membership"), ("operator", .string op.word),
      ("property", .string property), ("values", .array (values.map Literal.document))]

/-- Queries as documents. -/
def documents : List Query → List Json
  | [] => []
  | query :: queries => query.document :: documents queries

end

/-- The JSON text of a query. -/
def toJson (spacing : Json.Spacing) (query : Query) : String :=
  query.document.write spacing

end Query

end ResourceQuery
