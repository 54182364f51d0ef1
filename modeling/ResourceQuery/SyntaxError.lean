/-!
# Syntax errors

What can be wrong with a query, and how it is reported. Reading stops at the first error.
-/

namespace ResourceQuery

/-- What is wrong with a query. -/
inductive ErrorKind
  | missingOpenParen
  | missingCloseParen
  | missingComma
  | missingOpenBracket
  | missingCloseBracket
  | expectedProperty
  | expectedValue
  | unknownOperation
  | unexpectedEndOfInput
  /-- A limit without a count. -/
  | missingLimit
  /-- More tokens after a whole query. -/
  | trailingInput
deriving DecidableEq

/-- A fault of a query and the place of it. -/
structure SyntaxError where
  kind : ErrorKind
  message : String
  /-- The offset of the token at fault, or the length of the query, in bytes. -/
  position : Nat
deriving DecidableEq

/-- The report of an error. -/
def SyntaxError.report (error : SyntaxError) : String :=
  error.message ++ " at position " ++ toString error.position

end ResourceQuery
