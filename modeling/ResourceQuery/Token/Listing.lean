import ResourceQuery.Token.Lexer

/-!
# Token listings

A listing shows each token of a query on a line: its position, its kind and its text.
-/

namespace ResourceQuery

/-- A text padded with blanks on its left to a width; a longer text is left as it is. -/
def padLeft (width : Nat) (text : List Char) : List Char :=
  List.replicate (width - text.length) ' ' ++ text

/-- A text padded with blanks on its right to a width; a longer text is left as it is. -/
def padRight (width : Nat) (text : List Char) : List Char :=
  text ++ List.replicate (width - text.length) ' '

/-- The line of a token, with the line break that ends it. -/
def Token.line (token : Token) : List Char :=
  padLeft 4 (Decimal.digitChars token.position) ++ [' ', ' ']
    ++ padRight 14 token.kind.name.toList ++ ' ' :: (token.text.toList ++ ['\n'])

/-- The lines of the tokens of a query. -/
def tokenListing (query : String) : String :=
  String.ofList ((tokenize query).flatMap Token.line)

end ResourceQuery
