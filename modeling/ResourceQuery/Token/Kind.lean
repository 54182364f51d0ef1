import ResourceQuery.Number.Numeral
import ResourceQuery.Operation

/-!
# Kinds of tokens

A token is a punctuation mark, a number, a keyword or any other text. Its text alone decides
which.
-/

namespace ResourceQuery

/-- A punctuation mark of one character. -/
inductive Mark
  | openParen
  | closeParen
  | openBracket
  | closeBracket
  | comma
  | plus
  | minus
deriving DecidableEq

namespace Mark

/-- The character of a mark. -/
def char : Mark → Char
  | openParen => '('
  | closeParen => ')'
  | openBracket => '['
  | closeBracket => ']'
  | comma => ','
  | plus => '+'
  | minus => '-'

def all : List Mark :=
  [openParen, closeParen, openBracket, closeBracket, comma, plus, minus]

/-- The mark that a character is. -/
def ofChar? (c : Char) : Option Mark :=
  all.find? fun mark => mark.char = c

/-- Whether a character is a mark. -/
def isMark (c : Char) : Bool :=
  (ofChar? c).isSome

@[simp]
theorem ofChar?_char (mark : Mark) : ofChar? mark.char = some mark := by
  cases mark <;> decide

theorem char_of_ofChar? {c : Char} {mark : Mark} (h : ofChar? c = some mark) : mark.char = c := by
  simpa using List.find?_some h

/-- The name of a mark in a token listing. -/
def name : Mark → String
  | openParen => "OpenParen"
  | closeParen => "CloseParen"
  | openBracket => "OpenBracket"
  | closeBracket => "CloseBracket"
  | comma => "Comma"
  | plus => "Plus"
  | minus => "Minus"

end Mark

/-- The kind of a token. -/
inductive Kind
  | integer
  | float
  | text
  | mark (mark : Mark)
  | keyword (op : Operation)
deriving DecidableEq

namespace Kind

/-- The greatest integer that a token of the integer kind denotes. -/
def integerMax : Nat := 9223372036854775807

/-- The kind of a numeral: an integer has neither point nor exponent and is not too large. -/
def ofNumeral (numeral : Numeral) : Kind :=
  match numeral.natural? with
  | some n => if n ≤ integerMax then integer else float
  | none => float

/-- The kind of a text that is no mark. -/
def ofWord (cs : List Char) : Kind :=
  match Numeral.ofChars? cs with
  | some numeral => ofNumeral numeral
  | none =>
    match Operation.ofWord? (String.ofList cs) with
    | some op => keyword op
    | none => text

/-- The kind of a token with a given text. -/
def ofChars : List Char → Kind
  | [c] =>
    match Mark.ofChar? c with
    | some m => mark m
    | none => ofWord [c]
  | cs => ofWord cs

/-- The operation that a token of the kind begins. -/
def operation? : Kind → Option Operation
  | keyword op => some op
  | _ => none

def isKeyword (kind : Kind) : Bool :=
  kind.operation?.isSome

/-- The keyword kind that a text names. -/
def ofKeyword? (text : String) : Option Kind :=
  (Operation.ofWord? text).map keyword

/-- The kind of mark that a character is. -/
def ofMark? (c : Char) : Option Kind :=
  (Mark.ofChar? c).map mark

/-- What messages call a token of the kind. -/
def describe : Kind → String
  | integer => "integer"
  | float => "float"
  | text => "string"
  | mark m => "'" ++ m.char.toString ++ "'"
  | keyword _ => "keyword"

/-- The name of a keyword's kind in a token listing. -/
def keywordName : Operation → String
  | .comparison .eq => "Eq"
  | .comparison .ne => "Ne"
  | .comparison .lt => "Lt"
  | .comparison .gt => "Gt"
  | .comparison .lte => "Lte"
  | .comparison .gte => "Gte"
  | .comparison .like => "Like"
  | .combination .and => "And"
  | .combination .or => "Or"
  | .sort => "Sort"
  | .limit => "Limit"
  | .membership .inside => "In"
  | .membership .outside => "Out"

/-- The name of a kind in a token listing. -/
def name : Kind → String
  | integer => "Integer"
  | float => "Float"
  | text => "StringLiteral"
  | mark m => m.name
  | keyword op => keywordName op

/-- The kinds in the order in which they are listed. -/
def all : List Kind :=
  [integer, float, text] ++ Mark.all.map mark ++ Operation.all.map keyword

/-- The kind of a given name. -/
def ofName? (text : String) : Option Kind :=
  all.find? fun kind => kind.name = text

theorem ofName?_name (kind : Kind) : ofName? kind.name = some kind := by
  rcases kind with _ | _ | _ | m | op
  · decide
  · decide
  · decide
  · cases m <;> decide
  · rcases op with (_ | _) | (_ | _) | _ | _ | (_ | _) <;> decide

end Kind

end ResourceQuery
