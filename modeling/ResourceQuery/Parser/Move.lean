import ResourceQuery.Event
import ResourceQuery.Parser.Place

/-!
# Moves from place to place

A token that fits a place moves reading on: to another place, into the operand of a combination,
or out of a query that it completes. At each place the kind of the token alone decides.
-/

namespace ResourceQuery

/-- What a token does to reading. -/
inductive Move
  | goTo (place : Place)
  /-- A keyword was read. -/
  | dispatch (op : Operation)
  /-- An operand begins, after the given ones. -/
  | descend (op : Combinator) (before : List Query)
  /-- A query is complete. -/
  | finish (query : Query)

namespace Place

/-- The move that one kind of token makes; no other fits. -/
def expect (place : Place) (kind : Kind) (token : Token) (move : Move) :
    Except SyntaxError Move :=
  if token.is kind then .ok move else .error (place.refuse token)

/-- The number in a token that is counted, or the complaint that there is none. -/
def readCount (token : Token) : Except SyntaxError UInt64 :=
  match token.count? with
  | some count => .ok count
  | none => .error ⟨.expectedValue, "invalid count " ++ token.quoted, token.position⟩

/-- The value in a token, or the complaint that its text is no number. -/
def readLiteral (token : Token) : Except SyntaxError Literal :=
  match token.literal? with
  | some literal => .ok literal
  | none => .error ⟨.expectedValue, "invalid number " ++ token.quoted, token.position⟩

/-- The move where a count must stand. -/
def moveCount (place : Place) (token : Token) (next : UInt64 → Place) :
    Except SyntaxError Move :=
  if token.is .integer then (readCount token).map fun count => .goTo (next count)
  else .error (place.refuse token)

/-- The move where a value must stand: a literal fills the slot, a sign is remembered. -/
def moveValue (place : Place) (token : Token) (slot : Slot) : Except SyntaxError Move :=
  match token.kind with
  | .text | .integer | .float =>
    (readLiteral token).map fun literal => .goTo (slot.fill literal)
  | .mark .plus => .ok (.goTo (.number slot false))
  | .mark .minus => .ok (.goTo (.number slot true))
  | _ => .error (place.refuse token)

/-- The move after a sign: only a number fits, and a minus negates it. -/
def moveNumber (place : Place) (token : Token) (slot : Slot) (negative : Bool) :
    Except SyntaxError Move :=
  match token.kind with
  | .integer | .float =>
    (readLiteral token).map fun literal =>
      .goTo (slot.fill (if negative then literal.negated else literal))
  | _ => .error (place.refuse token)

/-- The move into the arguments of an operation. -/
def enter : Operation → Move
  | .comparison op => .goTo (.property (.comparison op))
  | .combination op => .descend op []
  | .sort => .goTo (.field [])
  | .limit => .goTo .firstCount
  | .membership op => .goTo (.property (.membership op))

/-- The place after the comma that follows the property of a test. -/
def afterComma (name : String) : Test → Place
  | .comparison op => .value (.comparison op name)
  | .membership op => .bracket op name

/-- The move that a token makes at a place, or the error if it does not fit. -/
def move (place : Place) (token : Token) : Except SyntaxError Move :=
  match place with
  | query =>
    match token.kind with
    | .keyword op => .ok (.dispatch op)
    | _ => .error (place.refuse token)
  | opening op => place.expect (.mark .openParen) token (enter op)
  | property test => place.expect .text token (.goTo (.afterProperty test token.text))
  | afterProperty test name =>
    place.expect (.mark .comma) token (.goTo (afterComma name test))
  | bracket op name => place.expect (.mark .openBracket) token (.goTo (.firstValue op name))
  | firstValue op name =>
    match token.kind with
    | .mark .closeBracket => .ok (.goTo (.closing (.membership op name [])))
    | _ => place.moveValue token (.member op name [])
  | value slot => place.moveValue token slot
  | number slot negative => place.moveNumber token slot negative
  | afterValue op name values =>
    match token.kind with
    | .mark .comma => .ok (.goTo (.value (.member op name values)))
    | .mark .closeBracket => .ok (.goTo (.closing (.membership op name values)))
    | _ => .error (place.refuse token)
  | closing whole => place.expect (.mark .closeParen) token (.finish whole)
  | field before =>
    match token.kind with
    | .mark .minus => .ok (.goTo (.fieldProperty before .desc))
    | .mark .plus => .ok (.goTo (.fieldProperty before .asc))
    | _ => place.expect .text token (.goTo (.afterField (before ++ [⟨token.text, .asc⟩])))
  | fieldProperty before direction =>
    place.expect .text token (.goTo (.afterField (before ++ [⟨token.text, direction⟩])))
  | afterField fields =>
    match token.kind with
    | .mark .closeParen => .ok (.finish (.sort fields))
    | .mark .comma => .ok (.goTo (.field fields))
    | _ => .error (place.refuse token)
  | firstCount => place.moveCount token .afterFirstCount
  | afterFirstCount count =>
    match token.kind with
    | .mark .closeParen => .ok (.finish (.limit count 0))
    | .mark .comma => .ok (.goTo (.secondCount count))
    | _ => .error (place.refuse token)
  | secondCount count => place.moveCount token (.afterSecondCount count)
  | afterSecondCount count skip =>
    place.expect (.mark .closeParen) token (.finish (.limit count skip))
  | afterOperand op operands =>
    match token.kind with
    | .mark .comma => .ok (.descend op operands)
    | .mark .closeParen => .ok (.finish (.combination op operands))
    | _ => .error (place.refuse token)

end Place

/-- The event of a move: a keyword taken as the start of an operation is told of. -/
def Move.events (token : Token) : Move → List Event
  | dispatch op => [.dispatch op token.position]
  | _ => []

end ResourceQuery
