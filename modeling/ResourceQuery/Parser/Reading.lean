import ResourceQuery.Parser.Move

/-!
# Reading a query

Reading a query takes tokens one by one from a list. It stands at a place within a stack of open
combinations, and stops when a query is complete with no combination open, or at the first token
that does not fit. Each token that is taken makes the next one be cut off.
-/

namespace ResourceQuery

/-- A combination that is open, with the operands before the one that is being read. -/
structure Frame where
  op : Combinator
  before : List Query

/-- The place after the operand of an open combination. -/
def Frame.resume (frame : Frame) (operand : Query) : Place :=
  .afterOperand frame.op (frame.before ++ [operand])

/-- A place within open combinations, the innermost first. -/
structure Situation where
  frames : List Frame
  place : Place

/-- Where reading is after a move. -/
inductive Situation.Next
  | done (query : Query)
  | on (situation : Situation)

namespace Situation

/-- The start of a query. -/
def start : Situation :=
  ⟨[], .query⟩

/-- Where a completed query leaves reading: in the combination that it is an operand of, if any. -/
def complete (query : Query) : List Frame → Next
  | [] => .done query
  | frame :: frames => .on ⟨frames, frame.resume query⟩

/-- Where a move leads. -/
def after (frames : List Frame) : Move → Next
  | .goTo place => .on ⟨frames, place⟩
  | .dispatch op => .on ⟨frames, .opening op⟩
  | .descend op before => .on ⟨⟨op, before⟩ :: frames, .query⟩
  | .finish query => complete query frames

/-- The outcome if a query of a length ends here. -/
def atEnd (length : Nat) (situation : Situation) : Except SyntaxError Query :=
  match situation.place.complete? with
  | none => .error (situation.place.refuseEnd length)
  | some query =>
    match complete query situation.frames with
    | .done query => .ok query
    | .on outer => .error (outer.place.refuseEnd length)

end Situation

/-- What reading a query came to. -/
structure Reading where
  outcome : Except SyntaxError Query
  /-- The tokens that were not taken; after an error, the first of them is at fault. -/
  rest : List Token

/-- The event of the first token of a list, which is cut off when it becomes the next. -/
def cutOff : List Token → List Event
  | [] => []
  | token :: _ => [.token token]

/-- Reads on from a situation in a query of a length. -/
def Situation.read (length : Nat) : Situation → List Token → Logged Reading
  | situation, [] => ⟨⟨situation.atEnd length, []⟩, []⟩
  | situation, token :: rest =>
    match situation.place.move token with
    | .error error => ⟨⟨.error error, token :: rest⟩, []⟩
    | .ok move =>
      let events := move.events token ++ cutOff rest
      match Situation.after situation.frames move with
      | .done query => ⟨⟨.ok query, rest⟩, events⟩
      | .on next => (next.read length rest).after events

end ResourceQuery
