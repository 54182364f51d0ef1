import ResourceQuery.Parser

/-!
# Checking a query

A query is checked against limits before it is let through: it must not be blank, its text must
not be too long, it must parse, and its tree must not be nested too deep. The length is checked
before parsing, so that a text that is too long is never parsed.
-/

namespace ResourceQuery

/-- Why a query is refused. -/
inductive Refusal
  | malformed (error : SyntaxError)
  /-- The input is no text. -/
  | notText
  | noInput
  | tooLong (length : Nat) (limit : Nat)
  | tooDeep (depth : Nat) (limit : Nat)
deriving DecidableEq

/-- The report of a refusal. -/
def Refusal.report : Refusal → String
  | malformed error => "Parse error: " ++ error.report
  | notText => "IO error: stream did not contain valid UTF-8"
  | noInput => "No query provided. Pass it as an argument or pipe it to stdin."
  | tooLong length limit =>
    "Query is " ++ toString length ++ " bytes long, limit is " ++ toString limit
  | tooDeep depth limit =>
    "Query is nested " ++ toString depth ++ " levels deep, limit is " ++ toString limit

/-- Bounds on a query; one that is absent bounds nothing. -/
structure Limits where
  /-- The greatest length in bytes. -/
  length : Option Nat
  depth : Option Nat
deriving DecidableEq

namespace Limits

/-- Whether a size exceeds a bound, and then which. -/
def exceeded? (size : Nat) : Option Nat → Option Nat
  | some limit => if limit < size then some limit else none
  | none => none

/-- Checks the depth of a query that was parsed. -/
def checkDepth (limits : Limits) (query : Query) : Except Refusal Query :=
  match exceeded? query.depth limits.depth with
  | some limit => .error (.tooDeep query.depth limit)
  | none => .ok query

/-- The event of a check that was passed. -/
def passed : Except Refusal Query → List Event
  | .ok query => [.valid query.operation]
  | .error _ => []

/-- Checks a text with the events on the way. -/
def checkLogged (limits : Limits) (text : String) : Logged (Except Refusal Query) :=
  let length := Text.byteLength text.toList
  if Text.allBlank text.toList then pure (.error .noInput)
  else
    match exceeded? length limits.length with
    | some limit => pure (.error (.tooLong length limit))
    | none => do
      let parsed ← parseLogged text
      let outcome := (parsed.mapError Refusal.malformed).bind limits.checkDepth
      Logged.tell (passed outcome)
      pure outcome

/-- The query that a text denotes, or why it is refused. -/
def check (limits : Limits) (text : String) : Except Refusal Query :=
  (limits.checkLogged text).value

end Limits

end ResourceQuery
