import ResourceQuery.SyntaxError
import ResourceQuery.Token.Basic

/-!
# Events

What happens while a query is read and checked, told in order. A logged result carries the
events that led to it, so that results can be computed and reasoned about without looking at the
log.
-/

namespace ResourceQuery

/-- Something that happened while a query was read. -/
inductive Event
  /-- A token was cut off. -/
  | token (token : Token)
  /-- The keyword at a position was taken as the start of an operation. -/
  | dispatch (op : Operation) (position : Nat)
  /-- A whole query was read. -/
  | parsed (op : Operation) (depth : Nat)
  | rejected (error : SyntaxError)
  /-- A query passed its check. -/
  | valid (op : Operation)
deriving DecidableEq

/-- How closely one must follow a run to be told of an event. -/
inductive Event.Level
  | trace
  | debug
  | info
deriving DecidableEq

namespace Event

def level : Event → Level
  | token _ => .trace
  | dispatch _ _ => .debug
  | parsed _ _ => .debug
  | rejected _ => .debug
  | valid _ => .info

/-- The sentence that tells of an event. -/
def message : Event → String
  | token _ => "token"
  | dispatch _ _ => "dispatch"
  | parsed _ _ => "parsed query"
  | rejected error => "query rejected: " ++ error.message
  | valid _ => "query is valid"

end Event

/-- A result with the events that led to it. -/
structure Logged (α : Type) where
  value : α
  log : List Event

namespace Logged

/-- A result after some earlier events. -/
def after {α : Type} (events : List Event) (result : Logged α) : Logged α :=
  { result with log := events ++ result.log }

instance : Monad Logged where
  pure value := ⟨value, []⟩
  bind result next := (next result.value).after result.log

@[simp]
theorem value_pure {α : Type} (value : α) : (pure value : Logged α).value = value := rfl

@[simp]
theorem log_pure {α : Type} (value : α) : (pure value : Logged α).log = [] := rfl

@[simp]
theorem value_after {α : Type} (events : List Event) (result : Logged α) :
    (result.after events).value = result.value := rfl

@[simp]
theorem log_after {α : Type} (events : List Event) (result : Logged α) :
    (result.after events).log = events ++ result.log := rfl

@[simp]
theorem value_bind {α β : Type} (result : Logged α) (next : α → Logged β) :
    (result >>= next).value = (next result.value).value := rfl

@[simp]
theorem log_bind {α β : Type} (result : Logged α) (next : α → Logged β) :
    (result >>= next).log = result.log ++ (next result.value).log := rfl

/-- Tells of some events. -/
def tell (events : List Event) : Logged Unit :=
  ⟨(), events⟩

end Logged

end ResourceQuery
