import ResourceQuery.Command.Line
import ResourceQuery.Query.Document
import ResourceQuery.Token.Listing

/-!
# Answers

What a command line comes to: a status, a text for the output and a text for the errors. A
refused query leaves the output empty. The tokens of a query are listed whatever it is; the
other commands check it first. When asked to be verbose, a command tells of the events on the way
before the errors.
-/

namespace ResourceQuery

/-- What a command line comes to. -/
structure Answer where
  status : Nat
  output : String
  errors : String
deriving DecidableEq

namespace Request

/-- The query of a request, which may have to be read from the input. -/
def text (request : Request) (input : ByteArray) : Except Refusal String :=
  match request.query with
  | some text => .ok text
  | none =>
    match String.fromUTF8? input with
    | some text => .ok text
    | none => .error .notText

/-- What a command shows of a text that it accepts, with the events on the way. -/
def present (request : Request) (text : String) : Logged (Except Refusal String) := do
  match request.command with
  | .check => do
    let query ← request.options.limits.checkLogged text
    pure (query.map fun _ => "Syntax is valid\n")
  | .ast => do
    let query ← request.options.limits.checkLogged text
    let spacing := if request.options.pretty then .indented else .compact
    pure (query.map fun query => query.toJson spacing ++ "\n")
  | .tokens => do
    let _ ← tokenizeLogged text
    pure (.ok (tokenListing text))

end Request

/-- The line that tells of an event; the cutting of tokens is not told of. -/
def Event.line (event : Event) : String :=
  match event.level with
  | .trace => ""
  | .debug => "DEBUG " ++ event.message ++ "\n"
  | .info => "INFO " ++ event.message ++ "\n"

namespace Answer

/-- The answer to a request that was met or refused. -/
def ofOutcome : Except Refusal String → Answer
  | .ok output => ⟨0, output, ""⟩
  | .error refusal => ⟨1, "", refusal.report ++ "\n"⟩

/-- The answer to a request, given the input, with the events on the way. -/
def ofRequest (request : Request) (input : ByteArray) : Logged Answer :=
  match request.text input with
  | .ok text => do
    let outcome ← request.present text
    pure (ofOutcome outcome)
  | .error refusal => pure (ofOutcome (.error refusal))

/-- An answer as it is shown: when asked to be verbose, with the events on the way told of. -/
def shown (verbose : Bool) (answer : Logged Answer) : Answer :=
  if verbose then
    { answer.value with
      errors := String.join (answer.log.map Event.line) ++ answer.value.errors }
  else answer.value

/-- What is shown when a command line is not understood. -/
def usage : String :=
  "Usage: rql [--max-length N] [--max-depth N] [-v] check|ast|tokens [-p] [QUERY]\n"

/-- The answer to a command line that is not carried out. -/
def ofStop : Stop → Answer
  | .misuse => ⟨2, "", usage⟩
  | .version => ⟨0, "rql 0.1.0\n", ""⟩

/-- The answer to a command line, given the input. -/
def ofArguments (args : List String) (input : ByteArray) : Answer :=
  match Request.ofArguments args with
  | .ok request => shown request.options.verbose (ofRequest request input)
  | .error stop => ofStop stop

end Answer

end ResourceQuery
