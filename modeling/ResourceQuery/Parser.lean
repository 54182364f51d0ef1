import ResourceQuery.Parser.Reading
import ResourceQuery.Token.Lexer

/-!
# Parsing

A parser stands before a list of tokens and reads one query after the other, or one query that
has to be all there is.
-/

namespace ResourceQuery

/-- A parser: the tokens before it and the length of the whole input. -/
structure Parser where
  /-- The tokens that have not been taken. -/
  ahead : List Token
  length : Nat
deriving DecidableEq

namespace Parser

/-- A parser for what a lexer has left; the first token is cut off at once. -/
def ofLexer (lexer : Lexer) : Logged Parser :=
  ⟨⟨lexer.tokens, lexer.endPosition⟩, cutOff lexer.tokens⟩

/-- Reads one query; the parser after it stands where reading stopped, also after an error. -/
def readQuery (parser : Parser) : Logged (Except SyntaxError Query × Parser) := do
  let reading ← Situation.start.read parser.length parser.ahead
  pure (reading.outcome, { parser with ahead := reading.rest })

/-- The query that was read, if nothing follows it. -/
def nothingAfter (parser : Parser) (query : Query) : Except SyntaxError Query :=
  match parser.ahead with
  | [] => .ok query
  | token :: _ =>
    .error ⟨.trailingInput, "unexpected " ++ token.quoted ++ " after end of query", token.position⟩

/-- The event that tells how reading ended. -/
def verdict : Except SyntaxError Query → Event
  | .ok query => .parsed query.operation query.depth
  | .error error => .rejected error

/-- Reads one query that has to be all there is. -/
def readAll (parser : Parser) : Logged (Except SyntaxError Query) := do
  let (outcome, after) ← parser.readQuery
  let outcome := outcome.bind after.nothingAfter
  Logged.tell [verdict outcome]
  pure outcome

end Parser

/-- Parses a text with the events on the way. -/
def parseLogged (text : String) : Logged (Except SyntaxError Query) := do
  let parser ← Parser.ofLexer (Lexer.ofString text)
  parser.readAll

/-- The query that a text denotes, or what is wrong with it. -/
def parse (text : String) : Except SyntaxError Query :=
  (parseLogged text).value

/-- The tokens of a text with the events of cutting them off. -/
def tokenizeLogged (text : String) : Logged (List Token) :=
  ⟨tokenize text, (tokenize text).map Event.token⟩

end ResourceQuery
