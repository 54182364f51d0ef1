import Mathlib.Data.List.ReduceOption
import ResourceQuery.Proofs.Reading.Positions
import ResourceQuery.Proofs.Token.Segmentation

/-!
# Stopping and going on

A lexer that is asked for tokens one by one stands, after any number of them, between two
characters of its text. From there it goes on as a lexer would that is given the rest as a text of
its own, and so does a parser that takes it over; only the positions count the whole text. A lexer
that has come to its end stays there.
-/

namespace ResourceQuery

open Text (byteLength byteLength_append)

/-- The answers to asking so many times, one after the other, and the state after the last. -/
def calls {σ α : Type} (ask : σ → α × σ) : Nat → σ → List α × σ
  | 0, state => ([], state)
  | n + 1, state =>
    let (answer, next) := ask state
    let (answers, last) := calls ask n next
    (answer :: answers, last)

theorem calls_succ {σ α : Type} (ask : σ → α × σ) (n : Nat) (state : σ) :
    calls ask (n + 1) state =
      ((ask state).1 :: (calls ask n (ask state).2).1, (calls ask n (ask state).2).2) := rfl

namespace Lexer

/-! ## One token -/

theorem advance_of_next?_none {lexer : Lexer} (h : lexer.next? = none) :
    lexer.advance = (none, lexer.atEnd) := by
  rw [advance, h]

theorem advance_of_next?_some {lexer after : Lexer} {token : Token}
    (h : lexer.next? = some (token, after)) : lexer.advance = (some token, after) := by
  rw [advance, h]

/-- The token that is given comes first among those that are still to come. -/
theorem tokens_advance (lexer : Lexer) :
    lexer.advance.1.toList ++ lexer.advance.2.tokens = lexer.tokens := by
  cases hnext : lexer.next? with
  | none =>
    rw [advance_of_next?_none hnext, tokens_of_next?_none hnext]
    exact tokens_nil lexer.endPosition
  | some next =>
    rw [advance_of_next?_some hnext, tokens_of_next?_some hnext]
    rfl

/-- The lexer has gone on over some characters, and counts their bytes. -/
theorem rest_advance (lexer : Lexer) :
    ∃ passed, lexer.rest = passed ++ lexer.advance.2.rest ∧
      lexer.advance.2.position = lexer.position + byteLength passed := by
  cases hnext : lexer.next? with
  | none =>
    rw [advance_of_next?_none hnext]
    exact ⟨lexer.rest, (List.append_nil _).symm, rfl⟩
  | some next =>
    obtain ⟨token, after⟩ := next
    obtain ⟨c, cs, htrim, -, -, hposition, hrest, hafter⟩ := next?_eq_some hnext
    rw [advance_of_next?_some hnext]
    refine ⟨lexer.rest.takeWhile Text.isBlank ++ piece c cs, ?_, ?_⟩
    · rw [hrest, List.append_assoc, piece_append_afterPiece, ← htrim]
      exact List.takeWhile_append_dropWhile.symm
    · rw [hafter, hposition, byteLength_append, Nat.add_assoc]

/-! ## Any number of tokens -/

/-- What has been given and what is still to come make up the tokens. -/
theorem tokens_calls (n : Nat) (lexer : Lexer) :
    (calls advance n lexer).1.reduceOption ++ (calls advance n lexer).2.tokens = lexer.tokens := by
  induction n generalizing lexer with
  | zero => rfl
  | succ n ih =>
    rw [calls_succ, ← tokens_advance lexer, ← ih lexer.advance.2]
    cases lexer.advance.1 with
    | none => rw [List.reduceOption_cons_of_none]; rfl
    | some token => rw [List.reduceOption_cons_of_some]; rfl

theorem rest_calls (n : Nat) (lexer : Lexer) :
    ∃ passed, lexer.rest = passed ++ (calls advance n lexer).2.rest ∧
      (calls advance n lexer).2.position = lexer.position + byteLength passed := by
  induction n generalizing lexer with
  | zero => exact ⟨[], rfl, rfl⟩
  | succ n ih =>
    obtain ⟨first, hfirst, hposition⟩ := rest_advance lexer
    obtain ⟨passed, hpassed, hposition'⟩ := ih lexer.advance.2
    refine ⟨first ++ passed, ?_, ?_⟩
    · rw [calls_succ, hfirst, hpassed, List.append_assoc]
    · rw [calls_succ, hposition', hposition, byteLength_append, Nat.add_assoc]

/-- Where no token is left, no token is ever given. -/
theorem calls_eq_none {lexer : Lexer} (h : lexer.tokens = []) (n : Nat) :
    ∀ answer ∈ (calls advance n lexer).1, answer = none := by
  have htokens := tokens_calls n lexer
  rw [h, List.append_eq_nil_iff, List.reduceOption_eq_nil_iff] at htokens
  obtain ⟨⟨m, hnone⟩, -⟩ := htokens
  rw [hnone]
  exact fun answer hanswer => List.eq_of_mem_replicate hanswer

end Lexer

/-! ## Going on -/

/-- A lexer that has been stopped in a text, and what it has given before. -/
structure Stopped (text : String) (answers : List (Option Token)) (lexer : Lexer) : Prop where
  /-- No token is lost or given twice. -/
  tokens_given : answers.reduceOption ++ lexer.tokens = tokenize text
  /-- The lexer stands between two characters of the text. -/
  boundary : ∃ passed : String, text = passed ++ String.ofList lexer.rest ∧
    lexer.position = passed.utf8ByteSize
  /-- What is left is cut as a text of its own. -/
  tokens_left : lexer.tokens =
    (tokenize (String.ofList lexer.rest)).map (Token.moved (· + lexer.position))
  /-- What is left is parsed as a text of its own. -/
  parse_left : (Parser.ofLexer lexer).value.readAll.value =
    (parse (String.ofList lexer.rest)).mapError (SyntaxError.moved (· + lexer.position))
  /-- Once no token was given, none is given any more. -/
  stays_at_end : lexer.advance.1 = none →
    ∀ n, ∀ answer ∈ (calls Lexer.advance n lexer.advance.2).1, answer = none

/--
However often a lexer has been asked for a token, it goes on as a lexer of the rest. Asking it by
hand and going through it item by item are the same, `Lexer.advance`.
-/
theorem stopped_after_calls (text : String) (n : Nat) :
    Stopped text (calls Lexer.advance n (.ofString text)).1
      (calls Lexer.advance n (.ofString text)).2 := by
  obtain ⟨passed, hpassed, hposition⟩ := Lexer.rest_calls n (.ofString text)
  have hgiven := Lexer.tokens_calls n (.ofString text)
  generalize (calls Lexer.advance n (.ofString text)).1 = answers at *
  generalize (calls Lexer.advance n (.ofString text)).2 = lexer at *
  refine ⟨hgiven, ⟨String.ofList passed, ?_, ?_⟩, ?_, ?_, ?_⟩
  · rw [← String.ofList_append, ← hpassed]
    exact String.ofList_toList.symm
  · rw [hposition, byteLength_eq_utf8ByteSize]
    exact Nat.zero_add _
  · have htokens := tokens_eq_tokenize (String.ofList lexer.rest) lexer.position
    rwa [String.toList_ofList] at htokens
  · have hmoved := Parser.ofText_moved lexer.rest 0 lexer.position
    rw [Nat.zero_add] at hmoved
    have hparser : (Parser.ofLexer lexer).value = Parser.ofText lexer.rest lexer.position := rfl
    rw [hparser, hmoved, Parser.value_readAll_moved, Parser.parse_eq_readAll,
      String.toList_ofList]
  · intro hnone
    refine Lexer.calls_eq_none ?_
    have htokens := Lexer.tokens_advance lexer
    cases hnext : lexer.next? with
    | none =>
      rw [Lexer.advance_of_next?_none hnext]
      exact Lexer.tokens_nil lexer.endPosition
    | some next =>
      rw [Lexer.advance_of_next?_some hnext] at hnone
      cases hnone

/-- The third token is a run, and the lexer stops behind the blank that follows it. -/
example : (calls Lexer.advance 3 (.ofString "eq(Größe ,1)")).2 = ⟨",1)".toList, 11⟩ := by
  cbv

end ResourceQuery
