import Mathlib
import ResourceQuery.Proofs.Reading.Parse
import ResourceQuery.Proofs.Token.Joining

/-!
# Reading tokens at other positions

Reading never looks at where a token stands; it only reports it. So tokens that stand elsewhere
are read as the same query, or refused with the same report at the place where the token at fault
now stands. The same goes for a parser, if the end of the input moves along with its tokens.
-/

namespace ResourceQuery

/-- An error in another place, which depends on the one that it has. -/
def SyntaxError.moved (f : Nat → Nat) (error : SyntaxError) : SyntaxError :=
  { error with position := f error.position }

variable (f : Nat → Nat)

theorem map_mapError {α β : Type} (g : α → β) (outcome : Except SyntaxError α) :
    (outcome.mapError (SyntaxError.moved f)).map g =
      (outcome.map g).mapError (SyntaxError.moved f) := by
  cases outcome <;> rfl

/-! ## One token -/

namespace Place

theorem refuse_moved (place : Place) (token : Token) :
    place.refuse (token.moved f) = (place.refuse token).moved f := by
  cases place <;> rfl

theorem expect_moved (place : Place) (kind : Kind) (token : Token) (move : Move) :
    place.expect kind (token.moved f) move =
      (place.expect kind token move).mapError (SyntaxError.moved f) := by
  have his : (token.moved f).is kind = token.is kind := rfl
  rw [expect, expect, his, refuse_moved]
  split <;> rfl

theorem readCount_moved (token : Token) :
    readCount (token.moved f) = (readCount token).mapError (SyntaxError.moved f) := by
  have hcount : (token.moved f).count? = token.count? := rfl
  rw [readCount, readCount, hcount]
  split <;> rfl

theorem readLiteral_moved (token : Token) :
    readLiteral (token.moved f) = (readLiteral token).mapError (SyntaxError.moved f) := by
  have hliteral : (token.moved f).literal? = token.literal? := rfl
  rw [readLiteral, readLiteral, hliteral]
  split <;> rfl

theorem moveCount_moved (place : Place) (token : Token) (next : UInt64 → Place) :
    place.moveCount (token.moved f) next =
      (place.moveCount token next).mapError (SyntaxError.moved f) := by
  have his : (token.moved f).is .integer = token.is .integer := rfl
  rw [moveCount, moveCount, his, readCount_moved, refuse_moved, map_mapError]
  split <;> rfl

theorem moveValue_moved (place : Place) (token : Token) (slot : Slot) :
    place.moveValue (token.moved f) slot =
      (place.moveValue token slot).mapError (SyntaxError.moved f) := by
  simp only [moveValue, Token.kind_moved, readLiteral_moved, refuse_moved, map_mapError]
  split <;> rfl

theorem moveNumber_moved (place : Place) (token : Token) (slot : Slot) (negative : Bool) :
    place.moveNumber (token.moved f) slot negative =
      (place.moveNumber token slot negative).mapError (SyntaxError.moved f) := by
  simp only [moveNumber, Token.kind_moved, readLiteral_moved, refuse_moved, map_mapError]
  split <;> rfl

/-- The position of a token decides nothing but where the error is. -/
theorem move_moved (place : Place) (token : Token) :
    place.move (token.moved f) = (place.move token).mapError (SyntaxError.moved f) := by
  cases place with
  | opening | property | afterProperty | bracket | closing | fieldProperty | afterSecondCount =>
    exact expect_moved f _ _ _ _
  | firstCount | secondCount => exact moveCount_moved f _ _ _
  | value => exact moveValue_moved f _ _ _
  | number => exact moveNumber_moved f _ _ _ _
  | firstValue =>
    simp only [move, Token.kind_moved, moveValue_moved]
    split <;> rfl
  | field =>
    simp only [move, Token.kind_moved, Token.text_moved, expect_moved]
    split <;> rfl
  | query | afterValue | afterField | afterFirstCount | afterOperand =>
    simp only [move, Token.kind_moved, refuse_moved]
    split <;> rfl

end Place

/-! ## A run -/

namespace Situation

theorem step_moved (situation : Situation) (token : Token) :
    situation.step (token.moved f) = (situation.step token).mapError (SyntaxError.moved f) := by
  rw [step, step, Place.move_moved, map_mapError]

theorem atEnd_moved (situation : Situation) (length : Nat) :
    situation.atEnd (f length) = (situation.atEnd length).mapError (SyntaxError.moved f) := by
  unfold atEnd
  split
  next => rfl
  next query _ => split <;> rfl

theorem Reads.moved {situation : Situation} {tokens : List Token} {next : Next}
    (h : Reads situation tokens next) : Reads situation (tokens.map (Token.moved f)) next := by
  induction h with
  | nil => exact .nil
  | last hstep => exact .last (by rw [step_moved, hstep]; rfl)
  | cons hstep _ ih => exact .cons (by rw [step_moved, hstep]; rfl) ih

end Situation

/-- What reading comes to with the tokens elsewhere. -/
def Reading.moved (reading : Reading) : Reading :=
  ⟨reading.outcome.mapError (SyntaxError.moved f), reading.rest.map (Token.moved f)⟩

theorem value_read_moved (situation : Situation) (length : Nat) (tokens : List Token) :
    (situation.read (f length) (tokens.map (Token.moved f))).value =
      (situation.read length tokens).value.moved f := by
  induction tokens generalizing situation with
  | nil =>
    rw [List.map_nil, Situation.value_read_nil, Situation.value_read_nil, Situation.atEnd_moved]
    rfl
  | cons token rest ih =>
    rw [List.map_cons, Situation.value_read_cons, Situation.value_read_cons,
      Situation.step_moved]
    cases situation.step token with
    | error error => rfl
    | ok next =>
      cases next with
      | done query => rfl
      | on next => exact ih next

/-! ## Parsers -/

namespace Parser

/-- A parser whose tokens, and the end behind them, are elsewhere. -/
def moved (parser : Parser) : Parser :=
  ⟨parser.ahead.map (Token.moved f), f parser.length⟩

theorem value_readQuery_moved (parser : Parser) :
    (parser.moved f).readQuery.value =
      (parser.readQuery.value.1.mapError (SyntaxError.moved f),
        parser.readQuery.value.2.moved f) := by
  have hread := value_read_moved f .start parser.length parser.ahead
  simp only [readQuery, Logged.value_bind, Logged.value_pure, moved, hread]
  rfl

theorem nothingAfter_moved (parser : Parser) (query : Query) :
    (parser.moved f).nothingAfter query =
      (parser.nothingAfter query).mapError (SyntaxError.moved f) := by
  obtain ⟨ahead, length⟩ := parser
  cases ahead <;> rfl

theorem value_readAll (parser : Parser) :
    parser.readAll.value =
      parser.readQuery.value.1.bind parser.readQuery.value.2.nothingAfter := rfl

/-- A parser comes to the same wherever its tokens are. -/
theorem value_readAll_moved (parser : Parser) :
    (parser.moved f).readAll.value = parser.readAll.value.mapError (SyntaxError.moved f) := by
  rw [value_readAll, value_readAll, value_readQuery_moved]
  cases parser.readQuery.value.1 with
  | error error => rfl
  | ok query => exact nothingAfter_moved f _ query

/-- A parser for a text, which has so many bytes before it. -/
def ofText (cs : List Char) (position : Nat) : Parser :=
  (ofLexer ⟨cs, position⟩).value

theorem ofText_eq (cs : List Char) (position : Nat) :
    ofText cs position =
      ⟨Lexer.tokens ⟨cs, position⟩, position + Text.byteLength cs⟩ := rfl

theorem ofText_moved (cs : List Char) (position n : Nat) :
    ofText cs (position + n) = (ofText cs position).moved (· + n) := by
  rw [ofText_eq, ofText_eq, moved, Lexer.tokens_moved, Nat.add_right_comm]

theorem parse_eq_readAll (text : String) : parse text = (ofText text.toList 0).readAll.value := rfl

end Parser

/-! ## Blanks between two texts -/

/--
Blanks next to a mark, or at an end of a text, are of no account: the tokens are the same, those
behind the blanks are pushed back, and so is an error that is found there or at the end.
-/
theorem parse_insert_blanks (x blanks y : String) (hblanks : Lexer.Blanks blanks.toList)
    (hseam : Seam x.toList y.toList) :
    let push := pushed (Text.byteLength x.toList) (Text.byteLength blanks.toList)
    tokenize (x ++ blanks ++ y) = (tokenize (x ++ y)).map (Token.moved push) ∧
      parse (x ++ blanks ++ y) = (parse (x ++ y)).mapError (SyntaxError.moved push) := by
  intro push
  have htokens : tokenize (x ++ blanks ++ y) = (tokenize (x ++ y)).map (Token.moved push) := by
    have happend := Lexer.tokens_append_blanks hblanks hseam 0
    rw [Nat.zero_add] at happend
    simpa only [tokenize, Lexer.ofString, String.toList_append, List.append_assoc] using happend
  have hend : push (Text.byteLength (x ++ y).toList) =
      Text.byteLength (x ++ blanks ++ y).toList := by
    have hle : Text.byteLength x.toList ≤ Text.byteLength (x ++ y).toList := by
      rw [String.toList_append, Text.byteLength_append]
      omega
    rw [show push = pushed _ _ from rfl, pushed_of_le hle]
    simp only [String.toList_append, Text.byteLength_append]
    omega
  have hparser : Parser.ofText (x ++ blanks ++ y).toList 0 =
      (Parser.ofText (x ++ y).toList 0).moved push := by
    simp only [Parser.ofText_eq, Parser.moved, Nat.zero_add, hend]
    exact congrArg (Parser.mk · _) htokens
  refine ⟨htokens, ?_⟩
  rw [Parser.parse_eq_readAll, Parser.parse_eq_readAll, hparser, Parser.value_readAll_moved]

/-- Blanks of three bytes and of one push an error from byte 12 to byte 16. -/
theorem error_pushed_by_blanks :
    parse ("or(" ++ "\u3000\n" ++ " eq(a,2),b)") =
      .error ⟨.unknownOperation, "unknown operation 'b'", 16⟩ := by
  have hparse : parse ("or(" ++ " eq(a,2),b)") =
      .error ⟨.unknownOperation, "unknown operation 'b'", 12⟩ := by
    cbv
  have hseam : Seam "or(".toList " eq(a,2),b)".toList := .inr (.inr (.inl ⟨.openParen, rfl⟩))
  rw [(parse_insert_blanks "or(" "\u3000\n" " eq(a,2),b)" (by decide) hseam).2, hparse]
  rfl

end ResourceQuery
