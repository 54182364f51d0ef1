import ResourceQuery.Proofs.Reading.Refusal
import ResourceQuery.Proofs.Reading.Series

/-!
# Asking a parser again

A parser may be asked for queries as often as one likes, also after an error. An error leaves it
before the token at fault. Each answer takes at least one token, or else nothing is changed and
the same error is the answer from then on. So over any text the answers come to one error in the
end, and they do so after no more answers than there are tokens.
-/

namespace ResourceQuery

open Text (byteLength)

namespace Parser

/-- Whether a parser has something at a position before it: a token, or the end of the input. -/
def StandsAt (parser : Parser) (position : Nat) : Prop :=
  match parser.ahead with
  | [] => position = parser.length
  | token :: _ => token.position = position

instance (parser : Parser) (position : Nat) : Decidable (parser.StandsAt position) := by
  unfold StandsAt
  split <;> infer_instance

/-- Whether an answer is an error after which nothing has changed. -/
def StuckAt (parser : Parser) (error : SyntaxError) : Prop :=
  parser.next = (.error error, parser)

/-! ## One answer -/

theorem ends_next (parser : Parser) :
    ∃ reading : Reading, Situation.Ends parser.length .start parser.ahead reading ∧
      parser.next = (reading.outcome, ⟨reading.rest, parser.length⟩) :=
  ⟨_, Situation.ends_read parser.length .start parser.ahead, parser.next_eq⟩

/-- What is before a parser afterwards was before it already. -/
theorem next_suffix (parser : Parser) : parser.next.2.ahead <:+ parser.ahead := by
  obtain ⟨reading, hends, hnext⟩ := parser.ends_next
  rw [hnext]
  exact hends.rest_suffix

theorem length_next (parser : Parser) : parser.next.2.length = parser.length := rfl

/-- An error leaves the parser before what is at fault. -/
theorem standsAt_of_next {parser after : Parser} {error : SyntaxError}
    (hgenuine : ∀ token ∈ parser.ahead, token.Genuine)
    (h : parser.next = (.error error, after)) : after.StandsAt error.position := by
  obtain ⟨reading, hends, hnext⟩ := parser.ends_next
  rw [hnext, Prod.mk.injEq] at h
  obtain ⟨houtcome, rfl⟩ := h
  obtain ⟨ahead, length⟩ := parser
  dsimp only at hends hgenuine
  cases hends with
  | done => cases houtcome
  | @refused taken rest token situation error' hreads hstep =>
    cases houtcome
    have htoken : token.Genuine := hgenuine token (by simp)
    show token.position = error.position
    exact (position_of_step htoken hstep).symm
  | usedUp hreads =>
    show error.position = length
    exact position_of_atEnd houtcome

/-- An answer takes a token, or it is an error that will be the answer again. -/
theorem next_progress (parser : Parser) :
    parser.next.2.ahead.length < parser.ahead.length ∨
      ∃ error, parser.StuckAt error ∧
        (error.kind = .unknownOperation ∨ error.kind = .unexpectedEndOfInput) := by
  obtain ⟨reading, hends, hnext⟩ := parser.ends_next
  obtain ⟨ahead, length⟩ := parser
  unfold StuckAt
  rw [hnext]
  dsimp only at hends ⊢
  cases hends with
  | @done taken rest query hreads =>
    -- without a token there is no query
    have hpos : 0 < taken.length := by
      cases hreads <;> simp
    left
    show rest.length < (taken ++ rest).length
    rw [List.length_append]
    omega
  | @refused taken rest token situation error hreads hstep =>
    by_cases htaken : taken = []
    · subst htaken
      cases hreads
      -- the first token is refused, as it is no keyword
      have hkind : error.kind = .unknownOperation := by
        have hmove := map_eq_error hstep
        simp only [Situation.start, Place.move] at hmove
        split at hmove
        · cases hmove
        · cases hmove
          rfl
      exact .inr ⟨error, rfl, .inl hkind⟩
    · have hpos : 0 < taken.length := List.length_pos_iff.2 htaken
      left
      show (token :: rest).length < (taken ++ token :: rest).length
      rw [List.length_append]
      omega
  | usedUp hreads =>
    cases ahead with
    | nil =>
      cases hreads
      exact .inr ⟨_, rfl, .inr rfl⟩
    | cons token rest =>
      left
      exact Nat.succ_pos _

/-! ## Many answers -/

theorem calls_next_suffix (n : Nat) (parser : Parser) :
    (calls next n parser).2.ahead <:+ parser.ahead := by
  induction n generalizing parser with
  | zero => exact List.suffix_refl _
  | succ n ih =>
    rw [calls_succ]
    exact (ih parser.next.2).trans parser.next_suffix

theorem length_calls_next (n : Nat) (parser : Parser) :
    (calls next n parser).2.length = parser.length := by
  induction n generalizing parser with
  | zero => rfl
  | succ n ih =>
    rw [calls_succ, ih, length_next]

/-- Where nothing changes, the answer does not either. -/
theorem StuckAt.calls_next {parser : Parser} {error : SyntaxError} (h : parser.StuckAt error)
    (n : Nat) : calls next n parser = (List.replicate n (.error error), parser) := by
  induction n with
  | zero => rfl
  | succ n ih =>
    unfold StuckAt at h
    rw [calls_succ, h, ih, List.replicate_succ]

/-- Since each answer before takes a token, the answers come to one error in the end. -/
theorem exists_stuckAt (parser : Parser) :
    ∃ n ≤ parser.ahead.length, ∃ error, (calls next n parser).2.StuckAt error := by
  -- by induction on the tokens that are left
  generalize hcount : parser.ahead.length = count
  induction count using Nat.strong_induction_on generalizing parser with
  | _ count ih =>
    rcases parser.next_progress with hless | ⟨error, hstuck, -⟩
    · rw [hcount] at hless
      obtain ⟨n, hn, error, hstuck⟩ := ih _ hless parser.next.2 rfl
      refine ⟨n + 1, by omega, error, ?_⟩
      rw [calls_succ]
      exact hstuck
    · exact ⟨0, Nat.zero_le _, error, hstuck⟩

/-! ## Parsers of a text -/

/--
The parser that takes over from a lexer after some tokens of a text have been cut off, after some
answers.
-/
def midway (text : String) (cutOff answers : Nat) : Parser :=
  (calls next answers (ofLexer (calls Lexer.advance cutOff (.ofString text)).2).value).2

/-- Before a parser of a text are the last tokens of the text. -/
theorem midway_suffix (text : String) (cutOff answers : Nat) :
    (midway text cutOff answers).ahead <:+ tokenize text := by
  have hlexer : (calls Lexer.advance cutOff (.ofString text)).2.tokens <:+ tokenize text :=
    ⟨_, Lexer.tokens_calls cutOff (.ofString text)⟩
  exact (calls_next_suffix answers _).trans hlexer

/-- A parser of a text counts the bytes of the whole of it. -/
theorem length_midway (text : String) (cutOff answers : Nat) :
    (midway text cutOff answers).length = byteLength text.toList := by
  obtain ⟨passed, hpassed, hposition⟩ := Lexer.rest_calls cutOff (.ofString text)
  have hrest : text.toList = passed ++ (calls Lexer.advance cutOff (.ofString text)).2.rest :=
    hpassed
  have hstart : (Lexer.ofString text).position = 0 := rfl
  have hlexer : (calls Lexer.advance cutOff (.ofString text)).2.endPosition =
      byteLength text.toList := by
    rw [hrest, Text.byteLength_append, Lexer.endPosition, hposition, hstart, Nat.zero_add]
  rw [midway, length_calls_next]
  exact hlexer

theorem genuine_of_mem_midway {text : String} {cutOff answers : Nat} {token : Token}
    (h : token ∈ (midway text cutOff answers).ahead) : token.Genuine :=
  Lexer.genuine_of_mem_tokens ((midway_suffix text cutOff answers).mem h)

end Parser

/--
What an error leaves behind: the parser stands before what is at fault, with no token added or
left out. Unless a token was taken nothing has changed, and the error is the answer for good.
-/
structure LeftBy (text : String) (error : SyntaxError) (before after : Parser) : Prop where
  stands_before : after.StandsAt error.position
  at_end : after.ahead = [] → error.position = byteLength text.toList
  suffix : after.ahead <:+ before.ahead
  progress : after.ahead.length < before.ahead.length ∨
    after = before ∧ (error.kind = .unknownOperation ∨ error.kind = .unexpectedEndOfInput) ∧
      ∀ n, (calls Parser.next n before).1 = List.replicate n (.error error)

/--
Every error of every parser of a text leaves it so, and after at most as many answers as there
are tokens before it, each parser gives one error for good.
-/
theorem answers_after_errors (text : String) (cutOff answers : Nat) :
    let parser := Parser.midway text cutOff answers
    (∀ error after, parser.next = (.error error, after) → LeftBy text error parser after) ∧
    parser.ahead <:+ tokenize text ∧
    ∃ n ≤ parser.ahead.length, ∃ error, ∀ more,
      (calls Parser.next more (calls Parser.next n parser).2).1 =
        List.replicate more (.error error) := by
  intro parser
  refine ⟨?_, Parser.midway_suffix text cutOff answers, ?_⟩
  · intro error after hnext
    have hafter : parser.next.2 = after := by rw [hnext]
    have hstands : after.StandsAt error.position :=
      Parser.standsAt_of_next (fun _ => Parser.genuine_of_mem_midway) hnext
    have hlength : after.length = byteLength text.toList := by
      rw [← hafter, Parser.length_next]
      exact Parser.length_midway text cutOff answers
    refine ⟨hstands, ?_, ?_, ?_⟩
    · intro hnil
      unfold Parser.StandsAt at hstands
      rw [hnil] at hstands
      rw [← hlength]
      exact hstands
    · rw [← hafter]
      exact parser.next_suffix
    · rcases parser.next_progress with hless | ⟨error', hstuck, hkind⟩
      · rw [hafter] at hless
        exact .inl hless
      · have hsame : (Except.error error', parser) = (.error error, after) :=
          (show parser.next = _ from hstuck).symm.trans hnext
        cases hsame
        refine .inr ⟨rfl, hkind, fun n => ?_⟩
        rw [hstuck.calls_next]
  · obtain ⟨n, hn, error, hstuck⟩ := parser.exists_stuckAt
    refine ⟨n, hn, error, fun more => ?_⟩
    rw [hstuck.calls_next]

/-- Behind a limit, an operand that is none leaves the parser before itself, with a token behind. -/
theorem left_by_refused_operand :
    let parser := Parser.midway "limit(1)or(b,lt" 0 1
    ∃ after, parser.next = (.error ⟨.unknownOperation, "unknown operation 'b'", 11⟩, after) ∧
      after.ahead.length = 3 ∧
      LeftBy "limit(1)or(b,lt" ⟨.unknownOperation, "unknown operation 'b'", 11⟩ parser after := by
  intro parser
  have hnext : parser.next =
      (.error ⟨.unknownOperation, "unknown operation 'b'", 11⟩,
        ⟨[⟨.text, "b", 11⟩, ⟨.mark .comma, ",", 12⟩, ⟨.keyword (.comparison .lt), "lt", 13⟩], 15⟩) := by
    cbv
  exact ⟨_, hnext, rfl, (answers_after_errors "limit(1)or(b,lt" 0 1).1 _ _ hnext⟩

end ResourceQuery
