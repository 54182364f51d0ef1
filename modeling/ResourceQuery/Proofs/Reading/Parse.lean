import ResourceQuery.Proofs.Reading.Run

/-!
# Parsing as one run

Parsing a text is one run of reading over its tokens. If the run comes to a query, that query has
to be all there is.
-/

namespace ResourceQuery

/-- The run of reading over the tokens of a text. -/
def readingOf (text : String) : Reading :=
  (Situation.start.read (Text.byteLength text.toList) (tokenize text)).value

theorem endPosition_ofString (text : String) :
    (Lexer.ofString text).endPosition = Text.byteLength text.toList := by
  simp [Lexer.endPosition, Lexer.ofString]

theorem ends_readingOf (text : String) :
    Situation.Ends (Text.byteLength text.toList) .start (tokenize text) (readingOf text) :=
  Situation.ends_read _ _ _

theorem parse_eq (text : String) :
    parse text =
      (readingOf text).outcome.bind
        (Parser.nothingAfter ⟨(readingOf text).rest, Text.byteLength text.toList⟩) := by
  unfold readingOf
  rw [← endPosition_ofString]
  rfl

theorem parse_eq_ok_iff {text : String} {query : Query} :
    parse text = .ok query ↔ readingOf text = ⟨.ok query, []⟩ := by
  rw [parse_eq]
  cases readingOf text with
  | mk outcome rest =>
    cases outcome with
    | error error => simp [Except.bind]
    | ok query' =>
      cases rest with
      | nil => simp [Except.bind, Parser.nothingAfter]
      | cons token rest => simp [Except.bind, Parser.nothingAfter]

/-- What went wrong where parsing fails: a refused token, the end, or a token behind a query. -/
inductive Fails (text : String) (error : SyntaxError) : Prop
  | refused {taken rest : List Token} {token : Token} {situation : Situation}
      (htokens : tokenize text = taken ++ token :: rest)
      (hreads : Situation.Reads .start taken (.on situation))
      (hstep : situation.step token = .error error)
  | usedUp {situation : Situation}
      (hreads : Situation.Reads .start (tokenize text) (.on situation))
      (hend : situation.atEnd (Text.byteLength text.toList) = .error error)
  | trailing {taken rest : List Token} {token : Token} {query : Query}
      (htokens : tokenize text = taken ++ token :: rest)
      (hreads : Situation.Reads .start taken (.done query))
      (herror : error =
        ⟨.trailingInput, "unexpected " ++ token.quoted ++ " after end of query", token.position⟩)

theorem fails_of_parse {text : String} {error : SyntaxError} (h : parse text = .error error) :
    Fails text error := by
  have hends := ends_readingOf text
  rw [parse_eq] at h
  generalize readingOf text = reading at h hends
  generalize htokens : tokenize text = tokens at hends
  cases hends with
  | @done taken rest query hreads =>
    cases rest with
    | nil => cases h
    | cons token rest =>
      cases h
      exact .trailing htokens hreads rfl
  | refused hreads hstep =>
    cases h
    exact .refused htokens hreads hstep
  | @usedUp _ next hreads =>
    rw [← htokens] at hreads
    cases hend : next.atEnd (Text.byteLength text.toList) with
    | error error' =>
      rw [hend] at h
      cases h
      exact .usedUp hreads hend
    | ok query =>
      rw [hend] at h
      cases h

/-! ## From the run to the outcome -/

section

variable {text : String} {taken rest : List Token} {token : Token} {situation : Situation}
  {query : Query}

theorem parse_of_refused {error : SyntaxError} (htokens : tokenize text = taken ++ token :: rest)
    (hreads : Situation.Reads .start taken (.on situation))
    (hstep : situation.step token = .error error) : parse text = .error error := by
  rw [parse_eq, readingOf, htokens, hreads.value_read_refused _ hstep]
  rfl

theorem parse_of_trailing (htokens : tokenize text = taken ++ token :: rest)
    (hreads : Situation.Reads .start taken (.done query)) :
    parse text = .error
      ⟨.trailingInput, "unexpected " ++ token.quoted ++ " after end of query", token.position⟩ := by
  rw [parse_eq, readingOf, htokens, hreads.value_read_done]
  rfl

theorem parse_of_usedUp (hreads : Situation.Reads .start (tokenize text) (.on situation)) :
    parse text = situation.atEnd (Text.byteLength text.toList) := by
  have hread := hreads.value_read_on (Text.byteLength text.toList) []
  rw [List.append_nil] at hread
  rw [parse_eq, readingOf, hread, Situation.value_read_nil]
  cases situation.atEnd (Text.byteLength text.toList) with
  | error error => rfl
  | ok query => rfl

theorem parse_of_done (hreads : Situation.Reads .start (tokenize text) (.done query)) :
    parse text = .ok query := by
  have hread := hreads.value_read_done (Text.byteLength text.toList) []
  rw [List.append_nil] at hread
  rw [parse_eq, readingOf, hread]
  rfl

end

/-- Where parsing ends with a query: behind its parenthesis, or at the end of the text. -/
theorem reads_of_parse {text : String} {query : Query} (h : parse text = .ok query) :
    Situation.Reads .start (tokenize text) (.done query) ∨
      ∃ situation, Situation.Reads .start (tokenize text) (.on situation) ∧
        situation.atEnd (Text.byteLength text.toList) = .ok query := by
  have hends := ends_readingOf text
  rw [parse_eq_ok_iff.1 h] at hends
  generalize hreading : Reading.mk (.ok query) [] = reading at hends
  generalize htokens : tokenize text = tokens at hends
  cases hends with
  | done hreads =>
    cases hreading
    rw [List.append_nil]
    exact .inl hreads
  | refused => cases hreading
  | usedUp hreads =>
    simp only [Reading.mk.injEq, and_true] at hreading
    exact .inr ⟨_, hreads, hreading.symm⟩

end ResourceQuery
