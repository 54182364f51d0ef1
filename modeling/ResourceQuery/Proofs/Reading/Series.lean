import ResourceQuery.Proofs.Reading.Closed
import ResourceQuery.Proofs.Reading.Resumption

/-!
# Queries in series

Texts of queries that stand one behind the other are read one after the other: reading a query
takes the tokens of its text and leaves the parser before the next. All of them but the last have
to close, for only the end of the input completes a query that is left open.
-/

namespace ResourceQuery

open Text (byteLength byteLength_append)

/-- Texts with the queries that they denote, which all but the last close. -/
inductive Series : List (String × Query) → Prop
  | last {text : String} {query : Query} (hparse : parse text = .ok query) : Series [(text, query)]
  | cons {text : String} {query : Query} {entries : List (String × Query)}
      (hcloses : Closes text query) (hrest : Series entries) : Series ((text, query) :: entries)

/-- The texts of a series, one behind the other. -/
def joined (entries : List (String × Query)) : String :=
  String.join (entries.map Prod.fst)

theorem toList_joined_cons (entry : String × Query) (entries : List (String × Query)) :
    (joined (entry :: entries)).toList = entry.1.toList ++ (joined entries).toList := by
  rw [joined, List.map_cons, String.join_cons, String.toList_append]
  rfl

theorem toList_joined_singleton (entry : String × Query) :
    (joined [entry]).toList = entry.1.toList := by
  rw [toList_joined_cons]
  exact List.append_nil _

namespace Parser

/-! ## One query -/

/-- The next query, and the parser that stands behind it. -/
def next (parser : Parser) : Except SyntaxError Query × Parser :=
  parser.readQuery.value

theorem next_eq (parser : Parser) :
    parser.next =
      ((Situation.start.read parser.length parser.ahead).value.outcome,
        ⟨(Situation.start.read parser.length parser.ahead).value.rest, parser.length⟩) := rfl

/-- Reading a query that closes takes its text, and nothing of what follows. -/
theorem next_of_closes {text : String} {query : Query} (h : Closes text query)
    (rest : List Char) (position : Nat) :
    (ofText (text.toList ++ rest) position).next =
      (.ok query, ofText rest (position + byteLength text.toList)) := by
  have hreads := Grammar.closed_iff_reads.1 (h.closed position)
  have hread := hreads.value_read_done (position + byteLength (text.toList ++ rest))
    (Lexer.tokens ⟨rest, position + byteLength text.toList⟩)
  rw [next_eq, ofText_eq, ofText_eq, h.tokens_append, hread, byteLength_append, Nat.add_assoc]

/-- Reading a query that is all there is comes to the end. -/
theorem next_of_parse {text : String} {query : Query} (h : parse text = .ok query)
    (position : Nat) :
    (ofText text.toList position).next =
      (.ok query, ofText [] (position + byteLength text.toList)) := by
  have hfirst : (ofText text.toList 0).next = (.ok query, ofText [] (byteLength text.toList)) := by
    have hread := parse_eq_ok_iff.1 h
    rw [readingOf, tokenize, Lexer.ofString] at hread
    rw [next_eq, ofText_eq, ofText_eq, Nat.zero_add, hread, Lexer.tokens_nil]
    rfl
  have hmoved := value_readQuery_moved (· + position) (ofText text.toList 0)
  rw [← ofText_moved, Nat.zero_add] at hmoved
  rw [next, hmoved, ← next, hfirst, ← ofText_moved, Nat.add_comm position]
  rfl

theorem readAll_of_parse {text : String} {query : Query} (h : parse text = .ok query)
    (position : Nat) : (ofText text.toList position).readAll.value = .ok query := by
  have hmoved := value_readAll_moved (· + position) (ofText text.toList 0)
  rw [← ofText_moved, Nat.zero_add, ← parse_eq_readAll, h] at hmoved
  exact hmoved

/-- The report of a parser that has nothing before it. -/
def nothingLeft (length : Nat) : SyntaxError :=
  ⟨.unexpectedEndOfInput, "unexpected end of input", length⟩

theorem next_of_nil (position : Nat) :
    (ofText [] position).next = (.error (nothingLeft position), ofText [] position) := by
  rw [next_eq, ofText_eq, Lexer.tokens_nil]
  rfl

theorem calls_next_nil (n position : Nat) :
    calls next n (ofText [] position) =
      (List.replicate n (.error (nothingLeft position)), ofText [] position) := by
  induction n with
  | zero => rfl
  | succ n ih => rw [calls_succ, next_of_nil, ih, List.replicate_succ]

end Parser

/-! ## All queries -/

namespace Series

variable {entries : List (String × Query)} (h : Series entries)

include h

/-- The queries of a series come in order, and then the end is reported again and again. -/
theorem calls_next (n position : Nat) :
    calls Parser.next (entries.length + n) (.ofText (joined entries).toList position) =
      (entries.map (fun entry => .ok entry.2) ++ List.replicate n
          (.error (Parser.nothingLeft (position + byteLength (joined entries).toList))),
        .ofText [] (position + byteLength (joined entries).toList)) := by
  induction h generalizing position with
  | last hparse =>
    rw [toList_joined_singleton, List.length_singleton, Nat.add_comm 1 n, calls_succ,
      Parser.next_of_parse hparse, Parser.calls_next_nil]
    rfl
  | cons hcloses _ ih =>
    rw [toList_joined_cons, List.length_cons, Nat.add_right_comm, calls_succ,
      Parser.next_of_closes hcloses, ih, byteLength_append, Nat.add_assoc]
    rfl

/-- Behind all queries of a series but the last, that one is all there is. -/
theorem readAll_last (position : Nat) :
    ∃ entry, entries.getLast? = some entry ∧
      (calls Parser.next (entries.length - 1)
        (.ofText (joined entries).toList position)).2.readAll.value = .ok entry.2 := by
  induction h generalizing position with
  | last hparse =>
    rw [toList_joined_singleton]
    exact ⟨_, rfl, Parser.readAll_of_parse hparse position⟩
  | @cons text query entries hcloses hrest ih =>
    obtain ⟨entry, hlast, hread⟩ := ih (position + byteLength text.toList)
    refine ⟨entry, by simp [List.getLast?_cons, hlast], ?_⟩
    have hlength : entries.length - 1 + 1 = entries.length := by
      cases hrest <;> simp
    rw [toList_joined_cons, List.length_cons, Nat.add_sub_cancel, ← hlength, calls_succ,
      Parser.next_of_closes hcloses]
    exact hread

/-- The first token of a series is the first token of its first text. -/
theorem exists_first (position : Nat) :
    ∃ entry first, entries.head? = some entry ∧ (tokenize entry.1).head? = some first ∧
      (Lexer.tokens ⟨(joined entries).toList, position⟩).head? =
        some (first.moved (· + position)) := by
  cases h with
  | @last text query hparse =>
    obtain ⟨first, hfirst⟩ := (parse_eq_ok_iff_derives.1 hparse).exists_first
    refine ⟨_, first, rfl, hfirst, ?_⟩
    rw [toList_joined_singleton, tokens_eq_tokenize, List.head?_map, hfirst]
    rfl
  | @cons text query entries hcloses hrest =>
    obtain ⟨first, hfirst⟩ := (parse_eq_ok_iff_derives.1 hcloses.parse_eq).exists_first
    refine ⟨_, first, rfl, hfirst, ?_⟩
    rw [toList_joined_cons, hcloses.tokens_append, List.head?_append, tokens_eq_tokenize,
      List.head?_map, hfirst]
    rfl

end Series

/-- What follows a query that closes is reported at its first token. -/
theorem Series.parse_joined_cons {text : String} {query : Query}
    {entries : List (String × Query)} (hcloses : Closes text query) (h : Series entries) :
    ∃ entry first, entries.head? = some entry ∧ (tokenize entry.1).head? = some first ∧
      parse (joined ((text, query) :: entries)) = .error ⟨.trailingInput,
        "unexpected " ++ first.quoted ++ " after end of query",
        byteLength text.toList + first.position⟩ := by
  obtain ⟨entry, first, hentry, hfirst, htokens⟩ := h.exists_first (byteLength text.toList)
  refine ⟨entry, first, hentry, hfirst, ?_⟩
  obtain ⟨rest, hrest⟩ := List.head?_eq_some_iff.1 htokens
  have hnext := Parser.next_of_closes hcloses (joined entries).toList 0
  rw [Parser.parse_eq_readAll, toList_joined_cons, Parser.value_readAll, ← Parser.next, hnext,
    Nat.zero_add, Parser.ofText_eq, hrest, Nat.add_comm _ first.position]
  rfl

/--
A parser over the texts of a series reads its queries one after the other and then reports the
end whenever it is asked again. With one query left it can read all that is left. Read as one
query, the whole text has a fault at the first token of the second.
-/
theorem read_series {entries : List (String × Query)} (h : Series entries) :
    let parser := (Parser.ofLexer (.ofString (joined entries))).value
    (∀ n, (calls Parser.next (entries.length + n) parser).1 =
      entries.map (fun entry => .ok entry.2) ++ List.replicate n
        (.error ⟨.unexpectedEndOfInput, "unexpected end of input",
          byteLength (joined entries).toList⟩)) ∧
    (∃ entry, entries.getLast? = some entry ∧
      (calls Parser.next (entries.length - 1) parser).2.readAll.value = .ok entry.2) ∧
    ∀ first second others, entries = first :: second :: others →
      ∃ token, (tokenize second.1).head? = some token ∧
        parse (joined entries) = .error ⟨.trailingInput,
          "unexpected " ++ token.quoted ++ " after end of query",
          byteLength first.1.toList + token.position⟩ := by
  refine ⟨fun n => ?_, h.readAll_last 0, ?_⟩
  · have hcalls := h.calls_next n 0
    rw [Nat.zero_add] at hcalls
    exact congrArg Prod.fst hcalls
  · rintro first second others rfl
    cases h with
    | cons hcloses hrest =>
      obtain ⟨entry, token, hentry, htoken, hparse⟩ := hrest.parse_joined_cons hcloses
      cases hentry
      exact ⟨token, htoken, hparse⟩

/-- A query with blanks around it, one within a combination, and a limit that is left open. -/
theorem series_with_open_limit :
    let entries := [(" sort(-b) ", .sort [⟨"b", .desc⟩]),
      ("or(limit(1))", .combination .or [.limit 1 0]), (" limit(7", .limit 7 0)]
    Series entries ∧
      (calls Parser.next 4 (Parser.ofLexer (.ofString (joined entries))).value).1 =
        [.ok (.sort [⟨"b", .desc⟩]), .ok (.combination .or [.limit 1 0]), .ok (.limit 7 0),
          .error ⟨.unexpectedEndOfInput, "unexpected end of input", 30⟩] := by
  intro entries
  have hsort : Closes " sort(-b) " (.sort [⟨"b", .desc⟩]) :=
    ⟨by cbv, ⟨.mark .closeParen, ")", 8⟩, by cbv, rfl⟩
  have hor : Closes "or(limit(1))" (.combination .or [.limit 1 0]) :=
    ⟨by cbv, ⟨.mark .closeParen, ")", 11⟩, by cbv, rfl⟩
  have hlimit : parse " limit(7" = .ok (.limit 7 0) := by cbv
  have hseries : Series entries := .cons hsort (.cons hor (.last hlimit))
  have hread := (read_series hseries).1 1
  have hlength : byteLength (joined entries).toList = 30 := by cbv
  rw [hlength] at hread
  exact ⟨hseries, hread⟩

end ResourceQuery
