import ResourceQuery.Proofs.Grammar.Acceptance
import ResourceQuery.Proofs.Grammar.Spot
import ResourceQuery.Proofs.Reading.Positions

/-!
# Texts that close

A text that denotes a query and ends with a closing parenthesis denotes the same query wherever it
stands: the parenthesis shows that the query is complete, whatever follows. A sort or a limit that
is left open is completed by the end of its text alone.
-/

namespace ResourceQuery

open Grammar (Closed Derives)
open Lexer (Spells)
open Situation (Reads)
open Text (byteLength)

/-! ## The last token of a query -/

namespace Grammar

theorem Field.last_kind {tokens : List Token} {field : SortField} (h : Field tokens field) :
    ∃ name, tokens.getLast? = some name ∧ name.kind = .text := by
  cases h with
  | bare hname => exact ⟨_, rfl, hname⟩
  | plus _ hname => exact ⟨_, rfl, hname⟩
  | minus _ hname => exact ⟨_, rfl, hname⟩

/-- The arguments of what may be left open do not end with a parenthesis. -/
theorem Arguments.last_kind {tokens : List Token} {query : Query}
    (h : Arguments Closed tokens query)
    (hoperation : query.operation = .sort ∨ query.operation = .limit) :
    ∃ last, tokens.getLast? = some last ∧ (last.kind = .text ∨ last.kind = .integer) := by
  cases h with
  | sort hfields =>
    obtain ⟨before, final, _, _, rfl, -, hfield⟩ := hfields.last
    obtain ⟨name, hlast, hname⟩ := hfield.last_kind
    exact ⟨name, by rw [List.getLast?_append, hlast]; rfl, .inl hname⟩
  | limit hcount => exact ⟨_, rfl, .inr hcount.1⟩
  | limitSkip _ _ hskip => exact ⟨_, rfl, .inr hskip.1⟩
  | _ => rcases hoperation with hsort | hlimit <;> contradiction

/-- What ends with a parenthesis is not left open. -/
theorem Derives.closed_of_last {tokens : List Token} {query : Query} {last : Token}
    (h : Derives tokens query) (hlast : tokens.getLast? = some last)
    (hkind : last.kind = .mark .closeParen) : Closed tokens query := by
  cases h with
  | closed hclosed => exact hclosed
  | @unclosed keyword opening inner _ hkeyword hopening harguments hoperation =>
    obtain ⟨final, hfinal, hother⟩ := harguments.last_kind hoperation
    have hlast' : (keyword :: opening :: inner).getLast? = some final := by
      simp [List.getLast?_cons, hfinal]
    rw [hlast'] at hlast
    cases hlast
    rw [hkind] at hother
    rcases hother with htext | hinteger
    · cases htext
    · cases hinteger

theorem Closed.last {tokens : List Token} {query : Query} (h : Closed tokens query) :
    ∃ last, tokens.getLast? = some last ∧ last.kind = .mark .closeParen := by
  cases h with
  | @intro keyword opening closing inner _ hkeyword hopening harguments hclosing =>
    refine ⟨closing, ?_, hclosing⟩
    rw [← List.cons_append, ← List.cons_append, List.getLast?_concat]

theorem Derives.exists_first {tokens : List Token} {query : Query} (h : Derives tokens query) :
    ∃ first, tokens.head? = some first := by
  cases h with
  | closed hclosed =>
    cases hclosed with
    | intro => exact ⟨_, rfl⟩
  | unclosed => exact ⟨_, rfl⟩

/-- Closed queries are what reading takes as a whole. -/
theorem closed_iff_reads {tokens : List Token} {query : Query} :
    Closed tokens query ↔ Reads .start tokens (.done query) := by
  constructor
  · intro h
    exact reads_closed h []
  · intro h
    cases led_of_reads h with
    | done hclosed => exact hclosed

theorem Closed.moved {tokens : List Token} {query : Query} (h : Closed tokens query)
    (f : Nat → Nat) : Closed (tokens.map (Token.moved f)) query :=
  closed_iff_reads.2 ((closed_iff_reads.1 h).moved f)

end Grammar

/-! ## Texts -/

/-- A text that denotes a query and ends with a closing parenthesis. -/
structure Closes (text : String) (query : Query) : Prop where
  parse_eq : parse text = .ok query
  last : ∃ token, (tokenize text).getLast? = some token ∧ token.kind = .mark .closeParen

theorem closes_iff {text : String} {query : Query} :
    Closes text query ↔ Closed (tokenize text) query := by
  constructor
  · rintro ⟨hparse, last, hlast, hkind⟩
    exact (parse_eq_ok_iff_derives.1 hparse).closed_of_last hlast hkind
  · intro h
    exact ⟨parse_eq_ok_iff_derives.2 (.closed h), h.last⟩

theorem isMark_of_kind {lexer : Lexer} {token : Token} {mark : Mark} (h : token ∈ lexer.tokens)
    (hkind : token.kind = .mark mark) : token.IsMark := by
  have hhas := (Lexer.separate_tokens lexer).hasKind token h
  rw [hkind] at hhas
  generalize htext : token.text.toList = cs at hhas
  cases hhas
  exact ⟨mark, htext⟩

namespace Closes

variable {text : String} {query : Query} (h : Closes text query)

include h

theorem closed (position : Nat) : Closed (Lexer.tokens ⟨text.toList, position⟩) query := by
  rw [tokens_eq_tokenize]
  exact (closes_iff.1 h).moved _

theorem meet (position : Nat) (later : List Token) :
    Meet (Lexer.tokens ⟨text.toList, position⟩) later := by
  obtain ⟨last, hlast, hkind⟩ := (h.closed position).last
  have hmark : last.IsMark := isMark_of_kind (List.mem_of_getLast? hlast) hkind
  rw [Meet, hlast]
  intro other hother _ _
  cases hother
  exact .inl hmark

/-- What follows is cut as if the text were not there. -/
theorem tokens_append (rest : List Char) (position : Nat) :
    Lexer.tokens ⟨text.toList ++ rest, position⟩ = Lexer.tokens ⟨text.toList, position⟩ ++
      Lexer.tokens ⟨rest, position + byteLength text.toList⟩ :=
  Lexer.tokens_append (h.meet position _)

/-- The text spells its query wherever it stands. -/
theorem spells : Spells text.toList fun spelt => Closed spelt query :=
  fun after position _ => ⟨_, h.closed position, h.tokens_append after position⟩

end Closes

end ResourceQuery
