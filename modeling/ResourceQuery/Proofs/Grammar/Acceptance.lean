import ResourceQuery.Proofs.Grammar.Completeness
import ResourceQuery.Proofs.Reading.Parse
import ResourceQuery.Proofs.Token.Numbers

/-!
# Acceptance

A text is accepted exactly if its tokens derive a query, and it denotes that query.
-/

namespace ResourceQuery

open Grammar (Derives)

theorem parse_eq_ok_iff_derives {text : String} {query : Query} :
    parse text = .ok query ↔ Derives (tokenize text) query :=
  parse_eq_ok_iff.trans (Grammar.derives_iff_read _).symm

/--
A text denotes a query exactly if its tokens derive it. No token list derives two queries, and
each number among the tokens of a text denotes what the grammar reads from it.
-/
theorem parse_eq_ok_iff_unique_derivation (text : String) (query : Query) :
    (parse text = .ok query ↔ Derives (tokenize text) query) ∧
      (∀ tokens query₁ query₂, Derives tokens query₁ → Derives tokens query₂ → query₁ = query₂) ∧
      ∀ token ∈ tokenize text,
        (token.kind = .integer →
          (∃ n, token.integer? = some n) ∧ ∃ count, token.count? = some count) ∧
        (token.kind = .float → ∃ x, token.float? = some x) := by
  refine ⟨parse_eq_ok_iff_derives, fun _ _ _ h h' => h.unique h', ?_⟩
  intro token htoken
  obtain ⟨hinteger, hfloat⟩ := (Lexer.genuine_of_mem_tokens htoken).readings
  refine ⟨?_, hfloat⟩
  intro hkind
  obtain ⟨n, -, hn, hcount⟩ := hinteger hkind
  exact ⟨⟨_, hn⟩, _, hcount⟩

example : parse "sort(-b,+c" = .ok (.sort [⟨"b", .desc⟩, ⟨"c", .asc⟩]) := by cbv

end ResourceQuery
