import Mathlib
import ResourceQuery.Proofs.Grammar.Acceptance
import ResourceQuery.Proofs.Reading.Completion
import ResourceQuery.Proofs.Reading.Refusal

/-!
# The first fault

An error stands at the first token at which a text can no longer become a query: what comes before
that token can still be continued to a query, with the token it cannot. An error at the end of the
text says that the text is no query but can be continued to one.
-/

namespace ResourceQuery

open Grammar (Derives derives_iff_read)
open Situation (Reads)

theorem derives_of_reads {tokens : List Token} {query : Query}
    (h : Reads .start tokens (.done query)) : Derives tokens query := by
  rw [derives_iff_read 0, ← List.append_nil tokens]
  exact h.value_read_done 0 []

/-- Tokens that reading takes without completing a query can be continued to one. -/
theorem exists_derives_of_reads {tokens : List Token} {situation : Situation}
    (h : Reads .start tokens (.on situation)) :
    ∃ more query, more ≠ [] ∧ (∀ token ∈ more, token.Genuine) ∧
      Derives (tokens ++ more) query := by
  obtain ⟨more, query, hgenuine, hreads⟩ := situation.completable
  refine ⟨more, query, ?_, hgenuine, derives_of_reads (h.trans hreads)⟩
  rintro rfl
  cases hreads

/-- Nothing that begins with a refused token derives a query. -/
theorem not_derives_of_refused {taken more : List Token} {token : Token} {situation : Situation}
    {error : SyntaxError} (h : Reads .start taken (.on situation))
    (hstep : situation.step token = .error error) (query : Query) :
    ¬Derives (taken ++ token :: more) query := by
  intro hderives
  rw [derives_iff_read 0, h.value_read_refused 0 hstep] at hderives
  cases hderives

/-- Nothing follows a query that is closed. -/
theorem not_derives_of_done {taken more : List Token} {token : Token} {query : Query}
    (h : Reads .start taken (.done query)) (query' : Query) :
    ¬Derives (taken ++ token :: more) query' := by
  intro hderives
  rw [derives_iff_read 0, h.value_read_done 0] at hderives
  cases hderives

/-- A position at which a text goes wrong beyond repair, or at which it stops too early. -/
inductive FirstFault (text : String) (position : Nat) : Prop
  /-- One token stands there. Without it the text can still become a query, with it no more. -/
  | atToken {before after : List Token} {token : Token}
      (hstands : StandsAt text position before token after)
      (hbefore : ∃ more query, (∀ token ∈ more, token.Genuine) ∧ Derives (before ++ more) query)
      (hwith : ∀ more query, ¬Derives (before ++ token :: more) query)
  /-- The text ends there. It is no query, but some more tokens make it one. -/
  | atEnd (hposition : position = Text.byteLength text.toList)
      (hwhole : ∀ query, ¬Derives (tokenize text) query)
      (hmore : ∃ more query, more ≠ [] ∧ (∀ token ∈ more, token.Genuine) ∧
        Derives (tokenize text ++ more) query)

/-- Errors stand at the first fault of a text. -/
theorem parse_error_at_first_fault {text : String} {error : SyntaxError}
    (h : parse text = .error error) : FirstFault text error.position := by
  cases fails_of_parse h with
  | @refused taken rest token situation htokens hreads hstep =>
    have hmem : token ∈ tokenize text := by simp [htokens]
    have hposition := position_of_step (Lexer.genuine_of_mem_tokens hmem) hstep
    obtain ⟨more, query, -, hgenuine, hderives⟩ := exists_derives_of_reads hreads
    rw [hposition]
    exact .atToken (standsAt_of_tokenize htokens) ⟨more, query, hgenuine, hderives⟩
      fun _ => not_derives_of_refused hreads hstep
  | @trailing taken rest token query htokens hreads herror =>
    have hposition : error.position = token.position := by rw [herror]
    have hderives : Derives (taken ++ []) query := by
      rw [List.append_nil]
      exact derives_of_reads hreads
    rw [hposition]
    -- a query is closed already, so nothing has to be added to what comes before the token
    exact .atToken (standsAt_of_tokenize htokens) ⟨[], query, by simp, hderives⟩
      fun _ => not_derives_of_done hreads
  | usedUp hreads hend =>
    refine .atEnd (position_of_atEnd hend) ?_ (exists_derives_of_reads hreads)
    intro query hderives
    rw [← parse_eq_ok_iff_derives, h] at hderives
    cases hderives

/-- A keyword where a comma or the closing parenthesis of a combination must stand. -/
theorem first_fault_between_operands :
    parse "or(sort(-a)eq(b,2))" =
        .error ⟨.missingCloseParen, "expected ',' or ')', found 'eq'", 11⟩ ∧
      FirstFault "or(sort(-a)eq(b,2))" 11 := by
  have hparse : parse "or(sort(-a)eq(b,2))" =
      .error ⟨.missingCloseParen, "expected ',' or ')', found 'eq'", 11⟩ := by
    cbv
  exact ⟨hparse, parse_error_at_first_fault hparse⟩

end ResourceQuery
