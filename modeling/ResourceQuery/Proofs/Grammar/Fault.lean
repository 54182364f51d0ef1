import ResourceQuery.Proofs.Grammar.FirstFault
import ResourceQuery.Proofs.Grammar.Spot

/-!
# What is wrong at the first fault

The kind of an error is settled by the grammar: by the spot at which the tokens before the first
fault break off, and by the kind of the token there, if there is one.
-/

namespace ResourceQuery

open Grammar (Derives Spot BeforeToken EndsAt nextSpot endSpot? placeSpot complaint_kind)
open Situation (Reads)

/-- What is wrong with a text at a position. -/
inductive Fault (text : String) (position : Nat) (kind : ErrorKind) : Prop
  /-- The first token with which the text can no longer become a query cannot stand at its spot. -/
  | atToken {before after : List Token} {token : Token} {spot : Spot}
      (hstands : StandsAt text position before token after)
      (hbefore : ∃ more query, (∀ token ∈ more, token.Genuine) ∧ Derives (before ++ more) query)
      (hwith : ∀ more query, ¬Derives (before ++ token :: more) query)
      (hspot : ∀ spot', BeforeToken before spot' ↔ spot' = spot)
      (hkind : kind = spot.fault (some token.kind))
  /-- The text can still become a query, but it ends at a spot where it is none. -/
  | atEnd {spot : Spot} (hposition : position = Text.byteLength text.toList)
      (hwhole : ∀ query, ¬Derives (tokenize text) query)
      (hmore : ∃ more query, more ≠ [] ∧ (∀ token ∈ more, token.Genuine) ∧
        Derives (tokenize text ++ more) query)
      (hspot : ∀ spot', EndsAt (tokenize text) spot' ↔ spot' = spot)
      (hkind : kind = spot.fault none)

/-- A refused token is at fault with the spot of the place that refuses it. -/
theorem kind_of_step {situation : Situation} {token : Token} {error : SyntaxError}
    (hgenuine : token.Genuine) (h : situation.step token = .error error) :
    error.kind = (placeSpot situation.place).fault (some token.kind) := by
  rw [Place.refuse_of_move hgenuine (map_eq_error h)]
  exact complaint_kind situation.place (some token)

/-- Where the end is an error, it is one at the spot at which the tokens end. -/
theorem kind_of_atEnd {length : Nat} {situation : Situation} {error : SyntaxError}
    (h : situation.atEnd length = .error error) :
    ∃ spot, endSpot? situation = some spot ∧ error.kind = spot.fault none := by
  obtain ⟨frames, place⟩ := situation
  simp only [Situation.atEnd, endSpot?] at h ⊢
  cases hcomplete : place.complete? with
  | none =>
    rw [hcomplete] at h
    cases h
    exact ⟨_, rfl, complaint_kind place none⟩
  | some query =>
    rw [hcomplete] at h
    cases frames with
    | nil => cases h
    | cons frame frames =>
      cases h
      exact ⟨_, rfl, rfl⟩

/-- The kind of an error is the one of the spot at which the first fault stands. -/
theorem parse_error_of_fault {text : String} {error : SyntaxError} (h : parse text = .error error) :
    Fault text error.position error.kind := by
  cases fails_of_parse h with
  | @refused taken rest token situation htokens hreads hstep =>
    obtain ⟨hgenuine, -⟩ := genuine_of_tokenize htokens
    obtain ⟨more, query, -, hmore, hderives⟩ := exists_derives_of_reads hreads
    rw [position_of_step hgenuine hstep]
    exact .atToken (standsAt_of_tokenize htokens) ⟨more, query, hmore, hderives⟩
      (fun _ => not_derives_of_refused hreads hstep) (Grammar.beforeToken_iff hreads)
      (kind_of_step hgenuine hstep)
  | @trailing taken rest token query htokens hreads herror =>
    have hderives : Derives (taken ++ []) query := by
      rw [List.append_nil]
      exact derives_of_reads hreads
    rw [herror]
    exact .atToken (standsAt_of_tokenize htokens) ⟨[], query, by simp, hderives⟩
      (fun _ => not_derives_of_done hreads) (Grammar.beforeToken_iff hreads) rfl
  | usedUp hreads hend =>
    obtain ⟨spot, hspot, hkind⟩ := kind_of_atEnd hend
    refine .atEnd (position_of_atEnd hend) ?whole (exists_derives_of_reads hreads) ?spot hkind
    case whole =>
      intro query hderives
      rw [← parse_eq_ok_iff_derives, h] at hderives
      cases hderives
    case spot =>
      intro spot'
      rw [Grammar.endsAt_iff hreads, hspot, Option.some.injEq, eq_comm]

/-- A sort needs no parenthesis where a query ends, but the combination around it does. -/
theorem fault_behind_open_sort :
    parse "and(eq(a,1),sort(-b" =
        .error ⟨.missingCloseParen, "expected ',' or ')', found end of input", 19⟩ ∧
      Fault "and(eq(a,1),sort(-b" 19 .missingCloseParen := by
  have hparse : parse "and(eq(a,1),sort(-b" =
      .error ⟨.missingCloseParen, "expected ',' or ')', found end of input", 19⟩ := by
    cbv
  exact ⟨hparse, parse_error_of_fault hparse⟩

end ResourceQuery
