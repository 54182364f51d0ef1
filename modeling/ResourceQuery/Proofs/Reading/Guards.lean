import ResourceQuery.Check
import ResourceQuery.Proofs.Reading.Closed

/-!
# The guards of a check

A check refuses a text unread if it is blank or too long, and once it is read if its tree is nested
too deep. What a check comes to is told here by the text, the limits and what parsing comes to:
which guard goes first, what is left to parsing, and that looser limits let through whatever
stricter ones do.
-/

namespace ResourceQuery

open Text (allBlank byteLength trimEnd trimStart)

/-! ## Blank texts -/

/-- A text has no tokens exactly if it is blank. -/
theorem tokenize_eq_nil_iff {text : String} : tokenize text = [] ↔ allBlank text.toList := by
  constructor
  · intro htokens
    have hnext : (Lexer.ofString text).next? = none := by
      rw [Option.eq_none_iff_forall_ne_some]
      rintro ⟨token, after⟩ hnext
      have hcons := Lexer.tokens_of_next?_some hnext
      rw [show (Lexer.ofString text).tokens = [] from htokens] at hcons
      cases hcons
    exact List.all_eq_true.2 (Lexer.blanks_of_next?_none hnext)
  · intro hblank
    exact Lexer.tokens_of_blanks (List.all_eq_true.1 hblank) 0

/-- Trimming leaves nothing of a blank text, and something of any other. -/
theorem trim_eq_nil_iff {cs : List Char} : trimEnd (trimStart cs) = [] ↔ allBlank cs := by
  have hend : trimEnd (trimStart cs) = [] ↔ ∀ c ∈ trimStart cs, Text.isBlank c :=
    List.rdropWhile_eq_nil_iff
  rw [hend, allBlank, List.all_eq_true]
  constructor
  · intro htrimmed c hc
    rw [← List.takeWhile_append_dropWhile (p := Text.isBlank) (l := cs)] at hc
    rcases List.mem_append.1 hc with hfront | hback
    · exact List.all_eq_true.1 List.all_takeWhile c hfront
    · exact htrimmed c hback
  · intro hall c hc
    exact hall c ((List.dropWhile_sublist _).mem hc)

/-- A text that denotes a query has tokens. -/
theorem tokenize_ne_nil_of_parse {text : String} {query : Query} (h : parse text = .ok query) :
    tokenize text ≠ [] := by
  obtain ⟨first, hfirst⟩ := (parse_eq_ok_iff_derives.1 h).exists_first
  intro hnil
  rw [hnil] at hfirst
  cases hfirst

/-! ## Outcomes -/

/-- Whether a refusal comes from a guard, and not from what stands in the text. -/
def Refusal.OfGuard : Refusal → Prop
  | noInput => True
  | tooLong _ _ => True
  | tooDeep _ _ => True
  | _ => False

namespace Limits

/-- Limits are looser if each of their bounds is absent, or no smaller than that of the others. -/
instance : LE Limits where
  le limits looser :=
    (∀ bound ∈ looser.length, ∃ stricter ∈ limits.length, stricter ≤ bound) ∧
      ∀ bound ∈ looser.depth, ∃ stricter ∈ limits.depth, stricter ≤ bound

/-- What a check of a text comes to, and when. -/
inductive Outcome (limits : Limits) (text : String) : Except Refusal Query → Prop
  | blank (htokens : tokenize text = []) : Outcome limits text (.error .noInput)
  | tooLong {bound : Nat} (htokens : tokenize text ≠ []) (hbound : limits.length = some bound)
      (hlt : bound < byteLength text.toList) :
      Outcome limits text (.error (.tooLong (byteLength text.toList) bound))
  | malformed {error : SyntaxError} (htokens : tokenize text ≠ [])
      (hlength : ∀ bound ∈ limits.length, byteLength text.toList ≤ bound)
      (hparse : parse text = .error error) : Outcome limits text (.error (.malformed error))
  | tooDeep {query : Query} {bound : Nat}
      (hlength : ∀ bound ∈ limits.length, byteLength text.toList ≤ bound)
      (hparse : parse text = .ok query) (hbound : limits.depth = some bound)
      (hlt : bound < query.depth) : Outcome limits text (.error (.tooDeep query.depth bound))
  | passed {query : Query} (hlength : ∀ bound ∈ limits.length, byteLength text.toList ≤ bound)
      (hparse : parse text = .ok query) (hdepth : ∀ bound ∈ limits.depth, query.depth ≤ bound) :
      Outcome limits text (.ok query)

section

variable {limits : Limits} {text : String}

theorem exceeded?_of_lt {size bound : Nat} (h : bound < size) :
    exceeded? size (some bound) = some bound :=
  if_pos h

theorem exceeded?_eq_none {size : Nat} {limit : Option Nat} (h : ∀ bound ∈ limit, size ≤ bound) :
    exceeded? size limit = none := by
  cases limit with
  | none => rfl
  | some bound => exact if_neg (Nat.not_lt.2 (h bound rfl))

theorem check_of_blank (h : tokenize text = []) : limits.check text = .error .noInput := by
  unfold check checkLogged
  rw [if_pos (tokenize_eq_nil_iff.1 h)]
  rfl

theorem check_of_tooLong {bound : Nat} (h : tokenize text ≠ [])
    (hbound : limits.length = some bound) (hlt : bound < byteLength text.toList) :
    limits.check text = .error (.tooLong (byteLength text.toList) bound) := by
  unfold check checkLogged
  rw [if_neg (fun hblank => h (tokenize_eq_nil_iff.2 hblank)), hbound, exceeded?_of_lt hlt]
  rfl

/-- A text that is neither blank nor too long is parsed, and then its depth is looked at. -/
theorem check_of_le (h : tokenize text ≠ [])
    (hlength : ∀ bound ∈ limits.length, byteLength text.toList ≤ bound) :
    limits.check text = ((parse text).mapError .malformed).bind limits.checkDepth := by
  unfold check checkLogged
  rw [if_neg (fun hblank => h (tokenize_eq_nil_iff.2 hblank)), exceeded?_eq_none hlength]
  rfl

/-- What is said of an outcome is what the check comes to. -/
theorem Outcome.check_eq {outcome : Except Refusal Query} (h : Outcome limits text outcome) :
    limits.check text = outcome := by
  cases h with
  | blank htokens => exact check_of_blank htokens
  | tooLong htokens hbound hlt => exact check_of_tooLong htokens hbound hlt
  | malformed htokens hlength hparse =>
    rw [check_of_le htokens hlength, hparse]
    rfl
  | @tooDeep query bound hlength hparse hbound hlt =>
    rw [check_of_le (tokenize_ne_nil_of_parse hparse) hlength, hparse]
    show limits.checkDepth query = _
    rw [checkDepth, hbound, exceeded?_of_lt hlt]
  | @passed query hlength hparse hdepth =>
    rw [check_of_le (tokenize_ne_nil_of_parse hparse) hlength, hparse]
    show limits.checkDepth query = _
    rw [checkDepth, exceeded?_eq_none hdepth]

/-- A bound is exceeded by a size, or it is not. -/
theorem exceeds_or_le (size : Nat) (limit : Option Nat) :
    (∃ bound, limit = some bound ∧ bound < size) ∨ ∀ bound ∈ limit, size ≤ bound := by
  cases limit with
  | none =>
    right
    intro bound hbound
    cases hbound
  | some bound =>
    by_cases hlt : bound < size
    · exact .inl ⟨bound, rfl, hlt⟩
    · right
      rintro _ ⟨⟩
      exact Nat.not_lt.1 hlt

/-- Every check has one of the outcomes. -/
theorem exists_outcome (limits : Limits) (text : String) :
    ∃ outcome, Outcome limits text outcome := by
  by_cases htokens : tokenize text = []
  · exact ⟨_, .blank htokens⟩
  rcases exceeds_or_le (byteLength text.toList) limits.length with ⟨bound, hbound, hlt⟩ | hlength
  · exact ⟨_, .tooLong htokens hbound hlt⟩
  cases hparse : parse text with
  | error error => exact ⟨_, .malformed htokens hlength hparse⟩
  | ok query =>
    rcases exceeds_or_le query.depth limits.depth with ⟨bound, hbound, hlt⟩ | hdepth
    · exact ⟨_, .tooDeep hlength hparse hbound hlt⟩
    · exact ⟨_, .passed hlength hparse hdepth⟩

/-- A check comes to just what is said of its outcome. -/
theorem check_eq_iff {outcome : Except Refusal Query} :
    limits.check text = outcome ↔ Outcome limits text outcome := by
  constructor
  · rintro rfl
    obtain ⟨outcome, houtcome⟩ := exists_outcome limits text
    rw [houtcome.check_eq]
    exact houtcome
  · exact Outcome.check_eq

theorem check_eq_noInput_iff : limits.check text = .error .noInput ↔ tokenize text = [] := by
  constructor
  · intro h
    cases check_eq_iff.1 h with
    | blank htokens => exact htokens
  · exact check_of_blank

theorem check_eq_tooLong_iff {length bound : Nat} :
    limits.check text = .error (.tooLong length bound) ↔
      tokenize text ≠ [] ∧ limits.length = some bound ∧ bound < length ∧
        length = byteLength text.toList := by
  constructor
  · intro h
    cases check_eq_iff.1 h with
    | tooLong htokens hbound hlt => exact ⟨htokens, hbound, hlt, rfl⟩
  · rintro ⟨htokens, hbound, hlt, rfl⟩
    exact check_of_tooLong htokens hbound hlt

theorem check_eq_tooDeep_iff {depth bound : Nat} :
    limits.check text = .error (.tooDeep depth bound) ↔
      (∀ bound ∈ limits.length, byteLength text.toList ≤ bound) ∧
        ∃ query, parse text = .ok query ∧ query.depth = depth ∧ limits.depth = some bound ∧
          bound < depth := by
  constructor
  · intro h
    cases check_eq_iff.1 h with
    | tooDeep hlength hparse hbound hlt => exact ⟨hlength, _, hparse, rfl, hbound, hlt⟩
  · rintro ⟨hlength, query, hparse, rfl, hbound, hlt⟩
    exact Outcome.check_eq (.tooDeep hlength hparse hbound hlt)

/-- Looser limits let through what stricter ones do. -/
theorem check_mono {looser : Limits} (hle : limits ≤ looser) {query : Query}
    (h : limits.check text = .ok query) : looser.check text = .ok query := by
  obtain ⟨hlooserLength, hlooserDepth⟩ := hle
  cases check_eq_iff.1 h with
  | passed hlength hparse hdepth =>
    apply Outcome.check_eq
    refine .passed (fun bound hbound => ?_) hparse (fun bound hbound => ?_)
    · obtain ⟨stricter, hstricter, hbound⟩ := hlooserLength bound hbound
      exact Nat.le_trans (hlength stricter hstricter) hbound
    · obtain ⟨stricter, hstricter, hbound⟩ := hlooserDepth bound hbound
      exact Nat.le_trans (hdepth stricter hstricter) hbound

/-- If no guard refuses a text, the check is what parsing comes to. -/
theorem ofGuard_or_parse (limits : Limits) (text : String) :
    (∃ refusal, limits.check text = .error refusal ∧ refusal.OfGuard) ∨
      limits.check text = (parse text).mapError .malformed := by
  obtain ⟨outcome, houtcome⟩ := exists_outcome limits text
  have hcheck := houtcome.check_eq
  cases houtcome with
  | blank => exact .inl ⟨_, hcheck, trivial⟩
  | tooLong => exact .inl ⟨_, hcheck, trivial⟩
  | tooDeep => exact .inl ⟨_, hcheck, trivial⟩
  | malformed _ _ hparse =>
    right
    rw [hcheck, hparse]
    rfl
  | passed _ hparse =>
    right
    rw [hcheck, hparse]
    rfl

theorem check_unlimited (h : tokenize text ≠ []) :
    check ⟨none, none⟩ text = (parse text).mapError .malformed := by
  refine (ofGuard_or_parse ⟨none, none⟩ text).resolve_left ?_
  rintro ⟨refusal, hcheck, hguard⟩
  -- there is no bound that a guard could go by
  cases check_eq_iff.1 hcheck with
  | blank htokens => exact h htokens
  | tooLong _ hbound => cases hbound
  | tooDeep _ _ hbound => cases hbound
  | malformed => exact hguard

end

end Limits

/--
What the guards of a check do, for all texts and limits. A text is taken for no input exactly if it
has no tokens, that is, if trimming leaves nothing of it. Without limits a check is parsing. Looser
limits let through what stricter ones do. A text that is not blank and too long is refused, whatever
stands in it; one is refused for its depth only if it denotes a query that is deeper than the bound.
If no guard refuses the text, the check is parsing, whatever the limits.
-/
theorem guards_of_check (limits : Limits) (text : String) :
    (limits.check text = .error .noInput ↔ tokenize text = []) ∧
      (tokenize text = [] ↔ trimEnd (trimStart text.toList) = []) ∧
      (tokenize text ≠ [] → Limits.check ⟨none, none⟩ text = (parse text).mapError .malformed) ∧
      (∀ looser query, limits ≤ looser → limits.check text = .ok query →
        looser.check text = .ok query) ∧
      (∀ length bound, limits.check text = .error (.tooLong length bound) ↔
        tokenize text ≠ [] ∧ limits.length = some bound ∧ bound < length ∧
          length = byteLength text.toList) ∧
      (∀ depth bound, limits.check text = .error (.tooDeep depth bound) ↔
        (∀ bound ∈ limits.length, byteLength text.toList ≤ bound) ∧
          ∃ query, parse text = .ok query ∧ query.depth = depth ∧ limits.depth = some bound ∧
            bound < depth) ∧
      ((∃ refusal, limits.check text = .error refusal ∧ refusal.OfGuard) ∨
        limits.check text = (parse text).mapError .malformed) :=
  ⟨Limits.check_eq_noInput_iff, tokenize_eq_nil_iff.trans trim_eq_nil_iff.symm,
    Limits.check_unlimited, fun _ _ hle h => Limits.check_mono hle h,
    fun _ _ => Limits.check_eq_tooLong_iff, fun _ _ => Limits.check_eq_tooDeep_iff,
    Limits.ofGuard_or_parse limits text⟩

/-- Three levels in seventeen bytes: refused for the length, for the depth, and let through. -/
theorem guards_of_nested_query :
    ∃ query, parse " and(or(eq(a,1)))" = .ok query ∧
      Limits.check ⟨some 16, some 2⟩ " and(or(eq(a,1)))" = .error (.tooLong 17 16) ∧
      Limits.check ⟨some 17, some 2⟩ " and(or(eq(a,1)))" = .error (.tooDeep 3 2) ∧
      Limits.check ⟨some 17, none⟩ " and(or(eq(a,1)))" = .ok query := by
  have hparse : parse " and(or(eq(a,1)))" =
      .ok (.combination .and [.combination .or [.comparison .eq "a" (.integer 1)]]) := by
    cbv
  have hlength : byteLength " and(or(eq(a,1)))".toList = 17 := by cbv
  have htokens := tokenize_ne_nil_of_parse hparse
  have hfits : ∀ bound ∈ some 17, byteLength " and(or(eq(a,1)))".toList ≤ bound := by
    rintro _ ⟨⟩
    exact Nat.le_of_eq hlength
  obtain ⟨-, -, -, -, hlong, -⟩ := guards_of_check ⟨some 16, some 2⟩ " and(or(eq(a,1)))"
  obtain ⟨-, -, -, -, -, hdeep, -⟩ := guards_of_check ⟨some 17, some 2⟩ " and(or(eq(a,1)))"
  obtain ⟨-, -, -, hlooser, -⟩ := guards_of_check ⟨some 17, some 3⟩ " and(or(eq(a,1)))"
  refine ⟨_, hparse, ?_, ?_, ?_⟩
  · exact (hlong 17 16).2 ⟨htokens, rfl, by decide, hlength.symm⟩
  · exact (hdeep 3 2).2 ⟨hfits, _, hparse, rfl, rfl, by decide⟩
  · apply hlooser ⟨some 17, none⟩
    · refine ⟨fun bound hbound => ⟨bound, hbound, Nat.le_refl bound⟩, ?_⟩
      intro bound hbound
      cases hbound
    · apply Limits.Outcome.check_eq
      refine .passed hfits hparse ?_
      rintro _ ⟨⟩
      exact Nat.le_refl 3

end ResourceQuery
