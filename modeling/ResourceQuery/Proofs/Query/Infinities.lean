import ResourceQuery.Proofs.Query.Decoding
import ResourceQuery.Proofs.Query.Equality

/-!
# Infinite values in JSON

A number too large for a float is accepted and read as infinite, and an infinite float is null in
JSON, with either sign. This is all that the JSON text of a query leaves open: two queries have the
same text exactly if they differ in the signs of infinite values only.
-/

namespace ResourceQuery

/-! ## Values as their documents tell them -/

namespace Literal

/-- The value as its document tells it: what is not finite is taken for infinite without a sign. -/
def faded : Literal → Literal
  | float x =>
    if x.isFinite then float x else float ⟨false, Binary64.infinity, Binary64.infinity_lt⟩
  | value => value

/-- The value of a document, in which null stands for what is not finite. -/
def ofFaded? : Json → Option Literal
  | .null => some (float ⟨false, Binary64.infinity, Binary64.infinity_lt⟩)
  | json => ofDocument? json

theorem faded_of_finite {value : Literal} (h : value.Finite) : value.faded = value := by
  cases value with
  | integer n => rfl
  | float x => exact if_pos h
  | text s => rfl

/-- A value that is not finite is faded, and its document is null. -/
theorem eq_float_of_not_finite {value : Literal} (h : ¬value.Finite) :
    value.faded = float ⟨false, Binary64.infinity, Binary64.infinity_lt⟩ ∧
      value.document = .null := by
  cases value with
  | integer n => exact absurd trivial h
  | float x => exact ⟨if_neg h, if_neg h⟩
  | text s => exact absurd trivial h

theorem document_ne_null {value : Literal} (h : value.Finite) : value.document ≠ .null := by
  intro hnull
  have hread := ofDocument?_document h
  rw [hnull] at hread
  cases hread

theorem document_faded (value : Literal) : value.faded.document = value.document := by
  by_cases hfinite : value.Finite
  · rw [faded_of_finite hfinite]
  · obtain ⟨hfaded, hnull⟩ := eq_float_of_not_finite hfinite
    rw [hfaded, hnull]
    rfl

theorem ofFaded?_document (value : Literal) : ofFaded? value.document = some value.faded := by
  by_cases hfinite : value.Finite
  · have hread := ofDocument?_document hfinite
    have hnull := document_ne_null hfinite
    rw [faded_of_finite hfinite, ← hread]
    unfold ofFaded?
    split
    next hdocument => exact absurd hdocument hnull
    next => rfl
  · obtain ⟨hfaded, hnull⟩ := eq_float_of_not_finite hfinite
    rw [hfaded, hnull]
    rfl

/-- A value equals itself, unless it is not a number. -/
theorem same_self_of_finite {value : Literal} (h : value.Finite) : value.same value := by
  cases value with
  | integer n => exact decide_eq_true rfl
  | float x =>
    have hnumber : x.isNaN = false :=
      decide_eq_false (Nat.lt_asymm (of_decide_eq_true h))
    simp [same, Binary64.same, hnumber]
  | text s => exact decide_eq_true rfl

end Literal

namespace Query

/-! ## Trees with the same text -/

/-- The document of a tree tells no more of its values than their documents. -/
theorem document_mapLiterals {f : Literal → Literal}
    (h : ∀ value, (f value).document = value.document) (query : Query) :
    (query.mapLiterals f).document = query.document := by
  induction query using Query.induction with
  | comparison op property value => rw [mapLiterals, document, document, h]
  | combination op operands ih =>
    have hoperands : documents (mapLiteralsOfAll f operands) = documents operands := by
      rw [documents_eq_map, documents_eq_map, mapLiteralsOfAll_eq_map, List.map_map]
      exact List.map_congr_left ih
    rw [mapLiterals, document, document, hoperands]
  | sort fields => rfl
  | limit count skip => rfl
  | membership op property values =>
    have hvalues : (values.map f).map Literal.document = values.map Literal.document := by
      rw [List.map_map]
      exact List.map_congr_left fun value _ => h value
    rw [mapLiterals, document, document, hvalues]

/-- Two trees have the same text exactly if they are the same once faded. -/
theorem toJson_eq_iff_faded {query query' : Query} (spacing : Json.Spacing) :
    query.toJson spacing = query'.toJson spacing ↔
      query.mapLiterals Literal.faded = query'.mapLiterals Literal.faded := by
  constructor
  · intro htext
    have hdocument : query.document = query'.document := by
      have hread := query.read?_toJson spacing
      rw [htext, query'.read?_toJson spacing] at hread
      exact (Option.some.inj hread).symm
    have hfaded : ∀ query : Query, ofDocument? Literal.ofFaded? query.document =
        some (query.mapLiterals Literal.faded) :=
      fun query => ofDocument?_document fun value _ => value.ofFaded?_document
    rw [← Option.some_inj, ← hfaded, ← hfaded, hdocument]
  · intro hfaded
    have hdocument : query.document = query'.document := by
      rw [← document_mapLiterals Literal.document_faded query, hfaded,
        document_mapLiterals Literal.document_faded query']
    rw [toJson, toJson, hdocument]

/-- A tree with the text of a finite one is finite as well. -/
theorem finite_of_faded_eq {query query' : Query} (h : query.Finite)
    (hfaded : query.mapLiterals Literal.faded = query'.mapLiterals Literal.faded) :
    query'.Finite := by
  intro value hvalue
  by_contra hinfinite
  -- the faded value would be a value of the finite tree
  have hmem : value.faded ∈ query.literals.map Literal.faded := by
    rw [← literals_mapLiterals, hfaded, literals_mapLiterals]
    exact List.mem_map_of_mem hvalue
  obtain ⟨value', hvalue', heq⟩ := List.mem_map.1 hmem
  have hfinite := h value' hvalue'
  rw [Literal.faded_of_finite hfinite, (Literal.eq_float_of_not_finite hinfinite).1] at heq
  rw [heq] at hfinite
  exact absurd hfinite (by decide)

/-- A tree equals itself if its values do. -/
theorem same_self {query : Query} (h : ∀ value ∈ query.literals, value.same value) :
    query.same query :=
  beq_self_iff.2 fun value hvalue => (Literal.beq_iff.1 (h value hvalue)).1

/-! ## Accepted queries -/

/-- A value of an accepted query is null in JSON exactly if it is infinite. -/
theorem document_eq_null_iff {value : Literal} (h : value.WellFormed) :
    value.document = .null ↔ ∃ x, value = .float x ∧ x.magnitude = Binary64.infinity := by
  constructor
  · intro hnull
    cases value with
    | integer n => exact absurd hnull (Literal.document_ne_null trivial)
    | text s => cases hnull
    | float x =>
      have hnumber : ¬Binary64.infinity < x.magnitude := of_decide_eq_false h
      have hinfinite : ¬x.magnitude < Binary64.infinity := by
        intro hlt
        have hfinite : (Literal.float x).Finite := decide_eq_true hlt
        exact Literal.document_ne_null hfinite hnull
      exact ⟨x, rfl, by omega⟩
  · rintro ⟨x, rfl, hmagnitude⟩
    refine (Literal.eq_float_of_not_finite fun hfinite => ?_).2
    have hlt : x.magnitude < Binary64.infinity := of_decide_eq_true hfinite
    omega

/--
Two accepted queries have the same JSON text exactly if they differ in the signs of infinite
values only. An infinite value is null, and no other value is; so the text of a query with finite
values belongs to this query alone.
-/
theorem toJson_eq_iff_of_parse {text text' : String} {query query' : Query}
    (h : parse text = .ok query) (h' : parse text' = .ok query') :
    (query.toJson .compact = query'.toJson .compact ↔
      query.mapLiterals Literal.faded = query'.mapLiterals Literal.faded) ∧
    (∀ value ∈ query.literals, value.document = .null ↔
      ∃ x, value = .float x ∧ x.magnitude = Binary64.infinity) ∧
    (query.Finite → query.toJson .compact = query'.toJson .compact →
      query = query' ∧ query.same query') := by
  refine ⟨toJson_eq_iff_faded .compact, fun value hvalue => ?_, fun hfinite htext => ?_⟩
  · have hwell := wellFormed_of_derives (fun _ => proper_of_mem_tokenize)
      (parse_eq_ok_iff_derives.1 h)
    exact document_eq_null_iff (wellFormed_of_mem_literals hwell hvalue)
  · have hfaded := (toJson_eq_iff_faded .compact).1 htext
    have hfinite' := finite_of_faded_eq hfinite hfaded
    have hequal : query = query' := by
      have hself : query.mapLiterals Literal.faded = query :=
        mapLiterals_eq_self fun value hvalue => Literal.faded_of_finite (hfinite value hvalue)
      have hself' : query'.mapLiterals Literal.faded = query' :=
        mapLiterals_eq_self fun value hvalue => Literal.faded_of_finite (hfinite' value hvalue)
      rw [← hself, hfaded, hself']
    subst hequal
    exact ⟨rfl, same_self fun value hvalue => Literal.same_self_of_finite (hfinite value hvalue)⟩

/-- Among other values, a number too large and its opposite leave the text the same. -/
theorem json_blind_to_sign_of_infinity :
    ∃ query query' : Query, parse "and(out(a,[1e400,x]),eq(b,-7))" = .ok query ∧
      parse "and(out(a,[-1e400,x]),eq(b,-7))" = .ok query' ∧
      query.toJson .compact = query'.toJson .compact := by
  have hparse : parse "and(out(a,[1e400,x]),eq(b,-7))" =
      .ok (.combination .and
        [.membership .outside "a" [.float ⟨false, 0x7FF0000000000000, by decide⟩, .text "x"],
          .comparison .eq "b" (.integer (-7))]) := by
    cbv
  have hparse' : parse "and(out(a,[-1e400,x]),eq(b,-7))" =
      .ok (.combination .and
        [.membership .outside "a" [.float ⟨true, 0x7FF0000000000000, by decide⟩, .text "x"],
          .comparison .eq "b" (.integer (-7))]) := by
    cbv
  exact ⟨_, _, hparse, hparse', (toJson_eq_iff_of_parse hparse hparse').1.2 rfl⟩

/-- Two accepted queries that are not equal and have the same text, with null for their values. -/
theorem infinite_values_confused :
    ∃ query query' : Query, parse "eq(a,1e400)" = .ok query ∧ parse "eq(a,-1e400)" = .ok query' ∧
      query.toJson .compact = query'.toJson .compact ∧ query.same query' = false ∧
      query.literals.map Literal.document = [.null] := by
  have hparse : parse "eq(a,1e400)" =
      .ok (.comparison .eq "a" (.float ⟨false, 0x7FF0000000000000, by decide⟩)) := by
    cbv
  have hparse' : parse "eq(a,-1e400)" =
      .ok (.comparison .eq "a" (.float ⟨true, 0x7FF0000000000000, by decide⟩)) := by
    cbv
  exact ⟨_, _, hparse, hparse', (toJson_eq_iff_faded .compact).2 rfl, rfl, rfl⟩

end Query

end ResourceQuery
