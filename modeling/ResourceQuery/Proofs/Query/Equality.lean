import ResourceQuery.Proofs.Query.Literals
import ResourceQuery.Proofs.Query.WellFormed
import ResourceQuery.Query.Document

/-!
# Equality of query trees

Trees are equal if they have the same form and equal values, and floats are equal as numbers: both
zeros are equal, and what is not a number equals nothing. So equality is that of the trees with
every zero given the positive sign, as far as all of their values equal themselves.
-/

namespace ResourceQuery

/-! ## Values -/

namespace Binary64

/-- The number, with the positive sign if it is zero. -/
def unsignZero (x : Binary64) : Binary64 :=
  { x with negative := x.negative && !x.isZero }

/-- Numbers are equal if they are the same up to the sign of zero, and are numbers. -/
theorem same_iff {x y : Binary64} :
    x.same y ↔ x.isNaN = false ∧ x.unsignZero = y.unsignZero := by
  obtain ⟨negative, magnitude, hlt⟩ := x
  obtain ⟨negative', magnitude', hlt'⟩ := y
  by_cases hmagnitude : magnitude = magnitude'
  · subst hmagnitude
    by_cases hzero : magnitude = 0
    · simp [same, unsignZero, isNaN, isZero, hzero]
    · simp [same, unsignZero, isNaN, isZero, hzero]
  · simp [same, unsignZero, hmagnitude]

end Binary64

namespace Literal

def isNaN : Literal → Bool
  | float x => x.isNaN
  | _ => false

/-- The value, with the positive sign if it is a floating zero. -/
def unsignZero : Literal → Literal
  | float x => float x.unsignZero
  | value => value

/-- The sign of a zero does not decide what is a number. -/
theorem isNaN_unsignZero (value : Literal) : value.unsignZero.isNaN = value.isNaN := by
  cases value <;> rfl

theorem beq_iff {value value' : Literal} :
    value == value' ↔ value.isNaN = false ∧ value.unsignZero = value'.unsignZero := by
  show value.same value' ↔ _
  cases value with
  | integer n => cases value' <;> simp [same, isNaN, unsignZero]
  | float x => cases value' <;> simp [same, isNaN, unsignZero, Binary64.same_iff]
  | text s => cases value' <;> simp [same, isNaN, unsignZero]

end Literal

/-- If items are equal exactly if they are regular and have the same image, so are lists of them. -/
theorem list_beq_iff {α β : Type} [BEq α] {regular : α → Prop} {image : α → β} (xs ys : List α)
    (h : ∀ x ∈ xs, ∀ y, x == y ↔ regular x ∧ image x = image y) :
    xs == ys ↔ (∀ x ∈ xs, regular x) ∧ xs.map image = ys.map image := by
  induction xs generalizing ys with
  | nil => cases ys <;> simp
  | cons x xs ih =>
    obtain ⟨hx, hxs⟩ := List.forall_mem_cons.1 h
    cases ys with
    | nil => simp
    | cons y ys =>
      rw [List.cons_beq_cons, Bool.and_eq_true, hx y, ih ys hxs, List.forall_mem_cons,
        List.map_cons, List.map_cons, List.cons.injEq]
      exact and_and_and_comm

namespace Query

/-! ## Trees -/

theorem sameAll_eq_beq (queries queries' : List Query) :
    sameAll queries queries' = (queries == queries') := by
  induction queries generalizing queries' with
  | nil => cases queries' <;> rfl
  | cons query queries ih =>
    cases queries' with
    | nil => rfl
    | cons query' queries' =>
      rw [sameAll, ih, List.cons_beq_cons]
      rfl

/-- Trees are equal if they are the same up to the signs of zeros, and all values are numbers. -/
theorem beq_iff {query query' : Query} :
    query == query' ↔ (∀ value ∈ query.literals, value.isNaN = false) ∧
      query.mapLiterals Literal.unsignZero = query'.mapLiterals Literal.unsignZero := by
  show query.same query' ↔ _
  induction query using Query.induction generalizing query' with
  | comparison op property value =>
    rw [literals_comparison, List.forall_mem_singleton]
    cases query' with
    | comparison op' property' value' =>
      simp only [same, mapLiterals, Bool.and_eq_true, decide_eq_true_iff, Literal.beq_iff,
        comparison.injEq]
      tauto
    | _ => simp [same, mapLiterals]
  | combination op operands ih =>
    cases query' with
    | combination op' operands' =>
      have hoperands := list_beq_iff operands operands' fun operand hoperand _ =>
        ih operand hoperand
      rw [literals_combination, List.forall_mem_flatMap]
      simp only [same, mapLiterals, Bool.and_eq_true, decide_eq_true_iff, sameAll_eq_beq,
        hoperands, mapLiteralsOfAll_eq_map, combination.injEq]
      tauto
    | _ => simp [same, mapLiterals]
  | sort fields =>
    cases query' <;> simp [same, mapLiterals, literals, nodes, ownLiterals]
  | limit count skip =>
    cases query' <;> simp [same, mapLiterals, literals, nodes, ownLiterals]
  | membership op property values =>
    rw [literals_membership]
    cases query' with
    | membership op' property' values' =>
      have hvalues := list_beq_iff values values' fun _ _ _ => Literal.beq_iff
      simp only [same, mapLiterals, Bool.and_eq_true, decide_eq_true_iff, hvalues,
        membership.injEq]
      tauto
    | _ => simp [same, mapLiterals]

/-- What is no number is in both of two trees the same up to the signs of zeros, or in neither. -/
theorem isNaN_of_unsignZero_eq {query query' : Query}
    (h : ∀ value ∈ query.literals, value.isNaN = false)
    (heq : query.mapLiterals Literal.unsignZero = query'.mapLiterals Literal.unsignZero) :
    ∀ value ∈ query'.literals, value.isNaN = false := by
  intro value' hvalue'
  have hmem : value'.unsignZero ∈ query.literals.map Literal.unsignZero := by
    rw [← literals_mapLiterals, heq, literals_mapLiterals]
    exact List.mem_map_of_mem hvalue'
  obtain ⟨value, hvalue, hunsigned⟩ := List.mem_map.1 hmem
  rw [← value'.isNaN_unsignZero, ← hunsigned, value.isNaN_unsignZero]
  exact h value hvalue

theorem beq_symm {query query' : Query} (h : query == query') : query' == query := by
  obtain ⟨hnumbers, heq⟩ := beq_iff.1 h
  exact beq_iff.2 ⟨isNaN_of_unsignZero_eq hnumbers heq, heq.symm⟩

theorem beq_trans {query query' query'' : Query} (h : query == query') (h' : query' == query'') :
    query == query'' := by
  obtain ⟨hnumbers, heq⟩ := beq_iff.1 h
  obtain ⟨-, heq'⟩ := beq_iff.1 h'
  exact beq_iff.2 ⟨hnumbers, heq.trans heq'⟩

theorem beq_self_iff {query : Query} :
    query == query ↔ ∀ value ∈ query.literals, value.isNaN = false := by
  rw [beq_iff, and_iff_left rfl]

theorem wellFormed_of_mem_literals {query : Query} (h : query.WellFormed) {value : Literal}
    (hvalue : value ∈ query.literals) : value.WellFormed := by
  obtain ⟨node, hnode, hown⟩ := List.mem_flatMap.1 hvalue
  have hwell := h node hnode
  cases node with
  | comparison _ _ value' =>
    rw [List.mem_singleton.1 hown]
    exact hwell.2
  | membership _ _ values => exact hwell.2 value hown
  | combination _ _ => cases hown
  | sort _ => cases hown
  | limit _ _ => cases hown

/-- No number of a text is read as what is not a number. -/
theorem beq_self_of_parse {text : String} {query : Query} (h : parse text = .ok query) :
    query == query := by
  rw [beq_self_iff]
  intro value hvalue
  have htree := wellFormed_of_derives (fun _ => proper_of_mem_tokenize)
    (parse_eq_ok_iff_derives.1 h)
  have hwell := wellFormed_of_mem_literals htree hvalue
  cases value with
  | integer n => rfl
  | float x => exact hwell
  | text s => rfl

/--
Equality of trees is symmetric and transitive, and a tree equals itself exactly if each of its
floats is a number, as they are in the tree that a text denotes. Equal trees have the same
operation, depth and property, and the same JSON text once their zeros have the positive sign.
-/
theorem equality_of_trees (query query' query'' : Query) :
    (query == query') = (query' == query) ∧
      (query == query' → query' == query'' → query == query'') ∧
      (query == query ↔ ∀ value ∈ query.literals, value.isNaN = false) ∧
      (∀ text, parse text = .ok query → query == query) ∧
      (query == query' → query.operation = query'.operation ∧ query.depth = query'.depth ∧
        query.property? = query'.property? ∧
        (query.mapLiterals Literal.unsignZero).toJson .compact =
          (query'.mapLiterals Literal.unsignZero).toJson .compact) := by
  refine ⟨Bool.eq_iff_iff.2 ⟨beq_symm, beq_symm⟩, beq_trans, beq_self_iff,
    fun _ => beq_self_of_parse, fun h => ?_⟩
  obtain ⟨-, heq⟩ := beq_iff.1 h
  refine ⟨?_, ?_, ?_, by rw [heq]⟩
  · rw [← query.operation_mapLiterals, heq, operation_mapLiterals]
  · rw [← query.depth_mapLiterals, heq, depth_mapLiterals]
  · rw [← query.property?_mapLiterals, heq, property?_mapLiterals]

/-- What is not a number keeps a tree from equaling itself, however deep. -/
example :
    let nan : Literal := .float ⟨false, 0x7FF8000000000000, by decide⟩
    let query : Query := .combination .and [.membership .inside "a" [.text "b", nan]]
    (query == query) = false := by
  decide

/-- Zeros of both signs below a combination: other values, and equal trees. -/
theorem equality_of_signed_zeros :
    ∃ query query', parse "or(eq(a,0.0))" = .ok query ∧ parse "or(eq(a,-0.0))" = .ok query' ∧
      query.literals ≠ query'.literals ∧ query == query' ∧ query' == query ∧
      (query.mapLiterals Literal.unsignZero).toJson .compact =
        (query'.mapLiterals Literal.unsignZero).toJson .compact := by
  have hparse : parse "or(eq(a,0.0))" =
      .ok (.combination .or [.comparison .eq "a" (.float ⟨false, 0, by decide⟩)]) := by
    cbv
  have hparse' : parse "or(eq(a,-0.0))" =
      .ok (.combination .or [.comparison .eq "a" (.float ⟨true, 0, by decide⟩)]) := by
    cbv
  have hequal : combination .or [.comparison .eq "a" (.float ⟨false, 0, by decide⟩)] ==
      combination .or [.comparison .eq "a" (.float ⟨true, 0, by decide⟩)] := by
    decide
  obtain ⟨hsymm, -, -, -, hagree⟩ := equality_of_trees
    (combination .or [.comparison .eq "a" (.float ⟨false, 0, by decide⟩)])
    (combination .or [.comparison .eq "a" (.float ⟨true, 0, by decide⟩)]) (.sort [])
  obtain ⟨-, -, -, hjson⟩ := hagree hequal
  exact ⟨_, _, hparse, hparse', by decide, hequal, hsymm ▸ hequal, hjson⟩

end Query

end ResourceQuery
