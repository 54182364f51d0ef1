import Mathlib.Data.List.Basic
import ResourceQuery.Proofs.Query.Nodes

/-!
# The values of a query tree

All values that a tree holds, at every depth, and the tree with each of them replaced.
-/

namespace ResourceQuery

/-- A value that is no float, or a finite one. -/
def Literal.Finite : Literal → Prop
  | float x => x.isFinite
  | _ => True

instance : DecidablePred Literal.Finite
  | .integer _ => isTrue trivial
  | .float x => inferInstanceAs (Decidable (x.isFinite = true))
  | .text _ => isTrue trivial

namespace Query

/-- The values that a node holds itself. -/
def ownLiterals : Query → List Literal
  | comparison _ _ value => [value]
  | membership _ _ values => values
  | _ => []

/-- The values of a tree. -/
def literals (query : Query) : List Literal :=
  query.nodes.flatMap ownLiterals

/-- A tree whose floats are all finite. -/
def Finite (query : Query) : Prop :=
  ∀ value ∈ query.literals, value.Finite

instance (query : Query) : Decidable query.Finite :=
  inferInstanceAs (Decidable (∀ value ∈ query.literals, value.Finite))

theorem literals_comparison (op : Comparison) (property : String) (value : Literal) :
    (comparison op property value).literals = [value] :=
  List.append_nil _

theorem literals_membership (op : Membership) (property : String) (values : List Literal) :
    (membership op property values).literals = values :=
  List.append_nil _

/-- The values of a combination are those of its operands. -/
theorem literals_combination (op : Combinator) (operands : List Query) :
    (combination op operands).literals = operands.flatMap literals := by
  have hall : ∀ queries : List Query,
      (nodesOfAll queries).flatMap ownLiterals = queries.flatMap literals := by
    intro queries
    induction queries with
    | nil => rfl
    | cons query queries ih =>
      rw [nodesOfAll, List.flatMap_append, ih, List.flatMap_cons, literals]
  exact hall operands

theorem mem_literals_combination {op : Combinator} {operands : List Query} {value : Literal} :
    value ∈ (combination op operands).literals ↔
      ∃ operand ∈ operands, value ∈ operand.literals := by
  rw [literals_combination, List.mem_flatMap]

mutual

/-- The tree with each value replaced. -/
def mapLiterals (f : Literal → Literal) : Query → Query
  | comparison op property value => comparison op property (f value)
  | combination op operands => combination op (mapLiteralsOfAll f operands)
  | sort fields => sort fields
  | limit count skip => limit count skip
  | membership op property values => membership op property (values.map f)

/-- Some trees with each of their values replaced. -/
def mapLiteralsOfAll (f : Literal → Literal) : List Query → List Query
  | [] => []
  | query :: queries => query.mapLiterals f :: mapLiteralsOfAll f queries

end

theorem mapLiteralsOfAll_eq_map (f : Literal → Literal) (queries : List Query) :
    mapLiteralsOfAll f queries = queries.map (mapLiterals f) := by
  induction queries with
  | nil => rfl
  | cons query queries ih => rw [mapLiteralsOfAll, ih, List.map_cons]

/-! ## Trees with replaced values -/

section

variable {f : Literal → Literal} {query : Query}

/-- A tree stays as it is if its values do. -/
theorem mapLiterals_eq_self (h : ∀ value ∈ query.literals, f value = value) :
    query.mapLiterals f = query := by
  induction query using Query.induction with
  | comparison op property value =>
    rw [literals_comparison, List.forall_mem_singleton] at h
    rw [mapLiterals, h]
  | combination op operands ih =>
    have hoperands : operands.map (mapLiterals f) = operands.map id :=
      List.map_congr_left fun operand hoperand => ih operand hoperand fun value hvalue =>
        h value (mem_literals_combination.2 ⟨operand, hoperand, hvalue⟩)
    rw [mapLiterals, mapLiteralsOfAll_eq_map, hoperands, List.map_id]
  | sort fields => rfl
  | limit count skip => rfl
  | membership op property values =>
    rw [literals_membership] at h
    rw [mapLiterals, List.map_congr_left h, List.map_id']

/-- The values of the tree are those that have been put in. -/
theorem literals_mapLiterals (query : Query) :
    (query.mapLiterals f).literals = query.literals.map f := by
  induction query using Query.induction with
  | comparison op property value => rfl
  | combination op operands ih =>
    rw [mapLiterals, mapLiteralsOfAll_eq_map, literals_combination, literals_combination,
      List.flatMap_map, List.map_flatMap]
    exact List.flatMap_congr ih
  | sort fields => rfl
  | limit count skip => rfl
  | membership op property values =>
    rw [mapLiterals, literals_membership, literals_membership]

theorem operation_mapLiterals (query : Query) :
    (query.mapLiterals f).operation = query.operation := by
  cases query <;> rfl

theorem property?_mapLiterals (query : Query) :
    (query.mapLiterals f).property? = query.property? := by
  cases query <;> rfl

/-- The values do not count for the depth. -/
theorem depth_mapLiterals (query : Query) : (query.mapLiterals f).depth = query.depth := by
  induction query using Query.induction with
  | comparison op property value => rfl
  | combination op operands ih =>
    have hoperands : depthOfAll (operands.map (mapLiterals f)) = depthOfAll operands := by
      induction operands with
      | nil => rfl
      | cons operand operands ihAll =>
        obtain ⟨hoperand, hrest⟩ := List.forall_mem_cons.1 ih
        rw [List.map_cons, depthOfAll, depthOfAll, hoperand, ihAll hrest]
    rw [mapLiterals, mapLiteralsOfAll_eq_map, depth, depth, hoperands]
  | sort fields => rfl
  | limit count skip => rfl
  | membership op property values => rfl

end

end Query

end ResourceQuery
