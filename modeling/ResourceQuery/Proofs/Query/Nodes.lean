import ResourceQuery.Query.Basic

/-!
# The nodes of a query tree

A tree as the list of its nodes, each before the ones below it and these from the left to the
right. What holds of all nodes holds of a tree at every depth.
-/

namespace ResourceQuery.Query

/-- Induction on a tree: a combination follows from its operands. -/
@[elab_as_elim]
theorem induction {motive : Query → Prop}
    (comparison : ∀ op property value, motive (comparison op property value))
    (combination : ∀ op operands, (∀ operand ∈ operands, motive operand) →
      motive (combination op operands))
    (sort : ∀ fields, motive (sort fields))
    (limit : ∀ count skip, motive (limit count skip))
    (membership : ∀ op property values, motive (membership op property values))
    (query : Query) : motive query := by
  refine Query.rec (motive_1 := motive) (motive_2 := fun queries => ∀ query ∈ queries, motive query)
    comparison combination sort limit membership ?_ ?_ query
  · exact List.forall_mem_nil _
  · exact fun _ _ hquery hqueries => List.forall_mem_cons.2 ⟨hquery, hqueries⟩

mutual

/-- The nodes of a tree. -/
def nodes : Query → List Query
  | combination op operands => combination op operands :: nodesOfAll operands
  | query => [query]

/-- The nodes of some trees, one tree after the other. -/
def nodesOfAll : List Query → List Query
  | [] => []
  | query :: queries => query.nodes ++ nodesOfAll queries

end

theorem mem_nodesOfAll {node : Query} {queries : List Query} :
    node ∈ nodesOfAll queries ↔ ∃ query ∈ queries, node ∈ query.nodes := by
  induction queries with
  | nil => simp [nodesOfAll]
  | cons query queries ih => simp [nodesOfAll, ih]

theorem nodesOfAll_append (xs ys : List Query) :
    nodesOfAll (xs ++ ys) = nodesOfAll xs ++ nodesOfAll ys := by
  induction xs with
  | nil => rfl
  | cons query xs ih => rw [List.cons_append, nodesOfAll, nodesOfAll, ih, List.append_assoc]

/-- What is no combination has no nodes below it. -/
theorem nodes_of_leaf {query : Query} (h : ∀ op operands, query ≠ combination op operands) :
    query.nodes = [query] := by
  cases query with
  | combination op operands => exact absurd rfl (h op operands)
  | _ => rfl

theorem nodes_ne_nil (query : Query) : query.nodes ≠ [] := by
  cases query <;> exact List.cons_ne_nil _ _

theorem nodesOfAll_ne_nil {queries : List Query} (h : queries ≠ []) : nodesOfAll queries ≠ [] := by
  cases queries with
  | nil => exact absurd rfl h
  | cons query queries => exact List.append_ne_nil_of_left_ne_nil query.nodes_ne_nil _

theorem depthOfAll_append (xs ys : List Query) :
    depthOfAll (xs ++ ys) = max (depthOfAll xs) (depthOfAll ys) := by
  induction xs with
  | nil => rw [depthOfAll, List.nil_append, Nat.zero_max]
  | cons query xs ih => rw [List.cons_append, depthOfAll, depthOfAll, ih, Nat.max_assoc]

/-! ## Depth -/

/-- The depth of the deepest query right below the root. -/
def levelsBelow : Query → Nat
  | combination _ operands => depthOfAll operands
  | _ => 0

theorem depth_eq (query : Query) : query.depth = 1 + query.levelsBelow := by
  cases query with
  | combination op operands => rw [depth, levelsBelow]
  | _ => rfl

theorem one_le_depth (query : Query) : 1 ≤ query.depth := by
  rw [depth_eq]
  exact Nat.le_add_right 1 _

theorem depth_of_sort_or_limit {query : Query}
    (h : query.operation = .sort ∨ query.operation = .limit) : query.depth = 1 := by
  cases query with
  | combination => rcases h with h | h <;> cases h
  | _ => rfl

end ResourceQuery.Query
