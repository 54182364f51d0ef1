import ResourceQuery.Literal
import ResourceQuery.Operation

/-!
# Query trees

A query is an operation with its arguments; only combinations hold further queries. A tree may
be one that no query text denotes, such as a combination of nothing.
-/

namespace ResourceQuery

/-- A property to sort by, with its order. -/
structure SortField where
  property : String
  direction : Direction
deriving DecidableEq

/-- A query. -/
inductive Query
  /-- The property compares so with the value. -/
  | comparison (op : Comparison) (property : String) (value : Literal)
  /-- The queries combined, in the order in which they are written. -/
  | combination (op : Combinator) (operands : List Query)
  /-- The order of the answer, the field that counts most first. -/
  | sort (fields : List SortField)
  /-- At most `limit` items, after the first `skip` of them. -/
  | limit (limit : UInt64) (skip : UInt64)
  /-- The property is, or is not, one of the values. -/
  | membership (op : Membership) (property : String) (values : List Literal)

namespace Query

/-- The operation at the root. -/
def operation : Query → Operation
  | comparison op _ _ => .comparison op
  | combination op _ => .combination op
  | sort _ => .sort
  | limit _ _ => .limit
  | membership op _ _ => .membership op

/-- The property that the root itself tests. -/
def property? : Query → Option String
  | comparison _ property _ => some property
  | membership _ property _ => some property
  | _ => none

mutual

/-- The number of operations on the longest way from the root down. -/
def depth : Query → Nat
  | combination _ operands => 1 + depthOfAll operands
  | _ => 1

/-- The depth of the deepest of some queries, zero for none. -/
def depthOfAll : List Query → Nat
  | [] => 0
  | query :: queries => max query.depth (depthOfAll queries)

end

mutual

/-- Equality of queries, in which floats compare as numbers. -/
def same : Query → Query → Bool
  | comparison op property value, comparison op' property' value' =>
    op = op' && property = property' && value == value'
  | combination op operands, combination op' operands' =>
    op = op' && sameAll operands operands'
  | sort fields, sort fields' => fields = fields'
  | limit count skip, limit count' skip' => count = count' && skip = skip'
  | membership op property values, membership op' property' values' =>
    op = op' && property = property' && values == values'
  | _, _ => false

/-- Equality of lists of queries. -/
def sameAll : List Query → List Query → Bool
  | [], [] => true
  | query :: queries, query' :: queries' => query.same query' && sameAll queries queries'
  | _, _ => false

end

instance : BEq Query := ⟨same⟩

end Query

end ResourceQuery
