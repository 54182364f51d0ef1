import ResourceQuery.Query.Basic

/-!
# The form of a query tree

What is left of a query when its names and values are forgotten: the operations, the directions,
the variants of the values, and how many parts there are of each.
-/

namespace ResourceQuery

/-- The variant of a literal. -/
inductive LiteralForm
  | integer
  | float
  | text
deriving DecidableEq

/-- A query without names and values. -/
inductive QueryForm
  | comparison (op : Comparison) (value : LiteralForm)
  | combination (op : Combinator) (operands : List QueryForm)
  | sort (directions : List Direction)
  | limit
  | membership (op : Membership) (values : List LiteralForm)

def Literal.form : Literal → LiteralForm
  | integer _ => .integer
  | float _ => .float
  | text _ => .text

namespace Query

mutual

def form : Query → QueryForm
  | comparison op _ value => .comparison op value.form
  | combination op operands => .combination op (formsOf operands)
  | sort fields => .sort (fields.map SortField.direction)
  | limit _ _ => .limit
  | membership op _ values => .membership op (values.map Literal.form)

/-- The forms of some queries. -/
def formsOf : List Query → List QueryForm
  | [] => []
  | query :: queries => query.form :: formsOf queries

end

theorem formsOf_append (queries queries' : List Query) :
    formsOf (queries ++ queries') = formsOf queries ++ formsOf queries' := by
  induction queries with
  | nil => rfl
  | cons query queries ih => rw [List.cons_append, formsOf, ih, formsOf, List.cons_append]

end Query

/-- A sign does not change the variant of a number. -/
theorem Literal.form_negated (value : Literal) : value.negated.form = value.form := by
  cases value <;> rfl

end ResourceQuery
