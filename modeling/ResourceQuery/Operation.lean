/-!
# Operations

The operations that a query is made of. Each is named by one keyword, which is also the name
that the query tree shows.
-/

namespace ResourceQuery

/-- A test of a property against one value. -/
inductive Comparison
  | eq
  | ne
  | lt
  | gt
  | lte
  | gte
  | like
deriving DecidableEq

/-- A way to combine queries. -/
inductive Combinator
  | and
  | or
deriving DecidableEq

/-- A test of a property against a list of values. -/
inductive Membership
  | inside
  | outside
deriving DecidableEq

/-- The order of a sort field. -/
inductive Direction
  | asc
  | desc
deriving DecidableEq

/-- A field is sorted upwards unless its direction is given. -/
instance : Inhabited Direction := ⟨.asc⟩

namespace Comparison

def word : Comparison → String
  | eq => "eq"
  | ne => "ne"
  | lt => "lt"
  | gt => "gt"
  | lte => "lte"
  | gte => "gte"
  | like => "like"

def all : List Comparison :=
  [eq, ne, lt, gt, lte, gte, like]

end Comparison

namespace Combinator

def word : Combinator → String
  | and => "and"
  | or => "or"

def all : List Combinator :=
  [and, or]

end Combinator

namespace Membership

def word : Membership → String
  | inside => "in"
  | outside => "out"

def all : List Membership :=
  [inside, outside]

end Membership

namespace Direction

def word : Direction → String
  | asc => "asc"
  | desc => "desc"

def all : List Direction :=
  [asc, desc]

end Direction

/-- An operation of the query language. -/
inductive Operation
  | comparison (op : Comparison)
  | combination (op : Combinator)
  | sort
  | limit
  | membership (op : Membership)
deriving DecidableEq

namespace Operation

/-- The keyword of an operation. -/
def word : Operation → String
  | comparison op => op.word
  | combination op => op.word
  | sort => "sort"
  | limit => "limit"
  | membership op => op.word

/-- The operations in the order of the keyword table. -/
def all : List Operation :=
  Comparison.all.map comparison ++ Combinator.all.map combination ++ [sort, limit]
    ++ Membership.all.map membership

/-- The operation that a text names; case counts. -/
def ofWord? (text : String) : Option Operation :=
  all.find? fun op => op.word = text

theorem mem_all (op : Operation) : op ∈ all := by
  rcases op with (_ | _) | (_ | _) | _ | _ | (_ | _) <;> decide

theorem ofWord?_word (op : Operation) : ofWord? op.word = some op := by
  rcases op with (_ | _) | (_ | _) | _ | _ | (_ | _) <;> decide

theorem word_of_ofWord? {text : String} {op : Operation} (h : ofWord? text = some op) :
    op.word = text := by
  simpa using List.find?_some h

end Operation

end ResourceQuery
