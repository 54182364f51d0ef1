import ResourceQuery.Query.Basic
import ResourceQuery.Token.Basic

/-!
# The grammar of queries

Which token lists denote which queries. The grammar says nothing of an order of reading: a
production puts the token lists of its parts one behind the other.

A query is a keyword with its arguments between parentheses. Only at the end of the whole list may
the closing parenthesis be missing, and only that of a sort or a limit; an operand of a combination
always has a token behind it, so it is closed.
-/

namespace ResourceQuery.Grammar

/-- One or more items with a comma between any two. -/
inductive Joined {α : Type} (item : List Token → α → Prop) : List Token → List α → Prop
  | one {tokens : List Token} {x : α} (hitem : item tokens x) : Joined item tokens [x]
  | more {tokens last : List Token} {comma : Token} {xs : List α} {x : α}
      (hbefore : Joined item tokens xs) (hcomma : comma.kind = .mark .comma)
      (hitem : item last x) : Joined item (tokens ++ comma :: last) (xs ++ [x])

/-- A number, read from the text of its token. -/
inductive Number : Token → Literal → Prop
  | integer {token : Token} {n : Int64} (hkind : token.kind = .integer)
      (hread : token.integer? = some n) : Number token (.integer n)
  | float {token : Token} {x : Binary64} (hkind : token.kind = .float)
      (hread : token.float? = some x) : Number token (.float x)

/-- A value: a text, or a number that may bear a sign. -/
inductive Value : List Token → Literal → Prop
  | text {token : Token} (hkind : token.kind = .text) : Value [token] (.text token.text)
  | number {token : Token} {value : Literal} (hnumber : Number token value) : Value [token] value
  | plus {sign token : Token} {value : Literal} (hsign : sign.kind = .mark .plus)
      (hnumber : Number token value) : Value [sign, token] value
  | minus {sign token : Token} {value : Literal} (hsign : sign.kind = .mark .minus)
      (hnumber : Number token value) : Value [sign, token] value.negated

/-- A count, read from the text of its token. -/
def Count (token : Token) (count : UInt64) : Prop :=
  token.kind = .integer ∧ token.count? = some count

/-- A sort field: a property that may bear a sign; a minus sorts downwards. -/
inductive Field : List Token → SortField → Prop
  | bare {name : Token} (hname : name.kind = .text) : Field [name] ⟨name.text, .asc⟩
  | plus {sign name : Token} (hsign : sign.kind = .mark .plus) (hname : name.kind = .text) :
      Field [sign, name] ⟨name.text, .asc⟩
  | minus {sign name : Token} (hsign : sign.kind = .mark .minus) (hname : name.kind = .text) :
      Field [sign, name] ⟨name.text, .desc⟩

/-- What stands between the parentheses of a query, given which token lists are operands. -/
inductive Arguments (operand : List Token → Query → Prop) : List Token → Query → Prop
  | comparison {name comma : Token} {tokens : List Token} {op : Comparison} {value : Literal}
      (hname : name.kind = .text) (hcomma : comma.kind = .mark .comma)
      (hvalue : Value tokens value) :
      Arguments operand (name :: comma :: tokens) (.comparison op name.text value)
  | combination {tokens : List Token} {op : Combinator} {operands : List Query}
      (hoperands : Joined operand tokens operands) :
      Arguments operand tokens (.combination op operands)
  | sort {tokens : List Token} {fields : List SortField} (hfields : Joined Field tokens fields) :
      Arguments operand tokens (.sort fields)
  | limit {token : Token} {count : UInt64} (hcount : Count token count) :
      Arguments operand [token] (.limit count 0)
  | limitSkip {token comma token' : Token} {count skip : UInt64} (hcount : Count token count)
      (hcomma : comma.kind = .mark .comma) (hskip : Count token' skip) :
      Arguments operand [token, comma, token'] (.limit count skip)
  | noMembers {name comma opening closing : Token} {op : Membership}
      (hname : name.kind = .text) (hcomma : comma.kind = .mark .comma)
      (hopening : opening.kind = .mark .openBracket)
      (hclosing : closing.kind = .mark .closeBracket) :
      Arguments operand [name, comma, opening, closing] (.membership op name.text [])
  | members {name comma opening closing : Token} {tokens : List Token} {op : Membership}
      {values : List Literal} (hname : name.kind = .text) (hcomma : comma.kind = .mark .comma)
      (hopening : opening.kind = .mark .openBracket) (hvalues : Joined Value tokens values)
      (hclosing : closing.kind = .mark .closeBracket) :
      Arguments operand (name :: comma :: opening :: (tokens ++ [closing]))
        (.membership op name.text values)

/-- A query with both its parentheses. -/
inductive Closed : List Token → Query → Prop
  | intro {keyword opening closing : Token} {tokens : List Token} {query : Query}
      (hkeyword : keyword.kind = .keyword query.operation)
      (hopening : opening.kind = .mark .openParen) (harguments : Arguments Closed tokens query)
      (hclosing : closing.kind = .mark .closeParen) :
      Closed (keyword :: opening :: (tokens ++ [closing])) query

/-- A token list that denotes a query as a whole: nothing follows it. -/
inductive Derives : List Token → Query → Prop
  | closed {tokens : List Token} {query : Query} (hclosed : Closed tokens query) :
      Derives tokens query
  /-- A sort or a limit may be left open where the list ends. -/
  | unclosed {keyword opening : Token} {tokens : List Token} {query : Query}
      (hkeyword : keyword.kind = .keyword query.operation)
      (hopening : opening.kind = .mark .openParen) (harguments : Arguments Closed tokens query)
      (hoperation : query.operation = .sort ∨ query.operation = .limit) :
      Derives (keyword :: opening :: tokens) query

/-! ## Lists of items -/

section Joined

variable {α : Type} {item : List Token → α → Prop}

/-- An item may also be put in front. -/
theorem Joined.cons {first tokens : List Token} {comma : Token} {x : α} {xs : List α}
    (hitem : item first x) (hcomma : comma.kind = .mark .comma) (h : Joined item tokens xs) :
    Joined item (first ++ comma :: tokens) (x :: xs) := by
  induction h with
  | one hlast => exact .more (.one hitem) hcomma hlast
  | @more before last _ ys y _ hcomma' hlast ih =>
    have hmore := Joined.more ih hcomma' hlast
    simpa using hmore

theorem Joined.mono {item' : List Token → α → Prop}
    (himp : ∀ tokens x, item tokens x → item' tokens x) {tokens : List Token} {xs : List α}
    (h : Joined item tokens xs) : Joined item' tokens xs := by
  induction h with
  | one hitem => exact .one (himp _ _ hitem)
  | more _ hcomma hitem ih => exact .more ih hcomma (himp _ _ hitem)

/-- Items of which a part is what counts. -/
theorem Joined.map {β : Type} {item : List Token → β → Prop} {part : α → β} {tokens : List Token}
    {xs : List α} (h : Joined (fun spelt x => item spelt (part x)) tokens xs) :
    Joined item tokens (xs.map part) := by
  induction h with
  | one hitem => exact .one hitem
  | more _ hcomma hitem ih =>
    rw [List.map_append]
    exact .more ih hcomma hitem

theorem Joined.ne_nil {tokens : List Token} {xs : List α} (h : Joined item tokens xs) :
    xs ≠ [] := by
  cases h with
  | one => exact List.cons_ne_nil _ _
  | more => exact List.append_ne_nil_of_right_ne_nil _ (List.cons_ne_nil _ _)

/-- What all tokens are like is carried to each item. -/
theorem Joined.forall_mem {P : Token → Prop} {Q : α → Prop}
    (hcarry : ∀ tokens x, (∀ token ∈ tokens, P token) → item tokens x → Q x)
    {tokens : List Token} {xs : List α} (hall : ∀ token ∈ tokens, P token)
    (h : Joined item tokens xs) : ∀ x ∈ xs, Q x := by
  induction h with
  | one hitem => exact List.forall_mem_singleton.2 (hcarry _ _ hall hitem)
  | more _ _ hitem ih =>
    obtain ⟨hbefore, hbehind⟩ := List.forall_mem_append.1 hall
    obtain ⟨-, hlast⟩ := List.forall_mem_cons.1 hbehind
    refine List.forall_mem_append.2 ⟨ih hbefore, ?_⟩
    exact List.forall_mem_singleton.2 (hcarry _ _ hlast hitem)

/-- What holds of commas and of the tokens of each item holds of all tokens. -/
theorem Joined.forall_tokens {P : Token → Prop}
    (hcomma : ∀ token : Token, token.kind = .mark .comma → P token)
    (hitem : ∀ tokens x, item tokens x → ∀ token ∈ tokens, P token) {tokens : List Token}
    {xs : List α} (h : Joined item tokens xs) : ∀ token ∈ tokens, P token := by
  induction h with
  | one hone => exact hitem _ _ hone
  | more _ hkind hlast ih =>
    refine List.forall_mem_append.2 ⟨ih, List.forall_mem_cons.2 ⟨hcomma _ hkind, ?_⟩⟩
    exact hitem _ _ hlast

end Joined

theorem Arguments.mono {operand operand' : List Token → Query → Prop}
    (himp : ∀ tokens query, operand tokens query → operand' tokens query) {tokens : List Token}
    {query : Query} (h : Arguments operand tokens query) : Arguments operand' tokens query := by
  cases h with
  | comparison hname hcomma hvalue => exact .comparison hname hcomma hvalue
  | combination hoperands => exact .combination (hoperands.mono himp)
  | sort hfields => exact .sort hfields
  | limit hcount => exact .limit hcount
  | limitSkip hcount hcomma hskip => exact .limitSkip hcount hcomma hskip
  | noMembers hname hcomma hopening hclosing => exact .noMembers hname hcomma hopening hclosing
  | members hname hcomma hopening hvalues hclosing =>
    exact .members hname hcomma hopening hvalues hclosing

/-! ## Sort fields -/

theorem Field.kind_of_mem {tokens : List Token} {field : SortField} (h : Field tokens field) :
    ∀ token ∈ tokens,
      token.kind = .text ∨ token.kind = .mark .plus ∨ token.kind = .mark .minus := by
  cases h with
  | bare hname => exact List.forall_mem_singleton.2 (.inl hname)
  | plus hsign hname =>
    exact List.forall_mem_cons.2 ⟨.inr (.inl hsign), List.forall_mem_singleton.2 (.inl hname)⟩
  | minus hsign hname =>
    exact List.forall_mem_cons.2 ⟨.inr (.inr hsign), List.forall_mem_singleton.2 (.inl hname)⟩

theorem Field.ne_mark {tokens : List Token} {field : SortField} (h : Field tokens field)
    {mark : Mark} (hplus : mark ≠ .plus) (hminus : mark ≠ .minus) :
    ∀ token ∈ tokens, token.kind ≠ .mark mark := by
  intro token htoken hmark
  rcases h.kind_of_mem token htoken with hkind | hkind | hkind
  · rw [hmark] at hkind
    cases hkind
  · exact hplus (Kind.mark.inj (hmark.symm.trans hkind))
  · exact hminus (Kind.mark.inj (hmark.symm.trans hkind))

/-! ## The ends of a query -/

/-- What stands behind the arguments: a parenthesis, or nothing if it may be left out. -/
inductive Ending (op : Operation) : List Token → Prop
  | closing {token : Token} (hkind : token.kind = .mark .closeParen) : Ending op [token]
  | nothing (hoperation : op = .sort ∨ op = .limit) : Ending op []

/-- A token list that denotes a query is its arguments, with what stands before and behind them. -/
theorem derives_iff_ending {tokens : List Token} {query : Query} :
    Derives tokens query ↔ ∃ keyword opening inner ending,
      tokens = keyword :: opening :: (inner ++ ending) ∧ keyword.kind = .keyword query.operation ∧
        opening.kind = .mark .openParen ∧ Arguments Closed inner query ∧
        Ending query.operation ending := by
  constructor
  · intro h
    cases h with
    | closed hclosed =>
      cases hclosed with
      | intro hkeyword hopening harguments hclosing =>
        exact ⟨_, _, _, _, rfl, hkeyword, hopening, harguments, .closing hclosing⟩
    | @unclosed keyword opening inner _ hkeyword hopening harguments hoperation =>
      refine ⟨keyword, opening, inner, [], ?_, hkeyword, hopening, harguments, .nothing hoperation⟩
      rw [List.append_nil]
  · rintro ⟨keyword, opening, inner, ending, rfl, hkeyword, hopening, harguments, hending⟩
    cases hending with
    | closing hkind => exact .closed (.intro hkeyword hopening harguments hkind)
    | nothing hoperation =>
      rw [List.append_nil]
      exact .unclosed hkeyword hopening harguments hoperation

/-! ## Induction on a query -/

/--
To show something of every closed query, show it of one whose arguments are well formed and whose
operands, if it has any, satisfy it.
-/
@[elab_as_elim]
theorem Closed.induction {motive : List Token → Query → Prop}
    (step : ∀ {keyword opening closing : Token} {tokens : List Token} {query : Query},
      keyword.kind = .keyword query.operation → opening.kind = .mark .openParen →
      Arguments (fun tokens query => Closed tokens query ∧ motive tokens query) tokens query →
      closing.kind = .mark .closeParen →
      motive (keyword :: opening :: (tokens ++ [closing])) query)
    {tokens : List Token} {query : Query} (h : Closed tokens query) : motive tokens query := by
  let operand := fun tokens query => Closed tokens query ∧ motive tokens query
  refine @Closed.rec (fun tokens query _ => motive tokens query)
    (fun tokens query _ => Arguments operand tokens query)
    (fun tokens queries _ => Joined operand tokens queries)
    ?intro ?comparison ?combination ?sort ?limit ?limitSkip ?noMembers ?members ?one ?more
    tokens query h
  case intro => exact fun hkeyword hopening _ hclosing ih => step hkeyword hopening ih hclosing
  case comparison => exact fun hname hcomma hvalue => .comparison hname hcomma hvalue
  case combination => exact fun _ ih => .combination ih
  case sort => exact fun hfields => .sort hfields
  case limit => exact fun hcount => .limit hcount
  case limitSkip => exact fun hcount hcomma hskip => .limitSkip hcount hcomma hskip
  case noMembers => exact fun hname hcomma hopening => .noMembers hname hcomma hopening
  case members =>
    exact fun hname hcomma hopening hvalues => .members hname hcomma hopening hvalues
  case one => exact fun hclosed ih => .one ⟨hclosed, ih⟩
  case more => exact fun _ hcomma hclosed ih ih' => .more ih hcomma ⟨hclosed, ih'⟩

/-! ## Counting tokens -/

/-- The number of tokens of a kind. -/
def countOf (kind : Kind) (tokens : List Token) : Nat :=
  tokens.countP fun token => token.is kind

@[simp]
theorem countOf_nil (kind : Kind) : countOf kind [] = 0 := rfl

@[simp]
theorem countOf_append (kind : Kind) (xs ys : List Token) :
    countOf kind (xs ++ ys) = countOf kind xs + countOf kind ys :=
  List.countP_append

@[simp]
theorem countOf_cons (kind : Kind) (token : Token) (tokens : List Token) :
    countOf kind (token :: tokens) = countOf kind tokens + if token.kind = kind then 1 else 0 := by
  simp [countOf, List.countP_cons, Token.is]

end ResourceQuery.Grammar
