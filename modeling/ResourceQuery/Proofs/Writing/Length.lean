import Mathlib
import ResourceQuery.Proofs.Query.Nodes
import ResourceQuery.Proofs.Query.WellFormed
import ResourceQuery.Proofs.Token.Segmentation
import ResourceQuery.Proofs.Writing.Combining

/-!
# How long a query must be

A query that is nested deep has a long text: each combination takes a keyword of two letters at
least and two parentheses, and the innermost query takes seven bytes. So the length of a text
bounds the depth of its query before the text is read.
-/

namespace ResourceQuery

open Grammar (Arguments Closed Derives Field Joined Value)
open Text (byteLength byteLength_append byteLength_cons)

/-- The bytes of some tokens, without the blanks around them. -/
def width (tokens : List Token) : Nat :=
  (tokens.map fun token => byteLength token.text.toList).sum

@[simp]
theorem width_nil : width [] = 0 := rfl

@[simp]
theorem width_cons (token : Token) (tokens : List Token) :
    width (token :: tokens) = byteLength token.text.toList + width tokens :=
  List.sum_cons

@[simp]
theorem width_append (xs ys : List Token) : width (xs ++ ys) = width xs + width ys := by
  rw [width, List.map_append, List.sum_append]
  rfl

/-! ## The tokens of a text -/

theorem Cut.width_le {cs : List Char} {position : Nat} {tokens : List Token}
    (h : Cut cs position tokens) : width tokens ≤ byteLength cs := by
  induction h with
  | nil => exact Nat.zero_le _
  | cons _ _ _ ih =>
    rw [width_cons, byteLength_append, byteLength_append]
    omega

theorem width_tokenize_le (text : String) : width (tokenize text) ≤ byteLength text.toList :=
  (Lexer.cut_tokens (Lexer.ofString text)).width_le

namespace Token.Proper

variable {token : Token}

theorem one_le_width (h : token.Proper) : 1 ≤ byteLength token.text.toList := by
  refine byteLength_pos ?_
  rcases h.mark_or_word with ⟨mark, hmark⟩ | hword
  · rw [hmark]
    exact List.cons_ne_nil _ _
  · exact hword.ne_nil

theorem width_keyword (h : token.Proper) {op : Operation} (hkind : token.kind = .keyword op) :
    byteLength token.text.toList = byteLength op.word.toList := by
  have hhas := h.hasKind
  rw [hkind] at hhas
  generalize token.text.toList = cs at hhas
  cases hhas
  rfl

end Token.Proper

theorem length_le_width {tokens : List Token} (h : ∀ token ∈ tokens, token.Proper) :
    tokens.length ≤ width tokens := by
  induction tokens with
  | nil => exact Nat.le_refl 0
  | cons token tokens ih =>
    obtain ⟨htoken, htokens⟩ := List.forall_mem_cons.1 h
    have hwidth := htoken.one_le_width
    have hrest := ih htokens
    rw [List.length_cons, width_cons]
    omega

theorem two_le_width_word (op : Operation) : 2 ≤ byteLength op.word.toList := by
  cases op with
  | comparison op => cases op <;> decide
  | combination op => cases op <;> decide
  | membership op => cases op <;> decide
  | _ => decide

/-! ## The tokens of a query -/

/-- Tokens of a text that are as wide as it takes to nest a query so deep. -/
def Wide (tokens : List Token) (query : Query) : Prop :=
  (∀ token ∈ tokens, token.Proper) → 4 * query.depth + 3 ≤ width tokens

namespace Grammar

theorem Value.ne_nil {tokens : List Token} {value : Literal} (h : Value tokens value) :
    tokens ≠ [] := by
  cases h <;> exact List.cons_ne_nil _ _

theorem Field.ne_nil {tokens : List Token} {field : SortField} (h : Field tokens field) :
    tokens ≠ [] := by
  cases h <;> exact List.cons_ne_nil _ _

theorem Joined.tokens_ne_nil {α : Type} {item : List Token → α → Prop} {tokens : List Token}
    {xs : List α} (hitem : ∀ tokens x, item tokens x → tokens ≠ []) (h : Joined item tokens xs) :
    tokens ≠ [] := by
  cases h with
  | one hone => exact hitem _ _ hone
  | more => exact List.append_ne_nil_of_right_ne_nil _ (List.cons_ne_nil _ _)

/-- Operands are as wide as the deepest of them has to be. -/
theorem Joined.depth_le_width {tokens : List Token} {queries : List Query}
    (h : Joined Wide tokens queries) (hproper : ∀ token ∈ tokens, token.Proper) :
    4 * Query.depthOfAll queries + 3 ≤ width tokens := by
  induction h with
  | one hitem =>
    have hwidth := hitem hproper
    rw [Query.depthOfAll, Query.depthOfAll]
    omega
  | more _ _ hitem ih =>
    obtain ⟨hbefore, hbehind⟩ := List.forall_mem_append.1 hproper
    have hwidth := ih hbefore
    have hlast := hitem (List.forall_mem_cons.1 hbehind).2
    rw [Query.depthOfAll_append, Query.depthOfAll, Query.depthOfAll, width_append, width_cons]
    omega

/-- A keyword and the arguments of a query are as wide as it takes, but for the parentheses. -/
theorem Arguments.depth_le_width {tokens : List Token} {query : Query}
    (h : Arguments Wide tokens query) (hproper : ∀ token ∈ tokens, token.Proper) :
    4 * query.depth + 1 ≤ byteLength query.operation.word.toList + width tokens := by
  have hlength := length_le_width hproper
  have hword := two_le_width_word query.operation
  have hsort : byteLength Operation.sort.word.toList = 4 := by decide
  have hlimit : byteLength Operation.limit.word.toList = 5 := by decide
  -- only combinations are deeper than one level
  cases h with
  | combination hoperands =>
    have hoperands' := hoperands.depth_le_width hproper
    rw [Query.depth]
    omega
  | comparison _ _ hvalue =>
    have hvalue' := List.length_pos_of_ne_nil hvalue.ne_nil
    rw [List.length_cons, List.length_cons] at hlength
    show 4 * 1 + 1 ≤ _
    omega
  | sort hfields =>
    have hfields' := List.length_pos_of_ne_nil (hfields.tokens_ne_nil fun _ _ h => h.ne_nil)
    show 4 * 1 + 1 ≤ byteLength Operation.sort.word.toList + _
    omega
  | limit =>
    rw [List.length_singleton] at hlength
    show 4 * 1 + 1 ≤ byteLength Operation.limit.word.toList + _
    omega
  | limitSkip =>
    show 4 * 1 + 1 ≤ byteLength Operation.limit.word.toList + _
    omega
  | noMembers =>
    rw [List.length_cons, List.length_cons, List.length_cons] at hlength
    show 4 * 1 + 1 ≤ _
    omega
  | members =>
    rw [List.length_cons, List.length_cons, List.length_cons] at hlength
    show 4 * 1 + 1 ≤ _
    omega

theorem Closed.wide {tokens : List Token} {query : Query} (h : Closed tokens query) :
    Wide tokens query := by
  refine Closed.induction ?step h
  case step =>
    intro keyword opening closing tokens query hkeyword hopening harguments hclosing hproper
    simp only [List.forall_mem_cons, List.forall_mem_append] at hproper
    obtain ⟨hkeyword', hopening', hinner, hclosing', -⟩ := hproper
    have hwidth := (harguments.mono fun _ _ hoperand => hoperand.2).depth_le_width hinner
    have hword := hkeyword'.width_keyword hkeyword
    have hopen := hopening'.one_le_width
    have hclose := hclosing'.one_le_width
    simp only [width_cons, width_append, width_nil]
    omega

end Grammar

/-- Six bytes are the least; below the first level it takes seven, and four for each level more. -/
theorem Grammar.Derives.depth_le_width {tokens : List Token} {query : Query}
    (h : Derives tokens query) (hproper : ∀ token ∈ tokens, token.Proper) :
    6 ≤ width tokens ∧ (2 ≤ query.depth → 4 * query.depth + 3 ≤ width tokens) := by
  cases h with
  | closed hclosed =>
    have hwidth := hclosed.wide hproper
    have hdepth := query.one_le_depth
    exact ⟨by omega, fun _ => hwidth⟩
  | unclosed hkeyword hopening harguments hoperation =>
    -- a query that is left open is no combination
    simp only [List.forall_mem_cons] at hproper
    obtain ⟨hkeyword', hopening', hinner⟩ := hproper
    have hwidth := (harguments.mono fun _ _ hclosed => hclosed.wide).depth_le_width hinner
    have hword := hkeyword'.width_keyword hkeyword
    have hopen := hopening'.one_le_width
    have hdepth := Query.depth_of_sort_or_limit hoperation
    rw [hdepth] at hwidth
    simp only [width_cons]
    exact ⟨by omega, fun hdeep => by omega⟩

theorem length_of_parse {text : String} {query : Query} (h : parse text = .ok query) :
    6 ≤ byteLength text.toList ∧
      (2 ≤ query.depth → 4 * query.depth + 3 ≤ byteLength text.toList) := by
  have hproper : ∀ token ∈ tokenize text, token.Proper := fun _ => proper_of_mem_tokenize
  obtain ⟨hleast, hdeep⟩ := (parse_eq_ok_iff_derives.1 h).depth_le_width hproper
  have hwidth := width_tokenize_le text
  exact ⟨hleast.trans hwidth, fun hdepth => (hdeep hdepth).trans hwidth⟩

/-! ## The shortest texts -/

/-- A sort in so many combinations of one operand each. -/
def deepQuery : Nat → Query
  | 0 => .sort [⟨"a", .asc⟩]
  | n + 1 => .combination .or [deepQuery n]

def deepText : Nat → String
  | 0 => "sort(a)"
  | n + 1 => combined .or [deepText n]

theorem depth_deepQuery (n : Nat) : (deepQuery n).depth = n + 1 := by
  induction n with
  | zero => rfl
  | succ n ih =>
    rw [deepQuery, Query.depth, Query.depthOfAll, Query.depthOfAll, ih]
    omega

theorem byteLength_deepText (n : Nat) : byteLength (deepText n).toList = 4 * n + 7 := by
  induction n with
  | zero => decide
  | succ n ih =>
    have hword : byteLength Combinator.or.word.toList = 2 := by decide
    have hopen : Mark.openParen.char.utf8Size = 1 := by decide
    have hclose : Mark.closeParen.char.utf8Size = 1 := by decide
    rw [deepText, toList_combined, call, commas, List.map_singleton, List.intercalate_singleton,
      Operation.word, byteLength_append, byteLength_cons, byteLength_append, byteLength_cons,
      Text.byteLength_nil, hword, hopen, hclose, ih]
    omega

theorem closes_deepText (n : Nat) : Closes (deepText n) (deepQuery n) := by
  induction n with
  | zero => exact ⟨by cbv, ⟨.mark .closeParen, ")", 6⟩, by cbv, rfl⟩
  | succ n ih =>
    have hoperands : ∀ operand ∈ [(deepText n, deepQuery n)], Closes operand.1 operand.2 :=
      List.forall_mem_singleton.2 ih
    exact closes_combined .or hoperands (List.cons_ne_nil _ _)

end ResourceQuery
