import Mathlib
import ResourceQuery.Proofs.Query.WellFormed

/-!
# What a tree takes from its tokens

A tree holds what its tokens say, in the order in which they say it. The tokens of a query fall
into pieces, one for each node and in the order of the nodes: a piece begins with the keyword of
its node, and its texts and numbers are those that the node holds itself.
-/

namespace ResourceQuery

open Grammar (Arguments Closed Count Derives Field Joined Number Value derives_iff_ending)

/-! ## What a node holds -/

/-- What a number in a query stands for: a value, or a count of items. -/
inductive Quantity
  | literal (value : Literal)
  | count (count : UInt64)
deriving DecidableEq

namespace Literal

/-- The text that a value is, if it is one. -/
def texts : Literal → List String
  | text s => [s]
  | _ => []

/-- The number that a value is, if it is one. -/
def quantities : Literal → List Quantity
  | text _ => []
  | value => [.literal value]

end Literal

namespace Query

/-- The texts that a node holds itself: first its property, then what is compared with it. -/
def ownTexts : Query → List String
  | comparison _ property value => property :: value.texts
  | combination _ _ => []
  | sort fields => fields.map SortField.property
  | limit _ _ => []
  | membership _ property values => property :: values.flatMap Literal.texts

/-- The quantities that a node holds itself. -/
def ownQuantities : Query → List Quantity
  | comparison _ _ value => value.quantities
  | combination _ _ => []
  | sort _ => []
  | limit count skip => [.count count, .count skip]
  | membership _ _ values => values.flatMap Literal.quantities

/-- The quantities of a node that are written: all that it holds, or no skip if that is zero. -/
inductive Writes : Query → List Quantity → Prop
  | all (node : Query) : Writes node node.ownQuantities
  | noSkip (count : UInt64) : Writes (limit count 0) [.count count]

end Query

/-! ## What tokens say -/

namespace Token

def isNumber (token : Token) : Bool :=
  token.is .integer || token.is .float

/-- A token stands for a quantity: the number that its text denotes, or the opposite of that. -/
inductive Denotes : Token → Quantity → Prop
  | number {token : Token} {value : Literal} (h : Number token value) :
      Denotes token (.literal value)
  | opposite {token : Token} {value : Literal} (h : Number token value) :
      Denotes token (.literal value.negated)
  | count {token : Token} {count : UInt64} (h : Count token count) : Denotes token (.count count)

theorem Denotes.kind {token : Token} {quantity : Quantity} (h : token.Denotes quantity) :
    token.kind = .integer ∨ token.kind = .float := by
  cases h with
  | number h => exact h.kind
  | opposite h => exact h.kind
  | count h => exact .inl h.1

end Token

/-- Tokens without a keyword that say the given texts and quantities, in this order. -/
structure Tells (tokens : List Token) (texts : List String) (quantities : List Quantity) :
    Prop where
  no_keyword : ∀ token ∈ tokens, token.kind.operation? = none
  texts_eq : (tokens.filter (Token.is · .text)).map Token.text = texts
  denotes : List.Forall₂ Token.Denotes (tokens.filter Token.isNumber) quantities

namespace Tells

theorem append {xs ys : List Token} {texts texts' : List String}
    {quantities quantities' : List Quantity} (h : Tells xs texts quantities)
    (h' : Tells ys texts' quantities') :
    Tells (xs ++ ys) (texts ++ texts') (quantities ++ quantities') where
  no_keyword := List.forall_mem_append.2 ⟨h.no_keyword, h'.no_keyword⟩
  texts_eq := by rw [List.filter_append, List.map_append, h.texts_eq, h'.texts_eq]
  denotes := by
    rw [List.filter_append]
    exact List.rel_append h.denotes h'.denotes

variable {token : Token}

theorem mark {mark : Mark} (h : token.kind = .mark mark) : Tells [token] [] [] where
  no_keyword := List.forall_mem_singleton.2 (by rw [h]; rfl)
  texts_eq := by simp [Token.is, h]
  denotes := by simp [Token.isNumber, Token.is, h]

theorem text (h : token.kind = .text) : Tells [token] [token.text] [] where
  no_keyword := List.forall_mem_singleton.2 (by rw [h]; rfl)
  texts_eq := by simp [Token.is, h]
  denotes := by simp [Token.isNumber, Token.is, h]

theorem quantity {quantity : Quantity} (h : token.Denotes quantity) :
    Tells [token] [] [quantity] := by
  have hnumber : token.isNumber := by
    rcases h.kind with hkind | hkind <;> simp [Token.isNumber, Token.is, hkind]
  refine ⟨List.forall_mem_singleton.2 ?_, ?_, ?_⟩
  · rcases h.kind with hkind | hkind <;> rw [hkind] <;> rfl
  · rcases h.kind with hkind | hkind <;> simp [Token.is, hkind]
  · rw [List.filter_cons_of_pos hnumber]
    exact .cons h .nil

/-- Marks say nothing. -/
theorem cons_mark {mark : Mark} {tokens : List Token} {texts : List String}
    {quantities : List Quantity} (hmark : token.kind = .mark mark)
    (h : Tells tokens texts quantities) : Tells (token :: tokens) texts quantities :=
  (Tells.mark hmark).append h

theorem concat_mark {mark : Mark} {tokens : List Token} {texts : List String}
    {quantities : List Quantity} (h : Tells tokens texts quantities)
    (hmark : token.kind = .mark mark) : Tells (tokens ++ [token]) texts quantities := by
  have htells := h.append (Tells.mark hmark)
  rwa [List.append_nil, List.append_nil] at htells

end Tells

/-! ## Values, fields and arguments -/

/-- A number is no text, and neither is its opposite. -/
theorem tells_of_number {token : Token} {value : Literal} (h : Number token value) :
    Tells [token] value.texts value.quantities ∧
      Tells [token] value.negated.texts value.negated.quantities := by
  have hnumber := Tells.quantity (.number h)
  have hopposite := Tells.quantity (.opposite h)
  cases h with
  | integer => exact ⟨hnumber, hopposite⟩
  | float => exact ⟨hnumber, hopposite⟩

theorem tells_of_value {tokens : List Token} {value : Literal} (h : Value tokens value) :
    Tells tokens value.texts value.quantities := by
  cases h with
  | text hkind => exact .text hkind
  | number hnumber => exact (tells_of_number hnumber).1
  | plus hsign hnumber => exact (tells_of_number hnumber).1.cons_mark hsign
  | minus hsign hnumber => exact (tells_of_number hnumber).2.cons_mark hsign

theorem tells_of_field {tokens : List Token} {field : SortField} (h : Field tokens field) :
    Tells tokens [field.property] [] := by
  cases h with
  | bare hname => exact .text hname
  | plus hsign hname => exact (Tells.text hname).cons_mark hsign
  | minus hsign hname => exact (Tells.text hname).cons_mark hsign

/-- Items with commas between them say one after the other what each of them says. -/
theorem Grammar.Joined.tells {α : Type} {item : List Token → α → Prop} {texts : α → List String}
    {quantities : α → List Quantity}
    (hitem : ∀ tokens x, item tokens x → Tells tokens (texts x) (quantities x))
    {tokens : List Token} {xs : List α} (h : Joined item tokens xs) :
    Tells tokens (xs.flatMap texts) (xs.flatMap quantities) := by
  induction h with
  | one hone =>
    rw [List.flatMap_singleton, List.flatMap_singleton]
    exact hitem _ _ hone
  | more _ hcomma hlast ih =>
    rw [List.flatMap_append, List.flatMap_append, List.flatMap_singleton, List.flatMap_singleton]
    exact ih.append ((hitem _ _ hlast).cons_mark hcomma)

/-- The arguments of what is no combination say all that the node holds. -/
theorem tells_of_arguments {operand : List Token → Query → Prop} {tokens : List Token}
    {query : Query} (h : Arguments operand tokens query)
    (hnode : ∀ op operands, query ≠ .combination op operands) :
    ∃ written, query.Writes written ∧ Tells tokens query.ownTexts written := by
  cases h with
  | comparison hname hcomma hvalue =>
    exact ⟨_, .all _, (Tells.text hname).append ((tells_of_value hvalue).cons_mark hcomma)⟩
  | combination => exact absurd rfl (hnode _ _)
  | sort hfields =>
    have htells := hfields.tells fun _ _ hfield => tells_of_field hfield
    rw [← List.map_eq_flatMap, List.flatMap_eq_nil_iff.2 fun _ _ => rfl] at htells
    exact ⟨_, .all _, htells⟩
  | limit hcount => exact ⟨_, .noSkip _, .quantity (.count hcount)⟩
  | limitSkip hcount hcomma hskip =>
    have hsecond := Tells.quantity (.count hskip)
    exact ⟨_, .all _, (Tells.quantity (.count hcount)).append (hsecond.cons_mark hcomma)⟩
  | noMembers hname hcomma hopening hclosing =>
    have hbrackets := (Tells.mark hopening).concat_mark hclosing
    exact ⟨_, .all _, (Tells.text hname).append (hbrackets.cons_mark hcomma)⟩
  | members hname hcomma hopening hvalues hclosing =>
    have htells := hvalues.tells fun _ _ hvalue => tells_of_value hvalue
    have hbrackets := (htells.concat_mark hclosing).cons_mark hopening
    exact ⟨_, .all _, (Tells.text hname).append (hbrackets.cons_mark hcomma)⟩

/-! ## Nodes -/

/-- A piece of a query that spells a node: its keyword, and what the node holds itself. -/
inductive Query.SpeltBy (node : Query) : List Token → Prop
  | intro {keyword : Token} {tokens : List Token} {written : List Quantity}
      (hkeyword : keyword.kind = .keyword node.operation) (hwritten : node.Writes written)
      (htells : Tells tokens node.ownTexts written) : SpeltBy node (keyword :: tokens)

/-- Tokens that fall into pieces, each of which spells one of the nodes, in their order. -/
inductive Dealt : List Token → List Query → Prop
  | nil : Dealt [] []
  | cons {piece tokens : List Token} {node : Query} {nodes : List Query}
      (hpiece : node.SpeltBy piece) (hrest : Dealt tokens nodes) :
      Dealt (piece ++ tokens) (node :: nodes)

namespace Dealt

theorem append {xs ys : List Token} {nodes nodes' : List Query} (h : Dealt xs nodes)
    (h' : Dealt ys nodes') : Dealt (xs ++ ys) (nodes ++ nodes') := by
  induction h with
  | nil => exact h'
  | cons hpiece _ ih =>
    rw [List.append_assoc]
    exact .cons hpiece ih

/-- A mark goes with the last node. -/
theorem concat_mark {tokens : List Token} {token : Token} {mark : Mark} {nodes : List Query}
    (h : Dealt tokens nodes) (hne : nodes ≠ []) (hmark : token.kind = .mark mark) :
    Dealt (tokens ++ [token]) nodes := by
  induction h with
  | nil => exact absurd rfl hne
  | @cons piece tokens node nodes hpiece hrest ih =>
    rw [List.append_assoc]
    by_cases hlast : nodes = []
    · subst hlast
      cases hrest
      cases hpiece with
      | intro hkeyword hwritten htells =>
        have hlonger := Query.SpeltBy.intro hkeyword hwritten (htells.concat_mark hmark)
        rw [List.nil_append, List.cons_append, ← List.append_nil (_ :: _)]
        exact .cons hlonger .nil
    · exact .cons hpiece (ih hlast)

/-- Operands are dealt out one after the other, each comma to the one before it. -/
theorem of_operands {tokens : List Token} {operands : List Query}
    (h : Joined (fun tokens query => Dealt tokens query.nodes) tokens operands) :
    Dealt tokens (Query.nodesOfAll operands) := by
  induction h with
  | @one tokens operand hoperand =>
    rw [Query.nodesOfAll, Query.nodesOfAll, List.append_nil]
    exact hoperand
  | @more tokens last comma operands operand hbefore hcomma hoperand ih =>
    have hne : Query.nodesOfAll operands ≠ [] := Query.nodesOfAll_ne_nil hbefore.ne_nil
    have hall := (ih.concat_mark hne hcomma).append hoperand
    rw [Query.nodesOfAll_append, Query.nodesOfAll, Query.nodesOfAll, List.append_nil]
    rwa [List.append_assoc] at hall

/-- The arguments of a query behind its keyword, where each operand is dealt out. -/
theorem of_arguments {keyword opening : Token} {tokens : List Token} {query : Query}
    (hkeyword : keyword.kind = .keyword query.operation)
    (hopening : opening.kind = .mark .openParen)
    (h : Arguments (fun tokens query => Dealt tokens query.nodes) tokens query) :
    Dealt (keyword :: opening :: tokens) query.nodes := by
  by_cases hnode : ∃ op operands, query = .combination op operands
  · obtain ⟨op, operands, rfl⟩ := hnode
    cases h with
    | combination hoperands =>
      have hpiece := Query.SpeltBy.intro hkeyword (.all _) (Tells.mark hopening)
      exact .cons hpiece (of_operands hoperands)
  · have hleaf : ∀ op operands, query ≠ .combination op operands :=
      fun op operands hquery => hnode ⟨op, operands, hquery⟩
    obtain ⟨written, hwritten, htells⟩ := tells_of_arguments h hleaf
    have hpiece := Query.SpeltBy.intro hkeyword hwritten (htells.cons_mark hopening)
    rw [Query.nodes_of_leaf hleaf, ← List.append_nil (_ :: _)]
    exact .cons hpiece .nil

theorem of_closed {tokens : List Token} {query : Query} (h : Closed tokens query) :
    Dealt tokens query.nodes := by
  refine Closed.induction ?step h
  case step =>
    intro keyword opening closing tokens query hkeyword hopening harguments hclosing
    have hopen := of_arguments hkeyword hopening (harguments.mono fun _ _ h => h.2)
    exact hopen.concat_mark query.nodes_ne_nil hclosing

/-- The tokens of a query are dealt out to its nodes. -/
theorem of_derives {tokens : List Token} {query : Query} (h : Derives tokens query) :
    Dealt tokens query.nodes := by
  obtain ⟨keyword, opening, inner, ending, rfl, hkeyword, hopening, harguments, hending⟩ :=
    derives_iff_ending.1 h
  have hopen := of_arguments hkeyword hopening (harguments.mono fun _ _ => of_closed)
  cases hending with
  | closing hclosing => exact hopen.concat_mark query.nodes_ne_nil hclosing
  | nothing =>
    rw [List.append_nil]
    exact hopen

/-! ## All nodes together -/

section

variable {tokens : List Token} {nodes : List Query} (h : Dealt tokens nodes)

include h

theorem operations_eq :
    tokens.filterMap (fun token => token.kind.operation?) = nodes.map Query.operation := by
  induction h with
  | nil => rfl
  | cons hpiece _ ih =>
    cases hpiece with
    | intro hkeyword _ htells =>
      have hnone := List.filterMap_eq_nil_iff.2 htells.no_keyword
      rw [List.filterMap_append, ih, List.filterMap_cons, hkeyword, hnone]
      rfl

theorem texts_eq :
    (tokens.filter (Token.is · .text)).map Token.text = nodes.flatMap Query.ownTexts := by
  induction h with
  | nil => rfl
  | cons hpiece _ ih =>
    cases hpiece with
    | @intro keyword tokens _ hkeyword _ htells =>
      have hno : keyword.is .text = false := by simp [Token.is, hkeyword]
      rw [List.filter_append, List.map_append, ih, List.filter_cons_of_neg (by simp [hno]),
        htells.texts_eq]
      rfl

theorem denotes :
    ∃ written, List.Forall₂ Query.Writes nodes written ∧
      List.Forall₂ Token.Denotes (tokens.filter Token.isNumber) written.flatten := by
  induction h with
  | nil => exact ⟨[], .nil, .nil⟩
  | cons hpiece _ ih =>
    obtain ⟨rest, hrest, hdenotes⟩ := ih
    cases hpiece with
    | @intro keyword tokens written hkeyword hwritten htells =>
      have hno : keyword.isNumber = false := by simp [Token.isNumber, Token.is, hkeyword]
      refine ⟨written :: rest, .cons hwritten hrest, ?_⟩
      rw [List.filter_append, List.filter_cons_of_neg (by simp [hno]), List.flatten_cons]
      exact List.rel_append htells.denotes hdenotes

end

end Dealt

/-! ## Texts -/

theorem Kind.eq_keyword_of_operation? {kind : Kind} {op : Operation}
    (h : kind.operation? = some op) : kind = .keyword op := by
  cases kind with
  | keyword op' => exact congrArg keyword (Option.some.inj h)
  | _ => cases h

/-- A keyword is the word of its operation. -/
theorem Token.Proper.text_of_keyword {token : Token} {op : Operation} (h : token.Proper)
    (hkind : token.kind = .keyword op) : token.text = op.word := by
  have hhas := h.hasKind
  rw [hkind] at hhas
  generalize htext : token.text.toList = cs at hhas
  cases hhas
  exact String.toList_inj.1 htext

theorem keyword_texts {tokens : List Token} (h : ∀ token ∈ tokens, token.Proper) :
    (tokens.filter fun token => token.kind.isKeyword).map Token.text =
      (tokens.filterMap fun token => token.kind.operation?).map Operation.word := by
  induction tokens with
  | nil => rfl
  | cons token tokens ih =>
    obtain ⟨hproper, hrest⟩ := List.forall_mem_cons.1 h
    cases hop : token.kind.operation? with
    | none =>
      have hno : ¬token.kind.isKeyword := by simp [Kind.isKeyword, hop]
      rw [List.filter_cons, if_neg hno, List.filterMap_cons, hop]
      exact ih hrest
    | some op =>
      have hyes : token.kind.isKeyword := by simp [Kind.isKeyword, hop]
      rw [List.filter_cons, if_pos hyes, List.filterMap_cons, hop, List.map_cons, List.map_cons,
        ih hrest, hproper.text_of_keyword (Kind.eq_keyword_of_operation? hop)]

/--
Nothing is lost or reordered between the tokens of a text and the tree that it denotes. The nodes
from the root down and from the left to the right have the keywords as their operations, the texts
as their properties and text values, and the numbers as their values and counts, a skip being
written or not; and each node has its own from one piece of the token list.
-/
theorem contents_of_parse {text : String} {query : Query} (h : parse text = .ok query) :
    query.nodes.map (fun node => node.operation.word) =
        ((tokenize text).filter fun token => token.kind.isKeyword).map Token.text ∧
      query.nodes.flatMap Query.ownTexts =
        ((tokenize text).filter fun token => token.is .text).map Token.text ∧
      (∃ written, List.Forall₂ Query.Writes query.nodes written ∧
        List.Forall₂ Token.Denotes ((tokenize text).filter Token.isNumber) written.flatten) ∧
      Dealt (tokenize text) query.nodes := by
  have hdealt := Dealt.of_derives (parse_eq_ok_iff_derives.1 h)
  refine ⟨?_, hdealt.texts_eq.symm, hdealt.denotes, hdealt⟩
  rw [keyword_texts fun _ => proper_of_mem_tokenize, hdealt.operations_eq, List.map_map]
  rfl

/-- A text among numbers, a negated number, a limit without a skip, and fields. -/
theorem contents_of_nested_query :
    ∃ query, parse "or(in(a b,[1,c,-2]),and(limit(7),sort(-d)))" = .ok query ∧
      ((tokenize "or(in(a b,[1,c,-2]),and(limit(7),sort(-d)))").filter fun token =>
        token.kind.isKeyword).map Token.text = ["or", "in", "and", "limit", "sort"] ∧
      ((tokenize "or(in(a b,[1,c,-2]),and(limit(7),sort(-d)))").filter fun token =>
        token.is .text).map Token.text = ["a b", "c", "d"] ∧
      ∃ written, List.Forall₂ Query.Writes query.nodes written ∧ written.flatten.length = 3 := by
  have hparse : parse "or(in(a b,[1,c,-2]),and(limit(7),sort(-d)))" =
      .ok (.combination .or
        [.membership .inside "a b"
          [.integer 1, .text "c", .integer (-2)],
          .combination .and [.limit 7 0, .sort [⟨"d", .desc⟩]]]) := by
    cbv
  have hnumbers : ((tokenize "or(in(a b,[1,c,-2]),and(limit(7),sort(-d)))").filter
      Token.isNumber).length = 3 := by
    decide +kernel
  obtain ⟨hoperations, htexts, ⟨written, hwritten, hdenotes⟩, -⟩ := contents_of_parse hparse
  exact ⟨_, hparse, hoperations.symm, htexts.symm, written, hwritten,
    hdenotes.length_eq.symm.trans hnumbers⟩

end ResourceQuery
