import Mathlib
import ResourceQuery.Proofs.Grammar.Acceptance
import ResourceQuery.Proofs.Query.Nodes
import ResourceQuery.Proofs.Token.Segmentation
import ResourceQuery.Proofs.Writing.Words

/-!
# Well-formed query trees

The trees that texts denote are well formed at every depth: names and texts stand for themselves,
nothing that must not be empty is, and numbers are in range. Whoever walks such a tree may rely on
it. What the tokens of a text are like is carried into the tree along the grammar.
-/

namespace ResourceQuery

open Grammar (Arguments Closed Count Derives Field Joined Number Value)
open Lexer (Word)

/-- A value in range: no text means a number that has no opposite, or what is not a number. -/
def Literal.WellFormed : Literal → Prop
  | integer n => -(Kind.integerMax : Int) ≤ n.toInt ∧ n.toInt ≤ Kind.integerMax
  | float x => x.isNaN = false
  | text s => PlainText s

namespace Query

/-- What a node holds itself is in order, whatever stands below it. -/
def WellFormedNode : Query → Prop
  | comparison _ property value => PlainText property ∧ value.WellFormed
  | combination _ operands => operands ≠ []
  | sort fields => fields ≠ [] ∧ ∀ field ∈ fields, PlainText field.property
  | limit count skip => count.toNat ≤ Kind.integerMax ∧ skip.toNat ≤ Kind.integerMax
  | membership _ property values => PlainText property ∧ ∀ value ∈ values, value.WellFormed

/-- A tree whose nodes are in order at every depth. -/
def WellFormed (query : Query) : Prop :=
  ∀ node ∈ query.nodes, node.WellFormedNode

end Query

/-! ## Tokens of a text -/

/-- A token that a text can have: a mark or a word, of the kind of its text. -/
structure Token.Proper (token : Token) : Prop where
  mark_or_word : token.IsMark ∨ Word token.text.toList
  hasKind : HasKind token.text.toList token.kind

theorem proper_of_mem_tokenize {text : String} {token : Token} (h : token ∈ tokenize text) :
    token.Proper :=
  let hseparate := Lexer.separate_tokens (Lexer.ofString text)
  ⟨hseparate.mark_or_word token h, hseparate.hasKind token h⟩

theorem Token.Proper.genuine {token : Token} (h : token.Proper) : token.Genuine :=
  h.hasKind.ofChars_eq.symm

theorem plainText_iff {text : String} :
    PlainText text ↔ Word text.toList ∧ HasKind text.toList .text := by
  constructor
  · rintro ⟨hword, hnumeral, hkeyword⟩
    refine ⟨hword, .text hword.ne_mark (Numeral.ofChars?_eq_none_iff.1 hnumeral) fun op htext => ?_⟩
    rw [String.toList_inj.1 htext, Operation.ofWord?_word] at hkeyword
    cases hkeyword
  · rintro ⟨hword, hkind⟩
    obtain ⟨-, hshape, hkeyword⟩ := hkind.of_text
    refine ⟨hword, Numeral.ofChars?_eq_none_iff.2 hshape, ?_⟩
    rw [Option.eq_none_iff_forall_ne_some]
    intro op hop
    exact hkeyword op (by rw [Operation.word_of_ofWord? hop])

theorem Token.Proper.plainText {token : Token} (h : token.Proper) (hkind : token.kind = .text) :
    PlainText token.text := by
  have htext := h.hasKind
  rw [hkind] at htext
  refine plainText_iff.2 ⟨h.mark_or_word.resolve_left ?_, htext⟩
  rintro ⟨mark, hmark⟩
  exact htext.of_text.1 mark hmark

/-! ## Numbers -/

theorem magnitude_ofQuotient_le (negative : Bool) (num den : Nat) :
    (Binary64.ofQuotient negative num den).magnitude ≤ Binary64.infinity :=
  Nat.min_le_right _ _

/-- A decimal is at most infinite. -/
theorem isNaN_ofDecimal (d : Decimal) : (Binary64.ofDecimal d).isNaN = false := by
  have hle : (Binary64.ofDecimal d).magnitude ≤ Binary64.infinity := by
    unfold Binary64.ofDecimal
    split
    next => exact magnitude_ofQuotient_le _ _ _
    next =>
      split
      next =>
        split
        next => exact Nat.le_refl _
        next => exact magnitude_ofQuotient_le _ _ _
      next =>
        split
        next => exact magnitude_ofQuotient_le _ _ _
        next => exact magnitude_ofQuotient_le _ _ _
  exact decide_eq_false (Nat.not_lt.2 hle)

/-- A number of a text is in range, and so is its opposite. -/
theorem wellFormed_of_number {token : Token} {value : Literal} (hproper : token.Proper)
    (h : Number token value) : value.WellFormed ∧ value.negated.WellFormed := by
  cases h with
  | integer hkind hread =>
    obtain ⟨n, hle, hn, -⟩ := hproper.genuine.readings.1 hkind
    rw [hread] at hn
    cases hn
    have hlt : n < 2 ^ 63 := Nat.lt_of_le_of_lt hle (by decide)
    have hvalue : (Int64.ofNat n).toInt = n := Int64.toInt_ofNat_of_lt hlt
    have hopposite : (-Int64.ofNat n).toInt = -n := Int64.toInt_neg_ofNat_of_le (Nat.le_of_lt hlt)
    constructor
    · show _ ≤ (Int64.ofNat n).toInt ∧ (Int64.ofNat n).toInt ≤ _
      omega
    · show _ ≤ (-Int64.ofNat n).toInt ∧ (-Int64.ofNat n).toInt ≤ _
      omega
  | float hkind hread =>
    obtain ⟨numeral, -, rfl⟩ := Option.map_eq_some_iff.1 hread
    have hnumber := isNaN_ofDecimal numeral.decimal
    exact ⟨hnumber, hnumber⟩

theorem wellFormed_of_value {tokens : List Token} {value : Literal}
    (hproper : ∀ token ∈ tokens, token.Proper) (h : Value tokens value) : value.WellFormed := by
  cases h with
  | text hkind => exact (hproper _ List.mem_cons_self).plainText hkind
  | number hnumber => exact (wellFormed_of_number (hproper _ (by simp)) hnumber).1
  | plus _ hnumber => exact (wellFormed_of_number (hproper _ (by simp)) hnumber).1
  | minus _ hnumber => exact (wellFormed_of_number (hproper _ (by simp)) hnumber).2

theorem toNat_le_of_count {token : Token} {count : UInt64} (hproper : token.Proper)
    (h : Count token count) : count.toNat ≤ Kind.integerMax := by
  obtain ⟨hkind, hread⟩ := h
  obtain ⟨n, hle, -, hn⟩ := hproper.genuine.readings.1 hkind
  rw [hread] at hn
  cases hn
  have hlt : n < 2 ^ 64 := Nat.lt_of_le_of_lt hle (by decide)
  rw [UInt64.toNat_ofNat_of_lt' hlt]
  exact hle

theorem plainText_of_field {tokens : List Token} {field : SortField}
    (hproper : ∀ token ∈ tokens, token.Proper) (h : Field tokens field) :
    PlainText field.property := by
  cases h with
  | bare hname => exact (hproper _ (by simp)).plainText hname
  | plus _ hname => exact (hproper _ (by simp)).plainText hname
  | minus _ hname => exact (hproper _ (by simp)).plainText hname

/-! ## Trees -/

/-- Where the operands are well formed, the whole query is. -/
theorem wellFormed_of_arguments {tokens : List Token} {query : Query}
    (hproper : ∀ token ∈ tokens, token.Proper)
    (h : Arguments (fun tokens query => (∀ token ∈ tokens, token.Proper) → query.WellFormed)
      tokens query) : query.WellFormed := by
  cases h with
  | comparison hname _ hvalue =>
    obtain ⟨hproperty, htokens⟩ := List.forall_mem_cons.1 hproper
    obtain ⟨-, htokens⟩ := List.forall_mem_cons.1 htokens
    refine List.forall_mem_singleton.2 ⟨hproperty.plainText hname, ?_⟩
    exact wellFormed_of_value htokens hvalue
  | combination hoperands =>
    refine List.forall_mem_cons.2 ⟨hoperands.ne_nil, fun node hnode => ?_⟩
    obtain ⟨operand, hoperand, hnode⟩ := Query.mem_nodesOfAll.1 hnode
    have hall := hoperands.forall_mem (fun _ _ htokens hitem => hitem htokens) hproper
    exact hall operand hoperand node hnode
  | sort hfields =>
    refine List.forall_mem_singleton.2 ⟨hfields.ne_nil, ?_⟩
    exact hfields.forall_mem (fun _ _ hall hfield => plainText_of_field hall hfield) hproper
  | limit hcount =>
    refine List.forall_mem_singleton.2 ⟨toNat_le_of_count (hproper _ (by simp)) hcount, ?_⟩
    exact Nat.zero_le _
  | limitSkip hcount _ hskip =>
    refine List.forall_mem_singleton.2 ⟨toNat_le_of_count (hproper _ (by simp)) hcount, ?_⟩
    exact toNat_le_of_count (hproper _ (by simp)) hskip
  | noMembers hname =>
    refine List.forall_mem_singleton.2 ⟨(hproper _ (by simp)).plainText hname, ?_⟩
    exact List.forall_mem_nil _
  | members hname _ _ hvalues =>
    refine List.forall_mem_singleton.2 ⟨(hproper _ (by simp)).plainText hname, ?_⟩
    refine hvalues.forall_mem (fun _ _ hall hvalue => wellFormed_of_value hall hvalue) ?_
    intro token htoken
    exact hproper token (by simp [htoken])

theorem wellFormed_of_closed {tokens : List Token} {query : Query} (h : Closed tokens query) :
    (∀ token ∈ tokens, token.Proper) → query.WellFormed := by
  refine Closed.induction ?step h
  case step =>
    intro keyword opening closing tokens query _ _ harguments _ hproper
    refine wellFormed_of_arguments (fun token htoken => ?_) (harguments.mono fun _ _ h => h.2)
    exact hproper token (by simp [htoken])

theorem wellFormed_of_derives {tokens : List Token} {query : Query}
    (hproper : ∀ token ∈ tokens, token.Proper) (h : Derives tokens query) : query.WellFormed := by
  cases h with
  | closed hclosed => exact wellFormed_of_closed hclosed hproper
  | unclosed _ _ harguments _ =>
    -- a query left open has the same arguments as a closed one
    refine wellFormed_of_arguments (fun token htoken => ?_)
      (harguments.mono fun _ _ => wellFormed_of_closed)
    exact hproper token (by simp [htoken])

/-- Every tree that a text denotes is well formed. -/
theorem wellFormed_of_parse {text : String} {query : Query} (h : parse text = .ok query) :
    query.WellFormed :=
  wellFormed_of_derives (fun _ => proper_of_mem_tokenize) (parse_eq_ok_iff_derives.1 h)

/-- A negative, an infinite and a dotted value, and fields with a sign and without. -/
theorem wellFormed_nested_query :
    ∃ query, parse "and(out(a b,[-7,1e999,x.y]),sort(-b,c))" = .ok query ∧ query.depth = 2 ∧
      query.WellFormed := by
  have hparse : parse "and(out(a b,[-7,1e999,x.y]),sort(-b,c))" =
      .ok (.combination .and
        [.membership .outside "a b"
          [.integer (-7), .float ⟨false, 0x7FF0000000000000, by decide⟩, .text "x.y"],
          .sort [⟨"b", .desc⟩, ⟨"c", .asc⟩]]) := by
    cbv
  exact ⟨_, hparse, rfl, wellFormed_of_parse hparse⟩

end ResourceQuery
