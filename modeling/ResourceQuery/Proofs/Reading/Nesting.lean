import Mathlib
import ResourceQuery.Proofs.Query.Nodes
import ResourceQuery.Proofs.Reading.Closed

/-!
# Nesting

How deep a query is can be counted on its tokens without reading them. Each node of the tree has a
keyword and an opening parenthesis, and its closing parenthesis comes after those of the nodes
below it. So as many parentheses are open at a token as there are nodes around it, and the most
that are ever open are the depth of the tree.
-/

namespace ResourceQuery

open Grammar (Arguments Closed Derives Field Joined Value countOf)

/-- The opening parentheses among some tokens less the closing ones. -/
def nesting (tokens : List Token) : Int :=
  countOf (.mark .openParen) tokens - countOf (.mark .closeParen) tokens

/-- The number of keywords among some tokens. -/
def keywordsIn (tokens : List Token) : Nat :=
  tokens.countP fun token => token.kind.isKeyword

/-- The greatest nesting of what the tokens begin with. -/
def peak : List Token → Int
  | [] => 0
  | token :: tokens => max 0 (nesting [token] + peak tokens)

/-- The least nesting of what the tokens begin with. -/
def low : List Token → Int
  | [] => 0
  | token :: tokens => min 0 (nesting [token] + low tokens)

/-! ## Beginnings of token lists -/

@[simp]
theorem nesting_nil : nesting [] = 0 := rfl

theorem nesting_append (xs ys : List Token) : nesting (xs ++ ys) = nesting xs + nesting ys := by
  simp only [nesting, Grammar.countOf_append]
  omega

theorem nesting_cons (token : Token) (tokens : List Token) :
    nesting (token :: tokens) = nesting [token] + nesting tokens :=
  nesting_append [token] tokens

@[simp]
theorem keywordsIn_nil : keywordsIn [] = 0 := rfl

theorem keywordsIn_append (xs ys : List Token) :
    keywordsIn (xs ++ ys) = keywordsIn xs + keywordsIn ys :=
  List.countP_append

theorem keywordsIn_cons (token : Token) (tokens : List Token) :
    keywordsIn (token :: tokens) = keywordsIn tokens + if token.kind.isKeyword then 1 else 0 :=
  List.countP_cons

theorem peak_nonneg (tokens : List Token) : 0 ≤ peak tokens := by
  cases tokens with
  | nil => exact le_refl 0
  | cons token tokens => exact le_max_left _ _

theorem low_nonpos (tokens : List Token) : low tokens ≤ 0 := by
  cases tokens with
  | nil => exact le_refl 0
  | cons token tokens => exact min_le_left _ _

theorem peak_append (xs ys : List Token) :
    peak (xs ++ ys) = max (peak xs) (nesting xs + peak ys) := by
  induction xs with
  | nil =>
    have hnonneg := peak_nonneg ys
    simp [peak, hnonneg]
  | cons token xs ih =>
    rw [List.cons_append, peak, peak, ih, nesting_cons token xs]
    omega

theorem low_append (xs ys : List Token) :
    low (xs ++ ys) = min (low xs) (nesting xs + low ys) := by
  induction xs with
  | nil =>
    have hnonpos := low_nonpos ys
    simp [low, hnonpos]
  | cons token xs ih =>
    rw [List.cons_append, low, low, ih, nesting_cons token xs]
    omega

theorem low_le_nesting {front tokens : List Token} (h : front <+: tokens) :
    low tokens ≤ nesting front := by
  obtain ⟨back, rfl⟩ := h
  have hback := low_nonpos back
  rw [low_append]
  omega

theorem nesting_le_peak {front tokens : List Token} (h : front <+: tokens) :
    nesting front ≤ peak tokens := by
  obtain ⟨back, rfl⟩ := h
  have hback := peak_nonneg back
  rw [peak_append]
  omega

/-- Some beginning of a token list nests as deep as any. -/
theorem exists_nesting_eq_peak (tokens : List Token) :
    ∃ front, front <+: tokens ∧ nesting front = peak tokens := by
  induction tokens with
  | nil => exact ⟨[], List.nil_prefix, rfl⟩
  | cons token tokens ih =>
    obtain ⟨front, hfront, hpeak⟩ := ih
    rcases le_total 0 (nesting [token] + peak tokens) with hle | hle
    · refine ⟨token :: front, List.cons_prefix_cons.2 ⟨rfl, hfront⟩, ?_⟩
      rw [peak, max_eq_right hle, nesting_cons, hpeak]
    · refine ⟨[], List.nil_prefix, ?_⟩
      rw [peak, max_eq_left hle, nesting_nil]

/-! ## Nested tokens -/

/-- Neither a keyword nor a parenthesis. -/
structure Token.Flat (token : Token) : Prop where
  keyword : token.kind.isKeyword = false
  openParen : token.kind ≠ .mark .openParen
  closeParen : token.kind ≠ .mark .closeParen

/--
Tokens whose parentheses nest to a depth, with so many nodes. Each node has a keyword and two
parentheses, but so many are left open.
-/
structure Nested (tokens : List Token) (left depth nodes : Nat) : Prop where
  keywords : keywordsIn tokens = nodes
  openings : countOf (.mark .openParen) tokens = nodes
  closings : countOf (.mark .closeParen) tokens + left = nodes
  peak_eq : peak tokens = depth
  low_eq : low tokens = 0

namespace Nested

variable {tokens tokens' : List Token} {left depth depth' nodes nodes' : Nat}

theorem nesting_eq (h : Nested tokens left depth nodes) : nesting tokens = left := by
  rw [nesting, h.openings, ← h.closings]
  omega

theorem flat (h : ∀ token ∈ tokens, token.Flat) : Nested tokens 0 0 0 := by
  induction tokens with
  | nil => exact ⟨rfl, rfl, rfl, rfl, rfl⟩
  | cons token tokens ih =>
    obtain ⟨⟨hkeyword, hopening, hclosing⟩, htokens⟩ := List.forall_mem_cons.1 h
    have hrest := ih htokens
    have hnesting : nesting [token] = 0 := by simp [nesting, hopening, hclosing]
    exact {
      keywords := by simp [keywordsIn_cons, hrest.keywords, hkeyword]
      openings := by simp [hrest.openings, hopening]
      closings := by simpa [hclosing] using hrest.closings
      peak_eq := by simp [peak, hnesting, hrest.peak_eq]
      low_eq := by simp [low, hnesting, hrest.low_eq] }

theorem append (h : Nested tokens 0 depth nodes) (h' : Nested tokens' left depth' nodes') :
    Nested (tokens ++ tokens') left (max depth depth') (nodes + nodes') where
  keywords := by rw [keywordsIn_append, h.keywords, h'.keywords]
  openings := by rw [Grammar.countOf_append, h.openings, h'.openings]
  closings := by
    have hclosings := h.closings
    have hclosings' := h'.closings
    rw [Grammar.countOf_append]
    omega
  peak_eq := by
    rw [peak_append, h.nesting_eq, h.peak_eq, h'.peak_eq]
    omega
  low_eq := by
    rw [low_append, h.nesting_eq, h.low_eq, h'.low_eq]
    rfl

/-- A keyword and its parenthesis come before the nodes below. -/
theorem opened {keyword opening : Token} {op : Operation} (h : Nested tokens 0 depth nodes)
    (hkeyword : keyword.kind = .keyword op) (hopening : opening.kind = .mark .openParen) :
    Nested (keyword :: opening :: tokens) 1 (1 + depth) (1 + nodes) := by
  have hone : nesting [keyword] = 0 := by simp [nesting, hkeyword]
  have htwo : nesting [opening] = 1 := by simp [nesting, hopening]
  exact {
    keywords := by
      simp [keywordsIn_cons, hkeyword, hopening, h.keywords, Kind.isKeyword, Kind.operation?,
        Nat.add_comm]
    openings := by simp [hkeyword, hopening, h.openings, Nat.add_comm]
    closings := by simp [hkeyword, hopening, ← h.closings, Nat.add_comm]
    peak_eq := by
      rw [peak, peak, hone, htwo, h.peak_eq]
      omega
    low_eq := by
      rw [low, low, hone, htwo, h.low_eq]
      rfl }

/-- The parenthesis that is left open comes behind them. -/
theorem closed {closing : Token} (h : Nested tokens 1 depth nodes)
    (hclosing : closing.kind = .mark .closeParen) : Nested (tokens ++ [closing]) 0 depth nodes := by
  have hnesting : nesting [closing] = -1 := by simp [nesting, hclosing]
  have hpeak : (1 : Int) ≤ depth := by
    have hle := nesting_le_peak (List.prefix_refl tokens)
    rwa [h.nesting_eq, h.peak_eq] at hle
  exact {
    keywords := by
      simp [keywordsIn_append, keywordsIn_cons, hclosing, h.keywords, Kind.isKeyword,
        Kind.operation?]
    openings := by simp [hclosing, h.openings]
    closings := by simpa [hclosing] using h.closings
    peak_eq := by
      rw [peak_append, h.nesting_eq, h.peak_eq, peak, peak, hnesting]
      omega
    low_eq := by
      rw [low_append, h.nesting_eq, h.low_eq, low, low, hnesting]
      rfl }

end Nested

/-! ## The tokens of a query -/

namespace Grammar

/-- Only queries have keywords and parentheses, so values and names are flat. -/
theorem flat_of_kind {token : Token} {kind : Kind} (h : token.kind = kind)
    (hflat : kind.isKeyword = false ∧ kind ≠ .mark .openParen ∧ kind ≠ .mark .closeParen) :
    token.Flat := by
  subst h
  exact ⟨hflat.1, hflat.2.1, hflat.2.2⟩

theorem Number.flat {token : Token} {value : Literal} (h : Number token value) : token.Flat := by
  rcases h.kind with hkind | hkind
  · exact flat_of_kind hkind (by decide)
  · exact flat_of_kind hkind (by decide)

theorem Value.flat {tokens : List Token} {value : Literal} (h : Value tokens value) :
    ∀ token ∈ tokens, token.Flat := by
  cases h with
  | text hkind => exact List.forall_mem_singleton.2 (flat_of_kind hkind (by decide))
  | number hnumber => exact List.forall_mem_singleton.2 hnumber.flat
  | plus hsign hnumber =>
    exact List.forall_mem_cons.2
      ⟨flat_of_kind hsign (by decide), List.forall_mem_singleton.2 hnumber.flat⟩
  | minus hsign hnumber =>
    exact List.forall_mem_cons.2
      ⟨flat_of_kind hsign (by decide), List.forall_mem_singleton.2 hnumber.flat⟩

theorem Field.flat {tokens : List Token} {field : SortField} (h : Field tokens field) :
    ∀ token ∈ tokens, token.Flat := by
  intro token htoken
  rcases h.kind_of_mem token htoken with hkind | hkind | hkind
  · exact flat_of_kind hkind (by decide)
  · exact flat_of_kind hkind (by decide)
  · exact flat_of_kind hkind (by decide)

theorem Joined.flat {α : Type} {item : List Token → α → Prop} {tokens : List Token} {xs : List α}
    (hitem : ∀ tokens x, item tokens x → ∀ token ∈ tokens, token.Flat)
    (h : Joined item tokens xs) : ∀ token ∈ tokens, token.Flat :=
  h.forall_tokens (fun _ hcomma => flat_of_kind hcomma (by decide)) hitem

/-- Operands one after the other are as deep as the deepest. -/
theorem Joined.nested {tokens : List Token} {queries : List Query}
    (h : Joined (fun tokens query => Nested tokens 0 query.depth query.nodes.length) tokens
      queries) :
    Nested tokens 0 (Query.depthOfAll queries) (Query.nodesOfAll queries).length := by
  induction h with
  | one hitem => simpa [Query.depthOfAll, Query.nodesOfAll] using hitem
  | @more _ last comma _ query _ hcomma hitem ih =>
    have hbetween : Nested [comma] 0 0 0 :=
      .flat (List.forall_mem_singleton.2 (flat_of_kind hcomma (by decide)))
    have hall := ih.append (hbetween.append hitem)
    simpa [Query.depthOfAll_append, Query.nodesOfAll_append, Query.depthOfAll, Query.nodesOfAll]
      using hall

/-- Between the parentheses of a query its operands nest, if it has any. -/
theorem Arguments.nested {tokens : List Token} {query : Query}
    (h : Arguments (fun tokens query => Nested tokens 0 query.depth query.nodes.length) tokens
      query) :
    ∃ depth nodes, query.depth = 1 + depth ∧ query.nodes.length = 1 + nodes ∧
      Nested tokens 0 depth nodes := by
  cases h with
  | combination hoperands =>
    exact ⟨_, _, rfl, by rw [Query.nodes, List.length_cons, Nat.add_comm], hoperands.nested⟩
  | comparison hname hcomma hvalue =>
    refine ⟨0, 0, rfl, rfl, .flat ?_⟩
    simp only [List.forall_mem_cons]
    exact ⟨flat_of_kind hname (by decide), flat_of_kind hcomma (by decide), hvalue.flat⟩
  | sort hfields => exact ⟨0, 0, rfl, rfl, .flat (hfields.flat fun _ _ hfield => hfield.flat)⟩
  | limit hcount =>
    exact ⟨0, 0, rfl, rfl, .flat (List.forall_mem_singleton.2 (flat_of_kind hcount.1 (by decide)))⟩
  | limitSkip hcount hcomma hskip =>
    refine ⟨0, 0, rfl, rfl, .flat ?_⟩
    simp only [List.forall_mem_cons]
    exact ⟨flat_of_kind hcount.1 (by decide), flat_of_kind hcomma (by decide),
      flat_of_kind hskip.1 (by decide), List.forall_mem_nil _⟩
  | noMembers hname hcomma hopening hclosing =>
    refine ⟨0, 0, rfl, rfl, .flat ?_⟩
    simp only [List.forall_mem_cons]
    exact ⟨flat_of_kind hname (by decide), flat_of_kind hcomma (by decide),
      flat_of_kind hopening (by decide), flat_of_kind hclosing (by decide), List.forall_mem_nil _⟩
  | members hname hcomma hopening hvalues hclosing =>
    refine ⟨0, 0, rfl, rfl, .flat ?_⟩
    simp only [List.forall_mem_cons, List.forall_mem_append]
    exact ⟨flat_of_kind hname (by decide), flat_of_kind hcomma (by decide),
      flat_of_kind hopening (by decide), hvalues.flat fun _ _ hvalue => hvalue.flat,
      flat_of_kind hclosing (by decide), List.forall_mem_nil _⟩

theorem Closed.nested {tokens : List Token} {query : Query} (h : Closed tokens query) :
    Nested tokens 0 query.depth query.nodes.length := by
  refine Closed.induction ?step h
  case step =>
    intro keyword opening closing tokens query hkeyword hopening harguments hclosing
    obtain ⟨depth, nodes, hdepth, hnodes, hnested⟩ :=
      (harguments.mono fun _ _ hoperand => hoperand.2).nested
    rw [hdepth, hnodes]
    exact (hnested.opened hkeyword hopening).closed hclosing

/-- Of a query that is not closed, one parenthesis is left open. -/
theorem Derives.nested {tokens : List Token} {query : Query} (h : Derives tokens query) :
    ∃ left, Nested tokens left query.depth query.nodes.length ∧ (Closed tokens query ∨
      left = 1 ∧ (query.operation = .sort ∨ query.operation = .limit)) := by
  cases h with
  | closed hclosed => exact ⟨0, hclosed.nested, .inl hclosed⟩
  | unclosed hkeyword hopening harguments hoperation =>
    obtain ⟨depth, nodes, hdepth, hnodes, hnested⟩ :=
      (harguments.mono fun _ _ hoperand => hoperand.nested).nested
    rw [hdepth, hnodes]
    exact ⟨1, hnested.opened hkeyword hopening, .inr ⟨rfl, hoperation⟩⟩

end Grammar

/-! ## The tokens of a text -/

/--
The depth of a query is the greatest number of parentheses that are open at once in its text.
There are never more closing than opening ones, and as many at the end, but that of a sort or a
limit that does not close is left. The nodes of the tree are as many as the keywords and as the
opening parentheses.
-/
theorem parse_nesting {text : String} {query : Query} (h : parse text = .ok query) :
    IsGreatest {n | ∃ front, front <+: tokenize text ∧ nesting front = n} (query.depth : Int) ∧
      (∀ front, front <+: tokenize text → 0 ≤ nesting front) ∧
      (Closes text query → nesting (tokenize text) = 0) ∧
      (¬Closes text query →
        (query.operation = .sort ∨ query.operation = .limit) ∧ nesting (tokenize text) = 1) ∧
      query.nodes.length = keywordsIn (tokenize text) ∧
      query.nodes.length = countOf (.mark .openParen) (tokenize text) := by
  obtain ⟨left, hnested, hleft⟩ := (parse_eq_ok_iff_derives.1 h).nested
  refine ⟨⟨?greatest, ?bound⟩, ?low, ?closed, ?left, hnested.keywords.symm, hnested.openings.symm⟩
  case greatest =>
    rw [← hnested.peak_eq]
    exact exists_nesting_eq_peak (tokenize text)
  case bound =>
    rintro _ ⟨front, hfront, rfl⟩
    rw [← hnested.peak_eq]
    exact nesting_le_peak hfront
  case low =>
    intro front hfront
    rw [← hnested.low_eq]
    exact low_le_nesting hfront
  case closed => exact fun hcloses => (closes_iff.1 hcloses).nested.nesting_eq
  case left =>
    intro hopen
    rw [closes_iff] at hopen
    obtain ⟨rfl, hoperation⟩ := hleft.resolve_left hopen
    exact ⟨hoperation, hnested.nesting_eq⟩

/-- A combination within a combination, and a limit that is left open. -/
theorem nesting_of_nested_query :
    IsGreatest {n | ∃ front, front <+: tokenize "or(and(eq(a,1)),sort(b))" ∧ nesting front = n} 3 ∧
      nesting (tokenize "limit(2") = 1 := by
  have hnested : parse "or(and(eq(a,1)),sort(b))" = .ok (.combination .or
      [.combination .and [.comparison .eq "a" (.integer 1)], .sort [⟨"b", .asc⟩]]) := by
    cbv
  have hlimit : parse "limit(2" = .ok (.limit 2 0) := by cbv
  have hopen : ¬Closes "limit(2" (.limit 2 0) := by
    rintro ⟨-, token, hlast, hkind⟩
    have htoken : (tokenize "limit(2").getLast? = some ⟨.integer, "2", 6⟩ := by cbv
    rw [htoken] at hlast
    cases hlast
    cases hkind
  exact ⟨(parse_nesting hnested).1, ((parse_nesting hlimit).2.2.2.1 hopen).2⟩

end ResourceQuery
