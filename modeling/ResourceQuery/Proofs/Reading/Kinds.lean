import ResourceQuery.Proofs.Grammar.Fault
import ResourceQuery.Proofs.Reading.Alike

/-!
# What parsing depends on

Parsing looks at the kinds of the tokens only, and only at those up to the first fault. The texts
of the tokens get into the names and values of the query, and into the message of an error, but
they decide nothing.
-/

namespace ResourceQuery

open Grammar (endSpot?)

/-! ## The end of alike runs -/

theorem Place.Alike.complete? {place place' : Place} {query : Query} (h : place.Alike place')
    (hcomplete : place.complete? = some query) :
    ∃ query', place'.complete? = some query' ∧ query.form = query'.form := by
  cases h with
  | afterField hfields =>
    cases hcomplete
    exact ⟨_, rfl, by rw [Query.form, Query.form, hfields]⟩
  | afterFirstCount =>
    cases hcomplete
    exact ⟨_, rfl, rfl⟩
  | afterSecondCount =>
    cases hcomplete
    exact ⟨_, rfl, rfl⟩
  | _ => cases hcomplete

/-- Where the end completes a query, it completes one of the same form in an alike situation. -/
theorem Situation.Alike.atEnd_ok {situation situation' : Situation} {length : Nat} {query : Query}
    (h : situation.Alike situation') (hend : situation.atEnd length = .ok query) (length' : Nat) :
    ∃ query', situation'.atEnd length' = .ok query' ∧ query.form = query'.form := by
  obtain ⟨hframes, hcomplete⟩ := Grammar.atEnd_eq_ok hend
  obtain ⟨query', hcomplete', hform⟩ := h.place.complete? hcomplete
  have hframes' := h.frames
  rw [hframes, List.map_nil, eq_comm, List.map_eq_nil_iff] at hframes'
  refine ⟨query', ?_, hform⟩
  rw [Situation.atEnd, hcomplete', hframes']
  rfl

theorem Situation.Alike.endSpot?_eq {situation situation' : Situation}
    (h : situation.Alike situation') : endSpot? situation = endSpot? situation' := by
  obtain ⟨frames, place⟩ := situation
  obtain ⟨frames', place'⟩ := situation'
  obtain ⟨hframes, hplace⟩ := h
  -- what counts of the frames is only whether there are any
  cases frames with
  | nil =>
    rw [List.map_nil, eq_comm, List.map_eq_nil_iff] at hframes
    cases hframes
    cases hplace <;> rfl
  | cons =>
    obtain ⟨_, _, rfl, -, -⟩ := List.map_eq_cons_iff.1 hframes.symm
    cases hplace <;> rfl

/-- Where the end is an error, it is one of the same kind in an alike situation. -/
theorem Situation.Alike.atEnd_error {situation situation' : Situation} {length : Nat}
    {error : SyntaxError} (h : situation.Alike situation')
    (hend : situation.atEnd length = .error error) (length' : Nat) :
    ∃ error', situation'.atEnd length' = .error error' ∧ error'.kind = error.kind := by
  cases hend' : situation'.atEnd length' with
  | ok query =>
    obtain ⟨query', hok, -⟩ := h.symm.atEnd_ok hend' length
    rw [hend] at hok
    cases hok
  | error error' =>
    obtain ⟨spot, hspot, hkind⟩ := kind_of_atEnd hend
    obtain ⟨spot', hspot', hkind'⟩ := kind_of_atEnd hend'
    rw [← h.endSpot?_eq, hspot] at hspot'
    cases hspot'
    exact ⟨error', rfl, hkind'.trans hkind.symm⟩

/-! ## Two texts -/

/-- The kinds of the tokens of a text. -/
def kindsOf (text : String) : List Kind :=
  (tokenize text).map Token.kind

/-- Parsing a text fails at its token number `i`, counted from zero. -/
structure FailsAt (text : String) (i : Nat) (token : Token) (error : SyntaxError) : Prop where
  parse_eq : parse text = .error error
  token_eq : (tokenize text)[i]? = some token
  position_eq : error.position = token.position

/-- Both texts are accepted with queries of one form, or both fail alike at the same place. -/
inductive SameOutcome (a b : String) : Prop
  | parsed {query query' : Query} (ha : parse a = .ok query) (hb : parse b = .ok query')
      (hform : query.form = query'.form)
  | atToken {i : Nat} {token token' : Token} {error error' : SyntaxError}
      (ha : FailsAt a i token error) (hb : FailsAt b i token' error')
      (hkind : error'.kind = error.kind)
  | atEnd {error error' : SyntaxError} (ha : parse a = .error error) (hb : parse b = .error error')
      (hkind : error'.kind = error.kind)
      (hposition : error.position = Text.byteLength a.toList)
      (hposition' : error'.position = Text.byteLength b.toList)

/-- The end of a text is behind all its tokens. -/
theorem FailsAt.position_lt {text : String} {i : Nat} {token : Token} {error : SyntaxError}
    (h : FailsAt text i token error) : error.position < Text.byteLength text.toList := by
  have hmem : token ∈ tokenize text := List.mem_of_getElem? h.token_eq
  rw [h.position_eq, ← endPosition_ofString]
  exact (Lexer.position_of_mem_tokens hmem).2

/-- A position tells which token of a text stands there. -/
theorem FailsAt.split {text : String} {i : Nat} {token token' : Token} {error : SyntaxError}
    {before after : List Token} (h : FailsAt text i token error)
    (htokens : tokenize text = before ++ token' :: after)
    (hposition : error.position = token'.position) : i = before.length ∧ token = token' := by
  have hother := (standsAt_of_tokenize htokens).position_ne
  have heq := h.position_eq.symm.trans hposition
  have htoken := h.token_eq
  rw [htokens] at htoken
  rcases Nat.lt_trichotomy i before.length with hlt | rfl | hgt
  · rw [List.getElem?_append_left hlt] at htoken
    exact absurd heq (hother token (List.mem_append_left _ (List.mem_of_getElem? htoken)))
  · rw [List.getElem?_append_right (Nat.le_refl _), Nat.sub_self] at htoken
    exact ⟨rfl, (Option.some.inj htoken).symm⟩
  · have hlength : (before ++ [token']).length ≤ i := by
      rw [List.length_append, List.length_singleton]
      omega
    rw [List.append_cons, List.getElem?_append_right hlength] at htoken
    exact absurd heq (hother token (List.mem_append_right _ (List.mem_of_getElem? htoken)))

/-- A token at fault is refused, unless a query is complete before it. -/
theorem FailsAt.refused {text : String} {i : Nat} {token : Token} {error : SyntaxError}
    (h : FailsAt text i token error) (hkind : error.kind ≠ .trailingInput) :
    ∃ taken rest situation, tokenize text = taken ++ token :: rest ∧ taken.length = i ∧
      Situation.Reads .start taken (.on situation) ∧ situation.step token = .error error := by
  cases fails_of_parse h.parse_eq with
  | refused htokens hreads hstep =>
    obtain ⟨hgenuine, -⟩ := genuine_of_tokenize htokens
    obtain ⟨rfl, rfl⟩ := h.split htokens (position_of_step hgenuine hstep)
    exact ⟨_, _, _, htokens, rfl, hreads, hstep⟩
  | usedUp _ hend => exact absurd (position_of_atEnd hend) (Nat.ne_of_lt h.position_lt)
  | trailing _ _ herror => exact absurd (congrArg SyntaxError.kind herror) hkind

/-- Tokens whose first kinds are given, up to the last of these. -/
theorem exists_split_of_kinds {taken tokens : List Token} {kind : Kind} {n : Nat}
    (h : (tokens.map Token.kind).take n = taken.map Token.kind ++ [kind]) :
    ∃ taken' token' rest', tokens = taken' ++ token' :: rest' ∧
      taken.map Token.kind = taken'.map Token.kind ∧ kind = token'.kind := by
  rw [← List.map_take] at h
  obtain ⟨taken', last, htake, htaken, hlast⟩ := List.map_eq_append_iff.1 h
  obtain ⟨token', rfl, hkind⟩ := List.map_eq_singleton_iff.1 hlast
  refine ⟨taken', token', tokens.drop n, ?_, htaken.symm, hkind.symm⟩
  rw [List.append_cons, ← htake, List.take_append_drop]

/--
Where the kinds up to a fault are the same, the other text has a token in the place of the one at
fault, and before it tokens of the kinds that stand before the fault.
-/
theorem FailsAt.counterpart {a b : String} {i : Nat} {token first : Token} {error : SyntaxError}
    {taken rest : List Token} (h : FailsAt a i token error)
    (hkinds : (kindsOf b).take (i + 1) = (kindsOf a).take (i + 1))
    (htokens : tokenize a = taken ++ first :: rest) (hposition : error.position = first.position) :
    token = first ∧ ∃ taken' token' rest', tokenize b = taken' ++ token' :: rest' ∧
      taken.map Token.kind = taken'.map Token.kind ∧ first.kind = token'.kind ∧
      (tokenize b)[i]? = some token' := by
  obtain ⟨rfl, rfl⟩ := h.split htokens hposition
  have hfirst : (kindsOf a).take (taken.length + 1) = taken.map Token.kind ++ [token.kind] := by
    rw [kindsOf, htokens, List.map_append, List.map_cons, List.append_cons]
    exact List.take_left' (by simp)
  obtain ⟨taken', token', rest', htokens', htaken, hkind⟩ :=
    exists_split_of_kinds (hkinds.trans hfirst)
  have hlength : taken.length = taken'.length := by
    simpa using congrArg List.length htaken
  refine ⟨rfl, taken', token', rest', htokens', htaken, hkind, ?_⟩
  rw [htokens', hlength, List.getElem?_append_right (Nat.le_refl _), Nat.sub_self]
  rfl

/-- A fault at a token is the same in every text whose tokens up to there are of the same kinds. -/
theorem FailsAt.of_kinds {a b : String} {i : Nat} {token : Token} {error : SyntaxError}
    (h : FailsAt a i token error) (hkinds : (kindsOf b).take (i + 1) = (kindsOf a).take (i + 1)) :
    ∃ token' error', FailsAt b i token' error' ∧ error'.kind = error.kind ∧
      (token'.text = token.text → error'.message = error.message) := by
  cases fails_of_parse h.parse_eq with
  | refused htokens hreads hstep =>
    obtain ⟨hgenuine, -⟩ := genuine_of_tokenize htokens
    obtain ⟨rfl, taken', token', rest', htokens', htaken, hkind, htoken'⟩ :=
      h.counterpart hkinds htokens (position_of_step hgenuine hstep)
    obtain ⟨hgenuine', hgenuines'⟩ := genuine_of_tokenize htokens'
    obtain ⟨_, hreads', halike⟩ := Situation.Alike.start.reads htaken hgenuines' hreads
    cases halike with
    | on hsituation =>
      obtain ⟨error', hstep', hsame⟩ := hsituation.refused hkind hgenuine hgenuine' hstep
      have hposition' := position_of_step hgenuine' hstep'
      exact ⟨token', error', ⟨parse_of_refused htokens' hreads' hstep', htoken', hposition'⟩, hsame⟩
  | trailing htokens hreads herror =>
    obtain ⟨rfl, taken', token', rest', htokens', htaken, -, htoken'⟩ :=
      h.counterpart hkinds htokens (by rw [herror])
    obtain ⟨-, hgenuines'⟩ := genuine_of_tokenize htokens'
    obtain ⟨_, hreads', halike⟩ := Situation.Alike.start.reads htaken hgenuines' hreads
    cases halike with
    | done =>
      refine ⟨token', _, ⟨parse_of_trailing htokens' hreads', htoken', rfl⟩, by rw [herror], ?_⟩
      intro htext
      rw [herror, Token.quoted, Token.quoted, htext]
  | usedUp hreads hend =>
    -- no token stands at the end
    exact absurd (position_of_atEnd hend) (Nat.ne_of_lt h.position_lt)

/-- Behind the tokens before it, the token at fault has their number. -/
theorem failsAt_of_tokenize {text : String} {before after : List Token} {token : Token}
    {error : SyntaxError} (hparse : parse text = .error error)
    (htokens : tokenize text = before ++ token :: after)
    (hposition : error.position = token.position) : FailsAt text before.length token error := by
  refine ⟨hparse, ?_, hposition⟩
  rw [htokens, List.getElem?_append_right (Nat.le_refl _), Nat.sub_self]
  rfl

/-- Texts with tokens of the same kinds come to the same, up to names, values and messages. -/
theorem sameOutcome_of_kinds {a b : String} (h : kindsOf a = kindsOf b) : SameOutcome a b := by
  have hgenuine : ∀ token ∈ tokenize b, token.Genuine := fun _ => Lexer.genuine_of_mem_tokens
  have hat : ∀ {i token error}, FailsAt a i token error → SameOutcome a b := by
    intro i token error ha
    have hkinds : (kindsOf b).take (i + 1) = (kindsOf a).take (i + 1) := by rw [h]
    obtain ⟨token', error', hb, hkind, -⟩ := ha.of_kinds hkinds
    exact .atToken ha hb hkind
  cases hparse : parse a with
  | ok query =>
    rcases reads_of_parse hparse with hreads | ⟨situation, hreads, hend⟩
    · obtain ⟨_, hreads', halike⟩ := Situation.Alike.start.reads h hgenuine hreads
      cases halike with
      | done hquery => exact .parsed hparse (parse_of_done hreads') hquery
    · obtain ⟨_, hreads', halike⟩ := Situation.Alike.start.reads h hgenuine hreads
      cases halike with
      | on hsituation =>
        obtain ⟨query', hend', hquery⟩ := hsituation.atEnd_ok hend (Text.byteLength b.toList)
        exact .parsed hparse ((parse_of_usedUp hreads').trans hend') hquery
  | error error =>
    cases fails_of_parse hparse with
    | refused htokens hreads hstep =>
      obtain ⟨hgenuine', -⟩ := genuine_of_tokenize htokens
      exact hat (failsAt_of_tokenize hparse htokens (position_of_step hgenuine' hstep))
    | trailing htokens hreads herror =>
      exact hat (failsAt_of_tokenize hparse htokens (by rw [herror]))
    | usedUp hreads hend =>
      obtain ⟨_, hreads', halike⟩ := Situation.Alike.start.reads h hgenuine hreads
      cases halike with
      | on hsituation =>
        obtain ⟨error', hend', hkind⟩ := hsituation.atEnd_error hend (Text.byteLength b.toList)
        exact .atEnd hparse ((parse_of_usedUp hreads').trans hend') hkind (position_of_atEnd hend)
          (position_of_atEnd hend')

/--
Parsing depends on the kinds of the tokens alone, and a fault at a token only on the kinds up to
that token, whatever follows; its message depends on the text of no other token.
-/
theorem parse_depends_on_kinds (a b : String) :
    (∀ i token error, FailsAt a i token error →
      (kindsOf b).take (i + 1) = (kindsOf a).take (i + 1) →
      ∃ token' error', FailsAt b i token' error' ∧ error'.kind = error.kind ∧
        (token'.text = token.text → error'.message = error.message)) ∧
      (kindsOf a = kindsOf b → SameOutcome a b) :=
  ⟨fun _ _ _ h hkinds => h.of_kinds hkinds, sameOutcome_of_kinds⟩

/-- Neither the name before the fault nor the tokens behind it count. -/
theorem same_fault_whatever_follows :
    FailsAt "lt(a,)" 4 ⟨.mark .closeParen, ")", 5⟩
        ⟨.expectedValue, "expected value, found ')'", 5⟩ ∧
      ∃ token error, FailsAt "lt( price , ) -1 in" 4 token error ∧ error.kind = .expectedValue := by
  have hfails : FailsAt "lt(a,)" 4 ⟨.mark .closeParen, ")", 5⟩
      ⟨.expectedValue, "expected value, found ')'", 5⟩ := by
    refine ⟨?_, ?_, rfl⟩
    · cbv
    · cbv
  have hkinds : (kindsOf "lt( price , ) -1 in").take 5 = (kindsOf "lt(a,)").take 5 := by
    cbv
  obtain ⟨token, error, hb, hkind, -⟩ := (parse_depends_on_kinds _ _).1 _ _ _ hfails hkinds
  exact ⟨hfails, token, error, hb, hkind⟩

end ResourceQuery
