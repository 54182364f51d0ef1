import Mathlib
import ResourceQuery.Proofs.Reading.Kinds
import ResourceQuery.Proofs.Token.Beginning
import ResourceQuery.Proofs.Token.Segmentation

/-!
# Queries cut short

What becomes of a query whose text breaks off just before one of its tokens. A sort or a limit may
be left open, so it is still a query if it breaks off before a comma or before its parenthesis: one
with the fields, or the counts, that are left. All else lacks something at the end of the text,
however deep a sort or a limit at its end stands.
-/

namespace ResourceQuery

open Grammar (Derives countOf)
open Situation (Reads)
open Text (byteLength)

/--
What is left of a sort or of a limit that breaks off before a token of a kind, behind so many
names: as many fields as names, as each field has one.
-/
def Query.shortened (names : Nat) (next : Kind) : Query → Query
  | sort fields => sort (fields.take names)
  | limit count skip => limit count (if next = .mark .comma then 0 else skip)
  | query => query

@[simp]
theorem Query.operation_shortened (query : Query) (names : Nat) (next : Kind) :
    (query.shortened names next).operation = query.operation := by
  cases query <;> rfl

namespace Grammar

/-! ## Sort fields -/

/-- No parenthesis stands among the fields of a sort. -/
theorem Joined.ne_closeParen {tokens : List Token} {fields : List SortField}
    (h : Joined Field tokens fields) : ∀ token ∈ tokens, token.kind ≠ .mark .closeParen := by
  refine h.forall_tokens (fun token hcomma hkind => ?_) fun _ _ hfield => ?_
  · rw [hcomma] at hkind
    cases hkind
  · exact hfield.ne_mark (by decide) (by decide)

theorem Field.countOf_text {tokens : List Token} {field : SortField} (h : Field tokens field) :
    countOf .text tokens = 1 := by
  cases h with
  | bare hname => simp [hname]
  | plus hsign hname => simp [hsign, hname]
  | minus hsign hname => simp [hsign, hname]

/-- A sort has as many fields as there are names. -/
theorem Joined.countOf_text {tokens : List Token} {fields : List SortField}
    (h : Joined Field tokens fields) : countOf .text tokens = fields.length := by
  induction h with
  | one hitem => exact hitem.countOf_text
  | more _ hcomma hitem ih => simp [ih, hcomma, hitem.countOf_text]

/-- A comma stands between two items, if there is none within an item. -/
theorem Joined.before_comma {α : Type} {item : List Token → α → Prop}
    (hitem : ∀ tokens x, item tokens x → ∀ token ∈ tokens, token.kind ≠ .mark .comma)
    {before after : List Token} {comma : Token} {xs : List α}
    (h : Joined item (before ++ comma :: after) xs) (hcomma : comma.kind = .mark .comma) :
    ∃ front back, xs = front ++ back ∧ Joined item before front := by
  generalize htokens : before ++ comma :: after = tokens at h
  induction h generalizing after with
  | one hone => exact absurd hcomma (hitem _ _ hone comma (by simp [← htokens]))
  | @more tokens last other xs x hbefore _ hlast ih =>
    -- the comma is among the items before the last comma, or it is the last comma
    rcases split_append htokens.symm with ⟨back, hback⟩ | ⟨between, rfl, hrest⟩
    · obtain ⟨front, back', hfront, hjoined⟩ := ih hback.symm
      exact ⟨front, back' ++ [x], by rw [hfront, List.append_assoc], hjoined⟩
    · cases between with
      | nil =>
        rw [List.append_nil]
        exact ⟨xs, [x], rfl, hbefore⟩
      | cons first between =>
        obtain ⟨-, hrest⟩ := List.cons.inj hrest
        exact absurd hcomma (hitem _ _ hlast comma (by simp [hrest]))

/-! ## What is left is a query -/

/-- A token with which a sort or a limit may be cut off. -/
def Severs (token : Token) : Prop :=
  token.kind = .mark .comma ∨ token.kind = .mark .closeParen

theorem Severs.not_count {token : Token} (h : Severs token) (count : UInt64) :
    ¬Count token count := by
  rintro ⟨hinteger, -⟩
  rw [Severs, hinteger] at h
  rcases h with h | h <;> cases h

/-- The tokens before such a token go on into the arguments. -/
theorem Severs.split {keyword opening token : Token} {inner before after : List Token}
    {op : Operation} (h : Severs token) (hkeyword : keyword.kind = .keyword op)
    (hopening : opening.kind = .mark .openParen)
    (htokens : before ++ token :: after = keyword :: opening :: inner) :
    ∃ front, before = keyword :: opening :: front ∧ inner = front ++ token :: after := by
  match before, htokens with
  | [], htokens =>
    cases htokens
    rw [Severs, hkeyword] at h
    rcases h with h | h <;> cases h
  | [_], htokens =>
    cases htokens
    rw [Severs, hopening] at h
    rcases h with h | h <;> cases h
  | _ :: _ :: front, htokens =>
    cases htokens
    exact ⟨front, rfl, rfl⟩

/-- The arguments before a comma are those of what is left. -/
theorem Arguments.shortened {operand : List Token → Query → Prop} {front back : List Token}
    {token : Token} {query : Query} (h : Arguments operand (front ++ token :: back) query)
    (hoperation : query.operation = .sort ∨ query.operation = .limit) (hsevers : Severs token) :
    Arguments operand front (query.shortened (countOf .text front) token.kind) := by
  generalize htokens : front ++ token :: back = tokens at h
  cases h with
  | sort hfields =>
    subst htokens
    rcases hsevers with hcomma | hclosing
    · obtain ⟨part, rest, rfl, hpart⟩ :=
        hfields.before_comma (fun _ _ h => h.ne_mark (by decide) (by decide)) hcomma
      rw [Query.shortened, hpart.countOf_text, List.take_left]
      exact .sort hpart
    · exact absurd hclosing (hfields.ne_closeParen token (by simp))
  | limit hcount =>
    have htoken := List.mem_singleton.1 (htokens ▸ List.mem_append_right front List.mem_cons_self)
    exact absurd (htoken ▸ hcount) (hsevers.not_count _)
  | limitSkip hcount hcomma hskip =>
    -- the two counts are integers, so the token is the comma between them
    match front, htokens with
    | [], htokens =>
      cases htokens
      exact absurd hcount (hsevers.not_count _)
    | [_], htokens =>
      cases htokens
      rw [Query.shortened, if_pos hcomma]
      exact .limit hcount
    | [_, _], htokens =>
      cases htokens
      exact absurd hskip (hsevers.not_count _)
    | _ :: _ :: _ :: front, htokens => simp at htokens
  | _ => rcases hoperation with hsort | hlimit <;> contradiction

/-- Before its parenthesis a sort or a limit is all there. -/
theorem Arguments.shortened_eq {operand : List Token → Query → Prop} {tokens : List Token}
    {query : Query} (h : Arguments operand tokens query) {next : Kind}
    (hnext : next ≠ .mark .comma) : query.shortened (countOf .text tokens) next = query := by
  cases h with
  | sort hfields => rw [Query.shortened, hfields.countOf_text, List.take_length]
  | limit => rw [Query.shortened, if_neg hnext]
  | limitSkip => rw [Query.shortened, if_neg hnext]
  | _ => rfl

/-- What is left of a sort or of a limit before a comma or its parenthesis is a query. -/
theorem Derives.shortened {before after : List Token} {token : Token} {query : Query}
    (h : Derives (before ++ token :: after) query)
    (hoperation : query.operation = .sort ∨ query.operation = .limit) (hsevers : Severs token) :
    Derives before (query.shortened (countOf .text before) token.kind) := by
  obtain ⟨keyword, opening, inner, ending, htokens, hkeyword, hopening, harguments, hending⟩ :=
    derives_iff_ending.1 h
  obtain ⟨front, rfl, hinner⟩ := hsevers.split hkeyword hopening htokens
  have hnames : countOf .text (keyword :: opening :: front) = countOf .text front := by
    simp [hkeyword, hopening]
  rw [hnames]
  have hleft : Arguments Closed front (query.shortened (countOf .text front) token.kind) := by
    -- the token is one of the arguments, or the parenthesis behind them
    rcases split_append hinner with ⟨back, rfl⟩ | ⟨between, rfl, hbehind⟩
    · exact harguments.shortened hoperation hsevers
    · cases hending with
      | nothing => cases between <;> cases hbehind
      | closing hclosing =>
        cases between with
        | cons => simp at hbehind
        | nil =>
          cases hbehind
          have hnext : token.kind ≠ .mark .comma := by simp [hclosing]
          rwa [List.append_nil, harguments.shortened_eq hnext]
  refine derives_iff_ending.2 ⟨keyword, opening, front, [], ?_, ?_, hopening, hleft, .nothing ?_⟩
  · rw [List.append_nil]
  · rwa [Query.operation_shortened]
  · rwa [Query.operation_shortened]

/-! ## What is left is no query -/

/-- Where the end of the tokens completes a query, only what severs it fits. -/
theorem severs_of_move {place : Place} {query : Query} {token : Token} {move : Move}
    (hcomplete : place.complete? = some query) (hmove : place.move token = .ok move) :
    Severs token := by
  cases place with
  | afterField =>
    simp only [Place.move] at hmove
    split at hmove
    next hkind => exact .inr hkind
    next hkind => exact .inl hkind
    next => cases hmove
  | afterFirstCount =>
    simp only [Place.move] at hmove
    split at hmove
    next hkind => exact .inr hkind
    next hkind => exact .inl hkind
    next => cases hmove
  | afterSecondCount => exact .inr (Place.expect_eq_ok hmove).1
  | _ => cases hcomplete

/-- Only a sort or a limit goes on behind what is a query already. -/
theorem Derives.severs {before after : List Token} {token : Token} {part query : Query}
    (hpart : Derives before part) (h : Derives (before ++ token :: after) query) :
    (part.operation = .sort ∨ part.operation = .limit) ∧ Severs token := by
  rcases reads_of_derives hpart with hreads | ⟨place, hreads, hcomplete⟩
  · exact absurd h (not_derives_of_done hreads query)
  · refine ⟨operation_of_complete? hcomplete, ?_⟩
    cases hmove : place.move token with
    | ok move => exact severs_of_move hcomplete hmove
    | error error =>
      have hstep : Situation.step ⟨[], place⟩ token = .error error := by
        rw [Situation.step, hmove]
        rfl
      exact absurd h (not_derives_of_refused hreads hstep query)

/-- The keyword comes first, so it is that of all that begins alike. -/
theorem Derives.operation_eq {tokens more : List Token} {query query' : Query}
    (h : Derives tokens query) (h' : Derives (tokens ++ more) query') :
    query.operation = query'.operation := by
  obtain ⟨_, _, _, _, rfl, hkeyword, -⟩ := derives_iff_ending.1 h
  obtain ⟨_, _, _, _, htokens, hkeyword', -⟩ := derives_iff_ending.1 h'
  obtain ⟨rfl, -⟩ := List.cons.inj htokens
  rw [hkeyword] at hkeyword'
  exact Kind.keyword.inj hkeyword'

/-- What comes before a token of a query is a query exactly if a sort or a limit is cut off. -/
theorem Derives.beginning_iff {before after : List Token} {token : Token} {query part : Query}
    (h : Derives (before ++ token :: after) query) :
    Derives before part ↔ ((query.operation = .sort ∨ query.operation = .limit) ∧ Severs token) ∧
      part = query.shortened (countOf .text before) token.kind := by
  constructor
  · intro hpart
    obtain ⟨hoperation, hsevers⟩ := hpart.severs h
    rw [hpart.operation_eq h] at hoperation
    exact ⟨⟨hoperation, hsevers⟩, hpart.unique (h.shortened hoperation hsevers)⟩
  · rintro ⟨⟨hoperation, hsevers⟩, rfl⟩
    exact h.shortened hoperation hsevers

end Grammar

/-! ## Texts -/

/-- At the end there is no token to be unknown, and none to be too much. -/
theorem refuseEnd_kind_ne (place : Place) (length : Nat) :
    (place.refuseEnd length).kind ≠ .unknownOperation ∧
      (place.refuseEnd length).kind ≠ .trailingInput := by
  cases place <;> exact ⟨nofun, nofun⟩

/-- What begins a query lacks something at its end, unless it is a query. -/
theorem parse_error_of_beginning {text : String} {more : List Token} {query : Query}
    {error : SyntaxError} (hbeginning : Derives (tokenize text ++ more) query)
    (h : parse text = .error error) :
    error.position = byteLength text.toList ∧ error.kind ≠ .unknownOperation ∧
      error.kind ≠ .trailingInput := by
  cases fails_of_parse h with
  | refused htokens hreads hstep =>
    rw [htokens, List.append_assoc, List.cons_append] at hbeginning
    exact absurd hbeginning (not_derives_of_refused hreads hstep query)
  | trailing htokens hreads =>
    rw [htokens, List.append_assoc, List.cons_append] at hbeginning
    exact absurd hbeginning (not_derives_of_done hreads query)
  | usedUp hreads hend =>
    obtain ⟨place, rfl⟩ := exists_refuseEnd_of_atEnd hend
    exact ⟨rfl, refuseEnd_kind_ne place _⟩

/-- Only of a sort or a limit do the kinds of the tokens begin those of another query. -/
theorem operation_of_kinds_beginning {text other : String} {query query' : Query}
    (h : parse text = .ok query) (h' : parse other = .ok query')
    (hkinds : kindsOf text <+: kindsOf other) (hne : kindsOf text ≠ kindsOf other) :
    query.operation = .sort ∨ query.operation = .limit := by
  obtain ⟨more, hmore⟩ := hkinds
  obtain ⟨taken, rest, htokens, htaken, hrest⟩ := List.map_eq_append_iff.1 hmore.symm
  have hgenuine : ∀ token ∈ taken, token.Genuine := fun token htoken =>
    Lexer.genuine_of_mem_tokens (htokens ▸ List.mem_append_left rest htoken)
  rw [parse_eq_ok_iff_derives, htokens] at h'
  rcases reads_of_parse h with hreads | ⟨situation, hreads, hend⟩
  · obtain ⟨_, hreads', halike⟩ := Situation.Alike.start.reads htaken.symm hgenuine hreads
    cases halike with
    | done =>
      cases rest with
      | nil =>
        rw [List.map_nil] at hrest
        rw [← hrest, List.append_nil] at hmore
        exact absurd hmore hne
      | cons token rest => exact absurd h' (not_derives_of_done hreads' query')
  · exact Grammar.operation_of_complete? (Grammar.atEnd_eq_ok hend).2

/--
A query that is cut short just before one of its tokens is a query only if it is a sort or a limit
and the token is a comma or its parenthesis. Then it has the fields before the cut; a limit keeps
its count, and its skip unless the cut is before the comma. Otherwise it lacks something at its end.
So no other query begins a longer one.
-/
theorem parse_cutShort {text : String} {query : Query} (h : parse text = .ok query) :
    (∀ before token after, tokenize text = before ++ token :: after →
      byteLength (cutShort text token.position).toList = token.position ∧
        tokenize (cutShort text token.position) = before ∧
        (∀ part, parse (cutShort text token.position) = .ok part ↔
          ((query.operation = .sort ∨ query.operation = .limit) ∧
            (token.kind = .mark .comma ∨ token.kind = .mark .closeParen)) ∧
          part = query.shortened (countOf .text before) token.kind) ∧
        ∀ error, parse (cutShort text token.position) = .error error →
          error.position = byteLength (cutShort text token.position).toList ∧
            error.kind ≠ .unknownOperation ∧ error.kind ≠ .trailingInput) ∧
      ∀ other query', parse other = .ok query' → kindsOf text <+: kindsOf other →
        kindsOf text ≠ kindsOf other → query.operation = .sort ∨ query.operation = .limit := by
  refine ⟨?cut, fun _ _ => operation_of_kinds_beginning h⟩
  intro before token after htokens
  rw [parse_eq_ok_iff_derives, htokens] at h
  obtain ⟨hshort, hlength⟩ := tokenize_cutShort htokens
  refine ⟨hlength, hshort, fun part => ?_, fun error herror => ?_⟩
  · rw [parse_eq_ok_iff_derives, hshort]
    exact h.beginning_iff
  · rw [← hshort] at h
    exact parse_error_of_beginning h herror

/-- A sort cut off before a comma is a query; as the operand of a combination it is none. -/
theorem cut_before_second_field :
    parse (cutShort "sort(-b,+c)" 7) = .ok (.sort [⟨"b", .desc⟩]) ∧
      ∀ part, parse (cutShort "or(sort(-b,+c))" 10) ≠ .ok part := by
  have hsort : parse "sort(-b,+c)" = .ok (.sort [⟨"b", .desc⟩, ⟨"c", .asc⟩]) := by cbv
  have hor : parse "or(sort(-b,+c))" =
      .ok (.combination .or [.sort [⟨"b", .desc⟩, ⟨"c", .asc⟩]]) := by
    cbv
  constructor
  · have hcut := (parse_cutShort hsort).1
      ((tokenize "sort(-b,+c)").take 4) ⟨.mark .comma, ",", 7⟩ ((tokenize "sort(-b,+c)").drop 5)
      (by cbv)
    exact (hcut.2.2.1 _).2 ⟨⟨.inl rfl, .inl rfl⟩, by cbv⟩
  · intro part hpart
    have hcut := (parse_cutShort hor).1
      ((tokenize "or(sort(-b,+c))").take 6) ⟨.mark .comma, ",", 10⟩
      ((tokenize "or(sort(-b,+c))").drop 7) (by cbv)
    rcases ((hcut.2.2.1 part).1 hpart).1.1 with hsort | hlimit
    · cases hsort
    · cases hlimit

end ResourceQuery
