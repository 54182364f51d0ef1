import ResourceQuery.Proofs.Grammar.Spot
import ResourceQuery.Proofs.Query.Form
import ResourceQuery.Proofs.Reading.Refusal

/-!
# Two runs over tokens of the same kinds

Two situations are alike if they differ in names and values only. From alike situations, tokens of
the same kind are both taken, and lead to alike situations, or both refused, with the same kind of
error. So two runs over tokens of the same kinds stay alike to the end.
-/

namespace ResourceQuery

open Query (formsOf formsOf_append)

/-! ## What is alike -/

inductive Slot.Alike : Slot → Slot → Prop
  | comparison {op : Comparison} {name name' : String} :
      Alike (.comparison op name) (.comparison op name')
  | member {op : Membership} {name name' : String} {before before' : List Literal}
      (hbefore : before.map Literal.form = before'.map Literal.form) :
      Alike (.member op name before) (.member op name' before')

/-- The same place, up to the names and values that have been gathered. -/
inductive Place.Alike : Place → Place → Prop
  | query : Alike .query .query
  | opening {op : Operation} : Alike (.opening op) (.opening op)
  | property {test : Test} : Alike (.property test) (.property test)
  | afterProperty {test : Test} {name name' : String} :
      Alike (.afterProperty test name) (.afterProperty test name')
  | bracket {op : Membership} {name name' : String} : Alike (.bracket op name) (.bracket op name')
  | firstValue {op : Membership} {name name' : String} :
      Alike (.firstValue op name) (.firstValue op name')
  | value {slot slot' : Slot} (hslot : slot.Alike slot') : Alike (.value slot) (.value slot')
  | number {slot slot' : Slot} {negative : Bool} (hslot : slot.Alike slot') :
      Alike (.number slot negative) (.number slot' negative)
  | afterValue {op : Membership} {name name' : String} {values values' : List Literal}
      (hvalues : values.map Literal.form = values'.map Literal.form) :
      Alike (.afterValue op name values) (.afterValue op name' values')
  | closing {query query' : Query} (hquery : query.form = query'.form) :
      Alike (.closing query) (.closing query')
  | field {before before' : List SortField}
      (hbefore : before.map SortField.direction = before'.map SortField.direction) :
      Alike (.field before) (.field before')
  | fieldProperty {before before' : List SortField} {direction : Direction}
      (hbefore : before.map SortField.direction = before'.map SortField.direction) :
      Alike (.fieldProperty before direction) (.fieldProperty before' direction)
  | afterField {fields fields' : List SortField}
      (hfields : fields.map SortField.direction = fields'.map SortField.direction) :
      Alike (.afterField fields) (.afterField fields')
  | firstCount : Alike .firstCount .firstCount
  | afterFirstCount {count count' : UInt64} :
      Alike (.afterFirstCount count) (.afterFirstCount count')
  | secondCount {count count' : UInt64} : Alike (.secondCount count) (.secondCount count')
  | afterSecondCount {count count' skip skip' : UInt64} :
      Alike (.afterSecondCount count skip) (.afterSecondCount count' skip')
  | afterOperand {op : Combinator} {operands operands' : List Query}
      (hoperands : formsOf operands = formsOf operands') :
      Alike (.afterOperand op operands) (.afterOperand op operands')

inductive Move.Alike : Move → Move → Prop
  | goTo {place place' : Place} (hplace : place.Alike place') : Alike (.goTo place) (.goTo place')
  | dispatch {op : Operation} : Alike (.dispatch op) (.dispatch op)
  | descend {op : Combinator} {before before' : List Query}
      (hbefore : formsOf before = formsOf before') :
      Alike (.descend op before) (.descend op before')
  | finish {query query' : Query} (hquery : query.form = query'.form) :
      Alike (.finish query) (.finish query')

/-- What is left of an open combination without names and values. -/
def Frame.form (frame : Frame) : Combinator × List QueryForm :=
  (frame.op, formsOf frame.before)

structure Situation.Alike (situation situation' : Situation) : Prop where
  frames : situation.frames.map Frame.form = situation'.frames.map Frame.form
  place : situation.place.Alike situation'.place

inductive Situation.Next.Alike : Situation.Next → Situation.Next → Prop
  | done {query query' : Query} (hquery : query.form = query'.form) :
      Alike (.done query) (.done query')
  | on {situation situation' : Situation} (hsituation : situation.Alike situation') :
      Alike (.on situation) (.on situation')

theorem Slot.Alike.symm {slot slot' : Slot} (h : slot.Alike slot') : slot'.Alike slot := by
  cases h with
  | comparison => exact .comparison
  | member hbefore => exact .member hbefore.symm

theorem Place.Alike.symm {place place' : Place} (h : place.Alike place') : place'.Alike place := by
  cases h with
  | query => exact .query
  | opening => exact .opening
  | property => exact .property
  | afterProperty => exact .afterProperty
  | bracket => exact .bracket
  | firstValue => exact .firstValue
  | value hslot => exact .value hslot.symm
  | number hslot => exact .number hslot.symm
  | afterValue hvalues => exact .afterValue hvalues.symm
  | closing hquery => exact .closing hquery.symm
  | field hbefore => exact .field hbefore.symm
  | fieldProperty hbefore => exact .fieldProperty hbefore.symm
  | afterField hfields => exact .afterField hfields.symm
  | firstCount => exact .firstCount
  | afterFirstCount => exact .afterFirstCount
  | secondCount => exact .secondCount
  | afterSecondCount => exact .afterSecondCount
  | afterOperand hoperands => exact .afterOperand hoperands.symm

theorem Situation.Alike.symm {situation situation' : Situation}
    (h : situation.Alike situation') : situation'.Alike situation :=
  ⟨h.frames.symm, h.place.symm⟩

/-! ## One token -/

/-- The variant of the literal that a token of a kind denotes. -/
def Kind.literalForm : Kind → LiteralForm
  | integer => .integer
  | float => .float
  | _ => .text

namespace Place

theorem form_of_readLiteral {token : Token} {value : Literal} (h : readLiteral token = .ok value) :
    value.form = token.kind.literalForm := by
  unfold readLiteral at h
  split at h
  next literal hliteral =>
    cases h
    unfold Token.literal? at hliteral
    split at hliteral
    next hkind =>
      obtain ⟨n, -, rfl⟩ := Option.map_eq_some_iff.1 hliteral
      rw [hkind]
      rfl
    next hkind =>
      obtain ⟨x, -, rfl⟩ := Option.map_eq_some_iff.1 hliteral
      rw [hkind]
      rfl
    next hinteger hfloat =>
      cases hliteral
      unfold Kind.literalForm
      split
      next hkind => exact absurd hkind hinteger
      next hkind => exact absurd hkind hfloat
      next => rfl
  next => cases h

/-- Tokens of the same kind denote literals of the same variant. -/
theorem exists_readLiteral_alike {token token' : Token} {value : Literal}
    (hkind : token.kind = token'.kind) (hgenuine : token'.Genuine)
    (h : readLiteral token = .ok value) :
    ∃ value', readLiteral token' = .ok value' ∧ value.form = value'.form := by
  obtain ⟨value', hread⟩ := exists_readLiteral hgenuine
  refine ⟨value', hread, ?_⟩
  rw [form_of_readLiteral h, form_of_readLiteral hread, hkind]

end Place

theorem Slot.Alike.fill {slot slot' : Slot} {value value' : Literal} (h : slot.Alike slot')
    (hvalue : value.form = value'.form) : (slot.fill value).Alike (slot'.fill value') := by
  cases h with
  | comparison =>
    apply Place.Alike.closing
    rw [Query.form, Query.form, hvalue]
  | member hbefore =>
    apply Place.Alike.afterValue
    simp only [List.map_append, List.map_cons, List.map_nil, hbefore, hvalue]

namespace Place

section

variable {place place' : Place} {token token' : Token} {move : Move}

theorem expect_alike {kind : Kind} {move' made : Move} (hkind : token.kind = token'.kind)
    (halike : move.Alike move') (h : place.expect kind token move = .ok made) :
    ∃ made', place'.expect kind token' move' = .ok made' ∧ made.Alike made' := by
  obtain ⟨hfits, rfl⟩ := expect_eq_ok h
  exact ⟨move', expect_of_kind (hkind.symm.trans hfits), halike⟩

theorem moveCount_alike {next next' : UInt64 → Place} (hkind : token.kind = token'.kind)
    (hgenuine : token'.Genuine) (halike : ∀ count count', (next count).Alike (next' count'))
    (h : place.moveCount token next = .ok move) :
    ∃ move', place'.moveCount token' next' = .ok move' ∧ move.Alike move' := by
  obtain ⟨count, hcount, rfl⟩ := Grammar.count_of_moveCount h
  have hinteger : token'.kind = .integer := hkind.symm.trans hcount.1
  obtain ⟨n, -, -, hread⟩ := hgenuine.readings.1 hinteger
  exact ⟨_, Grammar.moveCount_of_count ⟨hinteger, hread⟩, .goTo (halike _ _)⟩

theorem moveValue_alike {slot slot' : Slot} (hkind : token.kind = token'.kind)
    (hgenuine : token'.Genuine) (hslot : slot.Alike slot')
    (h : place.moveValue token slot = .ok move) :
    ∃ move', place'.moveValue token' slot' = .ok move' ∧ move.Alike move' := by
  unfold moveValue at h ⊢
  rw [hkind] at h
  split at h
  case h_4 | h_5 =>
    cases h
    exact ⟨_, rfl, .goTo (.number hslot)⟩
  case h_6 => cases h
  all_goals
    -- a literal fills the slot
    obtain ⟨value, hread, rfl⟩ := map_eq_ok h
    obtain ⟨value', hread', hvalue⟩ := exists_readLiteral_alike hkind hgenuine hread
    rw [hread']
    exact ⟨_, rfl, .goTo (hslot.fill hvalue)⟩

theorem moveNumber_alike {slot slot' : Slot} {negative : Bool} (hkind : token.kind = token'.kind)
    (hgenuine : token'.Genuine) (hslot : slot.Alike slot')
    (h : place.moveNumber token slot negative = .ok move) :
    ∃ move', place'.moveNumber token' slot' negative = .ok move' ∧ move.Alike move' := by
  unfold moveNumber at h ⊢
  rw [hkind] at h
  split at h
  case h_3 => cases h
  all_goals
    obtain ⟨value, hread, rfl⟩ := map_eq_ok h
    obtain ⟨value', hread', hvalue⟩ := exists_readLiteral_alike hkind hgenuine hread
    rw [hread']
    refine ⟨_, rfl, .goTo (hslot.fill ?_)⟩
    cases negative with
    | false => exact hvalue
    | true => exact (value.form_negated.trans hvalue).trans value'.form_negated.symm

theorem enter_alike (op : Operation) : (enter op).Alike (enter op) := by
  cases op with
  | comparison => exact .goTo .property
  | combination => exact .descend rfl
  | sort => exact .goTo (.field rfl)
  | limit => exact .goTo .firstCount
  | membership => exact .goTo .property

theorem afterComma_alike (name name' : String) (test : Test) :
    (afterComma name test).Alike (afterComma name' test) := by
  cases test with
  | comparison => exact .value .comparison
  | membership => exact .bracket

/-- What a token does at a place, one of the same kind does at a place like it. -/
theorem Alike.exists_move (h : place.Alike place') (hkind : token.kind = token'.kind)
    (hgenuine : token'.Genuine) (hmove : place.move token = .ok move) :
    ∃ move', place'.move token' = .ok move' ∧ move.Alike move' := by
  cases h with
  | query =>
    simp only [Place.move, hkind] at hmove ⊢
    split at hmove
    next => exact ⟨_, rfl, by cases hmove; exact .dispatch⟩
    next => cases hmove
  | opening => exact expect_alike hkind (enter_alike _) hmove
  | property => exact expect_alike hkind (.goTo .afterProperty) hmove
  | afterProperty => exact expect_alike hkind (.goTo (afterComma_alike _ _ _)) hmove
  | bracket => exact expect_alike hkind (.goTo .firstValue) hmove
  | firstValue =>
    simp only [Place.move, hkind] at hmove ⊢
    split at hmove
    next =>
      cases hmove
      exact ⟨_, rfl, .goTo (.closing rfl)⟩
    next => exact moveValue_alike hkind hgenuine (.member rfl) hmove
  | value hslot => exact moveValue_alike hkind hgenuine hslot hmove
  | number hslot => exact moveNumber_alike hkind hgenuine hslot hmove
  | afterValue hvalues =>
    simp only [Place.move, hkind] at hmove ⊢
    split at hmove
    next =>
      cases hmove
      exact ⟨_, rfl, .goTo (.value (.member hvalues))⟩
    next =>
      cases hmove
      exact ⟨_, rfl, .goTo (.closing (by rw [Query.form, Query.form, hvalues]))⟩
    next => cases hmove
  | closing hquery => exact expect_alike hkind (.finish hquery) hmove
  | field hbefore =>
    simp only [Place.move, hkind] at hmove ⊢
    split at hmove
    next =>
      cases hmove
      exact ⟨_, rfl, .goTo (.fieldProperty hbefore)⟩
    next =>
      cases hmove
      exact ⟨_, rfl, .goTo (.fieldProperty hbefore)⟩
    next =>
      refine expect_alike hkind (.goTo (.afterField ?_)) hmove
      rw [List.map_append, List.map_append, hbefore]
      rfl
  | fieldProperty hbefore =>
    refine expect_alike hkind (.goTo (.afterField ?_)) hmove
    rw [List.map_append, List.map_append, hbefore]
    rfl
  | afterField hfields =>
    simp only [Place.move, hkind] at hmove ⊢
    split at hmove
    next =>
      cases hmove
      exact ⟨_, rfl, .finish (by rw [Query.form, Query.form, hfields])⟩
    next =>
      cases hmove
      exact ⟨_, rfl, .goTo (.field hfields)⟩
    next => cases hmove
  | firstCount =>
    exact moveCount_alike hkind hgenuine (fun _ _ => .afterFirstCount) hmove
  | afterFirstCount =>
    simp only [Place.move, hkind] at hmove ⊢
    split at hmove
    next =>
      cases hmove
      exact ⟨_, rfl, .finish rfl⟩
    next =>
      cases hmove
      exact ⟨_, rfl, .goTo .secondCount⟩
    next => cases hmove
  | secondCount =>
    exact moveCount_alike hkind hgenuine (fun _ _ => .afterSecondCount) hmove
  | afterSecondCount =>
    refine expect_alike hkind ?_ hmove
    exact .finish rfl
  | afterOperand hoperands =>
    simp only [Place.move, hkind] at hmove ⊢
    split at hmove
    next =>
      cases hmove
      exact ⟨_, rfl, .descend hoperands⟩
    next =>
      cases hmove
      exact ⟨_, rfl, .finish (by rw [Query.form, Query.form, hoperands])⟩
    next => cases hmove

end

theorem Alike.placeSpot_eq {place place' : Place} (h : place.Alike place') :
    Grammar.placeSpot place = Grammar.placeSpot place' := by
  cases h <;> rfl

/-- The kind of a complaint depends on the kind of the token only, if there is one. -/
theorem Alike.complaint_kind {place place' : Place} {found found' : Option Token}
    (h : place.Alike place') (hfound : found.map Token.kind = found'.map Token.kind) :
    (place.complaint found).1 = (place'.complaint found').1 := by
  rw [Grammar.complaint_kind, Grammar.complaint_kind, h.placeSpot_eq, hfound]

/-- Tokens of the same kind and text are complained of in the same way. -/
theorem Alike.complaint_eq {place place' : Place} {token token' : Token} (h : place.Alike place')
    (hkind : token.kind = token'.kind) (htext : token.text = token'.text) :
    place.complaint (some token) = place'.complaint (some token') := by
  have hquoted : token.quoted = token'.quoted := by rw [Token.quoted, Token.quoted, htext]
  have his : ∀ kind, token.is kind = token'.is kind := by
    intro kind
    rw [Token.is, Token.is, hkind]
  cases h <;> simp only [complaint, lacking, Option.map_some, Option.all_some, his, hquoted]

end Place

open Situation (Reads)

/-! ## A run -/

theorem Situation.Alike.start : Situation.start.Alike Situation.start :=
  ⟨rfl, .query⟩

theorem complete_alike {frames frames' : List Frame} {query query' : Query}
    (hframes : frames.map Frame.form = frames'.map Frame.form) (hquery : query.form = query'.form) :
    (Situation.complete query frames).Alike (Situation.complete query' frames') := by
  cases frames with
  | nil =>
    cases frames' with
    | nil => exact .done hquery
    | cons => cases hframes
  | cons frame frames =>
    cases frames' with
    | nil => cases hframes
    | cons frame' frames' =>
      simp only [List.map_cons, List.cons.injEq, Frame.form, Prod.mk.injEq] at hframes
      obtain ⟨⟨hop, hbefore⟩, hframes⟩ := hframes
      refine .on ⟨hframes, ?_⟩
      simp only [Frame.resume, hop]
      apply Place.Alike.afterOperand
      rw [formsOf_append, formsOf_append, hbefore, formsOf, formsOf, hquery]
      rfl

theorem after_alike {frames frames' : List Frame} {move move' : Move}
    (hframes : frames.map Frame.form = frames'.map Frame.form) (hmove : move.Alike move') :
    (Situation.after frames move).Alike (Situation.after frames' move') := by
  cases hmove with
  | goTo hplace => exact .on ⟨hframes, hplace⟩
  | dispatch => exact .on ⟨hframes, .opening⟩
  | descend hbefore =>
    refine .on ⟨?_, .query⟩
    simp only [List.map_cons, Frame.form, hbefore, hframes]
  | finish hquery => exact complete_alike hframes hquery

section

variable {situation situation' : Situation}

/-- One step from alike situations. -/
theorem Situation.Alike.step {token token' : Token} {next : Situation.Next}
    (h : situation.Alike situation') (hkind : token.kind = token'.kind)
    (hgenuine : token'.Genuine) (hstep : situation.step token = .ok next) :
    ∃ next', situation'.step token' = .ok next' ∧ next.Alike next' := by
  obtain ⟨move, hmove, rfl⟩ := map_eq_ok hstep
  obtain ⟨move', hmove', halike⟩ := h.place.exists_move hkind hgenuine hmove
  exact ⟨_, Situation.step_of_move hmove', after_alike h.frames halike⟩

/-- A token is refused wherever one of the same kind is. -/
theorem Situation.Alike.refused {token token' : Token} {error : SyntaxError}
    (h : situation.Alike situation') (hkind : token.kind = token'.kind) (hgenuine : token.Genuine)
    (hgenuine' : token'.Genuine) (hstep : situation.step token = .error error) :
    ∃ error', situation'.step token' = .error error' ∧ error'.kind = error.kind ∧
      (token'.text = token.text → error'.message = error.message) := by
  have hmove := map_eq_error hstep
  cases hmove' : situation'.place.move token' with
  | ok move' =>
    -- else the first token would have been taken as well
    obtain ⟨move, htaken, -⟩ := h.place.symm.exists_move hkind.symm hgenuine hmove'
    rw [hmove] at htaken
    cases htaken
  | error error' =>
    refine ⟨error', by rw [Situation.step, hmove']; rfl, ?_⟩
    rw [Place.refuse_of_move hgenuine hmove, Place.refuse_of_move hgenuine' hmove']
    have hfound : (some token).map Token.kind = (some token').map Token.kind := congrArg some hkind
    refine ⟨(h.place.complaint_kind hfound).symm, ?_⟩
    intro htext
    exact congrArg Prod.snd (h.place.complaint_eq hkind htext.symm).symm

/-- A run over tokens of the same kinds. -/
theorem Situation.Alike.reads {tokens tokens' : List Token} {next : Situation.Next}
    (h : situation.Alike situation') (hkinds : tokens.map Token.kind = tokens'.map Token.kind)
    (hgenuine : ∀ token ∈ tokens', token.Genuine) (hreads : Reads situation tokens next) :
    ∃ next', Reads situation' tokens' next' ∧ next.Alike next' := by
  induction hreads generalizing situation' tokens' with
  | nil =>
    cases tokens' with
    | nil => exact ⟨_, .nil, .on h⟩
    | cons => cases hkinds
  | last hstep =>
    obtain ⟨token', rfl, hkind⟩ := List.map_eq_singleton_iff.1 hkinds.symm
    obtain ⟨next', hstep', halike⟩ := h.step hkind.symm (hgenuine _ List.mem_cons_self) hstep
    exact ⟨next', .one hstep', halike⟩
  | cons hstep hreads ih =>
    obtain ⟨token', rest', rfl, hkind, hrest⟩ := List.map_eq_cons_iff.1 hkinds.symm
    obtain ⟨hgenuine', hgenuines⟩ := List.forall_mem_cons.1 hgenuine
    obtain ⟨next', hstep', halike⟩ := h.step hkind.symm hgenuine' hstep
    cases halike with
    | on hsituation =>
      obtain ⟨last', hreads', hlast⟩ := ih hsituation hrest.symm hgenuines
      exact ⟨last', .cons hstep' hreads', hlast⟩

end

end ResourceQuery
