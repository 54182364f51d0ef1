import ResourceQuery.Proofs.Grammar.Soundness

/-!
# What the grammar derives is read

Reading takes the token list of each part of a query from the place where the part begins to the
place after it. A closed query is so read in front of any further tokens and within any open
combinations; hence a token list that derives a query is read as that query to its end, and as no
other.
-/

namespace ResourceQuery.Grammar

open Place (expect_of_kind)
open Situation (Reads step_of_move)

/-- One move from place to place. -/
theorem reads_of_move {frames : List Frame} {place next : Place} {token : Token}
    (h : place.move token = .ok (.goTo next)) :
    Reads ⟨frames, place⟩ [token] (.on ⟨frames, next⟩) :=
  .one (step_of_move h)

/-! ## Values -/

theorem readLiteral_of_number {token : Token} {value : Literal} (h : Number token value) :
    Place.readLiteral token = .ok value := by
  cases h with
  | integer hkind hread => simp [Place.readLiteral, Token.literal?, hkind, hread]
  | float hkind hread => simp [Place.readLiteral, Token.literal?, hkind, hread]

theorem Number.kind {token : Token} {value : Literal} (h : Number token value) :
    token.kind = .integer ∨ token.kind = .float := by
  cases h with
  | integer hkind => exact .inl hkind
  | float hkind => exact .inr hkind

theorem moveValue_of_number {place : Place} {slot : Slot} {token : Token} {value : Literal}
    (h : Number token value) : place.moveValue token slot = .ok (.goTo (slot.fill value)) := by
  rcases h.kind with hkind | hkind
  · simp only [Place.moveValue, hkind, readLiteral_of_number h]
    rfl
  · simp only [Place.moveValue, hkind, readLiteral_of_number h]
    rfl

theorem moveNumber_of_number {place : Place} {slot : Slot} {negative : Bool} {token : Token}
    {value : Literal} (h : Number token value) :
    place.moveNumber token slot negative =
      .ok (.goTo (slot.fill (if negative then value.negated else value))) := by
  rcases h.kind with hkind | hkind
  · simp only [Place.moveNumber, hkind, readLiteral_of_number h]
    rfl
  · simp only [Place.moveNumber, hkind, readLiteral_of_number h]
    rfl

/-- A place where whatever moves on as a value does so in a slot. -/
def TakesValue (place : Place) (slot : Slot) : Prop :=
  ∀ token move, place.moveValue token slot = .ok move → place.move token = .ok move

theorem takesValue_value (slot : Slot) : TakesValue (.value slot) slot :=
  fun _ _ h => h

theorem takesValue_firstValue (op : Membership) (name : String) :
    TakesValue (.firstValue op name) (.member op name []) := by
  intro token move h
  simp only [Place.move]
  split
  next hkind =>
    -- the end of the list is no value
    simp only [Place.moveValue, hkind] at h
    cases h
  next => exact h

/-- The sign of a number is remembered where a value is taken. -/
theorem TakesValue.move_sign {place : Place} {slot : Slot} {sign : Token}
    (h : TakesValue place slot) (negative : Bool) (hsign : sign.kind = .mark (signMark negative)) :
    place.move sign = .ok (.goTo (.number slot negative)) := by
  apply h
  cases negative with
  | false => simp [Place.moveValue, hsign, signMark]
  | true => simp [Place.moveValue, hsign, signMark]

theorem move_sign_field {before : List SortField} {sign : Token} (direction : Direction)
    (hsign : sign.kind = .mark (directionMark direction)) :
    (Place.field before).move sign = .ok (.goTo (.fieldProperty before direction)) := by
  cases direction with
  | asc => simp only [Place.move, hsign, directionMark]
  | desc => simp only [Place.move, hsign, directionMark]

theorem reads_value {frames : List Frame} {place : Place} {slot : Slot} {tokens : List Token}
    {value : Literal} (hplace : TakesValue place slot) (h : Value tokens value) :
    Reads ⟨frames, place⟩ tokens (.on ⟨frames, slot.fill value⟩) := by
  cases h with
  | text hkind =>
    apply reads_of_move
    apply hplace
    simp only [Place.moveValue, hkind, Place.readLiteral, Token.literal?]
    rfl
  | number hnumber => exact reads_of_move (hplace _ _ (moveValue_of_number hnumber))
  | plus hsign hnumber =>
    exact (reads_of_move (hplace.move_sign false hsign)).trans
      (reads_of_move (moveNumber_of_number hnumber))
  | minus hsign hnumber =>
    exact (reads_of_move (hplace.move_sign true hsign)).trans
      (reads_of_move (moveNumber_of_number hnumber))

theorem reads_field {frames : List Frame} {before : List SortField} {tokens : List Token}
    {field : SortField} (h : Field tokens field) :
    Reads ⟨frames, .field before⟩ tokens (.on ⟨frames, .afterField (before ++ [field])⟩) := by
  cases h with
  | bare hname =>
    apply reads_of_move
    simp only [Place.move, hname]
    exact expect_of_kind hname
  | plus hsign hname =>
    exact (reads_of_move (move_sign_field .asc hsign)).trans (reads_of_move (expect_of_kind hname))
  | minus hsign hname =>
    exact (reads_of_move (move_sign_field .desc hsign)).trans (reads_of_move (expect_of_kind hname))

theorem moveCount_of_count {place : Place} {token : Token} {count : UInt64}
    {next : UInt64 → Place} (h : Count token count) :
    place.moveCount token next = .ok (.goTo (next count)) := by
  have htoken : token.is .integer = true := decide_eq_true h.1
  rw [Place.moveCount, if_pos htoken, Place.readCount, h.2]
  rfl

/-! ## Lists of items -/

/--
Items with commas between them are read one after the other, if the first item and each later one
lead to a situation behind it, and a comma leads on from there to the next item.
-/
theorem Joined.reads {α : Type} {item : List Token → α → Prop} {first : Situation}
    (behind next : List α → Situation)
    (hfirst : ∀ tokens x, item tokens x → Reads first tokens (.on (behind [x])))
    (hcomma : ∀ xs token, token.kind = .mark .comma →
      (behind xs).step token = .ok (.on (next xs)))
    (hnext : ∀ xs tokens x, item tokens x → Reads (next xs) tokens (.on (behind (xs ++ [x]))))
    {tokens : List Token} {xs : List α} (h : Joined item tokens xs) :
    Reads first tokens (.on (behind xs)) := by
  -- by induction on the number of commas; the last item is read where the ones before it lead
  induction h with
  | one hitem => exact hfirst _ _ hitem
  | more _ hkind hitem ih => exact ih.trans (.cons (hcomma _ _ hkind) (hnext _ _ _ hitem))

theorem step_comma_afterField {frames : List Frame} {fields : List SortField} {token : Token}
    (hkind : token.kind = .mark .comma) :
    Situation.step ⟨frames, .afterField fields⟩ token = .ok (.on ⟨frames, .field fields⟩) := by
  have hmove : (Place.afterField fields).move token = .ok (.goTo (.field fields)) := by
    simp only [Place.move, hkind]
  exact step_of_move hmove

theorem step_comma_afterValue {frames : List Frame} {op : Membership} {name : String}
    {values : List Literal} {token : Token} (hkind : token.kind = .mark .comma) :
    Situation.step ⟨frames, .afterValue op name values⟩ token =
      .ok (.on ⟨frames, .value (.member op name values)⟩) := by
  have hmove : (Place.afterValue op name values).move token =
      .ok (.goTo (.value (.member op name values))) := by
    simp only [Place.move, hkind]
  exact step_of_move hmove

theorem step_comma_afterOperand {frames : List Frame} {op : Combinator} {operands : List Query}
    {token : Token} (hkind : token.kind = .mark .comma) :
    Situation.step ⟨frames, .afterOperand op operands⟩ token =
      .ok (.on ⟨⟨op, operands⟩ :: frames, .query⟩) := by
  have hmove : (Place.afterOperand op operands).move token = .ok (.descend op operands) := by
    simp only [Place.move, hkind]
  exact step_of_move hmove

theorem reads_fields {frames : List Frame} {tokens : List Token} {fields : List SortField}
    (h : Joined Field tokens fields) :
    Reads ⟨frames, .field []⟩ tokens (.on ⟨frames, .afterField fields⟩) := by
  refine h.reads (fun fields => ⟨frames, .afterField fields⟩)
    (fun fields => ⟨frames, .field fields⟩) ?first ?comma ?next
  case first => exact fun _ _ hfield => reads_field hfield
  case comma => exact fun _ _ hkind => step_comma_afterField hkind
  case next => exact fun _ _ _ hfield => reads_field hfield

theorem reads_members {frames : List Frame} {op : Membership} {name : String}
    {tokens : List Token} {values : List Literal} (h : Joined Value tokens values) :
    Reads ⟨frames, .firstValue op name⟩ tokens (.on ⟨frames, .afterValue op name values⟩) := by
  refine h.reads (fun values => ⟨frames, .afterValue op name values⟩)
    (fun values => ⟨frames, .value (.member op name values)⟩) ?first ?comma ?next
  case first => exact fun _ _ hvalue => reads_value (takesValue_firstValue op name) hvalue
  case comma => exact fun _ _ hkind => step_comma_afterValue hkind
  case next => exact fun _ _ _ hvalue => reads_value (takesValue_value _) hvalue

/-- Token lists that are read as a query within any open combinations. -/
def ReadsQuery (tokens : List Token) (query : Query) : Prop :=
  ∀ frames, Reads ⟨frames, .query⟩ tokens (Situation.complete query frames)

theorem reads_operands {frames : List Frame} {op : Combinator} {tokens : List Token}
    {operands : List Query} (h : Joined ReadsQuery tokens operands) :
    Reads ⟨⟨op, []⟩ :: frames, .query⟩ tokens (.on ⟨frames, .afterOperand op operands⟩) := by
  refine h.reads (fun operands => ⟨frames, .afterOperand op operands⟩)
    (fun operands => ⟨⟨op, operands⟩ :: frames, .query⟩) ?first ?comma ?next
  case first => exact fun _ _ hquery => hquery _
  case comma => exact fun _ _ hkind => step_comma_afterOperand hkind
  case next => exact fun _ _ _ hquery => hquery _

/-! ## Queries -/

/-- A place behind the arguments of a query: it can be closed, or left open if it may be. -/
structure Completes (place : Place) (query : Query) : Prop where
  close : ∀ token, token.kind = .mark .closeParen → place.move token = .ok (.finish query)
  leave : query.operation = .sort ∨ query.operation = .limit → place.complete? = some query

theorem completes_closing {query : Query}
    (h : ¬(query.operation = .sort ∨ query.operation = .limit)) :
    Completes (.closing query) query where
  close _ hkind := expect_of_kind hkind
  leave hoperation := absurd hoperation h

theorem completes_afterField (fields : List SortField) :
    Completes (.afterField fields) (.sort fields) where
  close _ hkind := by simp only [Place.move, hkind]
  leave _ := rfl

theorem completes_afterFirstCount (count : UInt64) :
    Completes (.afterFirstCount count) (.limit count 0) where
  close _ hkind := by simp only [Place.move, hkind]
  leave _ := rfl

theorem completes_afterSecondCount (count skip : UInt64) :
    Completes (.afterSecondCount count skip) (.limit count skip) where
  close _ hkind := expect_of_kind hkind
  leave _ := rfl

theorem completes_afterOperand (op : Combinator) (operands : List Query) :
    Completes (.afterOperand op operands) (.combination op operands) where
  close _ hkind := by simp only [Place.move, hkind]
  leave hoperation := by simp [Query.operation] at hoperation

theorem reads_property {frames : List Frame} {test : Test} {name comma : Token}
    (hname : name.kind = .text) (hcomma : comma.kind = .mark .comma) :
    Reads ⟨frames, .property test⟩ [name, comma]
      (.on ⟨frames, Place.afterComma name.text test⟩) := by
  have hmove : (Place.property test).move name = .ok (.goTo (.afterProperty test name.text)) :=
    expect_of_kind hname
  have hmove' : (Place.afterProperty test name.text).move comma =
      .ok (.goTo (Place.afterComma name.text test)) := expect_of_kind hcomma
  exact (reads_of_move hmove).trans (reads_of_move hmove')

theorem reads_bracket {frames : List Frame} {op : Membership} {name comma opening : Token}
    (hname : name.kind = .text) (hcomma : comma.kind = .mark .comma)
    (hopening : opening.kind = .mark .openBracket) :
    Reads ⟨frames, .property (.membership op)⟩ [name, comma, opening]
      (.on ⟨frames, .firstValue op name.text⟩) := by
  have hmove : (Place.bracket op name.text).move opening =
      .ok (.goTo (.firstValue op name.text)) := expect_of_kind hopening
  exact (reads_property hname hcomma).trans (reads_of_move hmove)

/-- The arguments of a comparison. -/
theorem reads_comparison {frames : List Frame} {op : Comparison} {name comma : Token}
    {tokens : List Token} {value : Literal} (hname : name.kind = .text)
    (hcomma : comma.kind = .mark .comma) (hvalue : Value tokens value) :
    Reads ⟨frames, .property (.comparison op)⟩ (name :: comma :: tokens)
      (.on ⟨frames, .closing (.comparison op name.text value)⟩) := by
  have hproperty : Reads ⟨frames, .property (.comparison op)⟩ _
      (.on ⟨frames, .value (.comparison op name.text)⟩) := reads_property hname hcomma
  exact hproperty.trans (reads_value (takesValue_value _) hvalue)

/-- The arguments of a membership test with no values. -/
theorem reads_noMembers {frames : List Frame} {op : Membership}
    {name comma opening closing : Token} (hname : name.kind = .text)
    (hcomma : comma.kind = .mark .comma) (hopening : opening.kind = .mark .openBracket)
    (hclosing : closing.kind = .mark .closeBracket) :
    Reads ⟨frames, .property (.membership op)⟩ [name, comma, opening, closing]
      (.on ⟨frames, .closing (.membership op name.text [])⟩) := by
  have hmove : (Place.firstValue op name.text).move closing =
      .ok (.goTo (.closing (.membership op name.text []))) := by
    simp only [Place.move, hclosing]
  exact (reads_bracket hname hcomma hopening).trans (reads_of_move hmove)

/-- The arguments of a membership test with some values. -/
theorem reads_someMembers {frames : List Frame} {op : Membership}
    {name comma opening closing : Token} {tokens : List Token} {values : List Literal}
    (hname : name.kind = .text) (hcomma : comma.kind = .mark .comma)
    (hopening : opening.kind = .mark .openBracket) (hvalues : Joined Value tokens values)
    (hclosing : closing.kind = .mark .closeBracket) :
    Reads ⟨frames, .property (.membership op)⟩
      (name :: comma :: opening :: (tokens ++ [closing]))
      (.on ⟨frames, .closing (.membership op name.text values)⟩) := by
  have hmove : (Place.afterValue op name.text values).move closing =
      .ok (.goTo (.closing (.membership op name.text values))) := by
    simp only [Place.move, hclosing]
  exact (reads_bracket hname hcomma hopening).trans
    ((reads_members hvalues).trans (reads_of_move hmove))

theorem reads_firstCount {frames : List Frame} {token : Token} {count : UInt64}
    (h : Count token count) :
    Reads ⟨frames, .firstCount⟩ [token] (.on ⟨frames, .afterFirstCount count⟩) := by
  have hmove : Place.firstCount.move token = .ok (.goTo (.afterFirstCount count)) :=
    moveCount_of_count h
  exact reads_of_move hmove

/-- The comma leads on to the second count of a limit. -/
theorem reads_countComma {frames : List Frame} {token comma : Token} {count : UInt64}
    (hcount : Count token count) (hcomma : comma.kind = .mark .comma) :
    Reads ⟨frames, .firstCount⟩ [token, comma] (.on ⟨frames, .secondCount count⟩) := by
  have hmove : (Place.afterFirstCount count).move comma = .ok (.goTo (.secondCount count)) := by
    simp only [Place.move, hcomma]
  exact (reads_firstCount hcount).trans (reads_of_move hmove)

theorem reads_secondCount {frames : List Frame} {token comma token' : Token}
    {count skip : UInt64} (hcount : Count token count) (hcomma : comma.kind = .mark .comma)
    (hskip : Count token' skip) :
    Reads ⟨frames, .firstCount⟩ [token, comma, token']
      (.on ⟨frames, .afterSecondCount count skip⟩) := by
  have hmove : (Place.secondCount count).move token' = .ok (.goTo (.afterSecondCount count skip)) :=
    moveCount_of_count hskip
  exact (reads_countComma hcount hcomma).trans (reads_of_move hmove)

/-- From the opening parenthesis, the arguments of a query lead behind them. -/
theorem reads_arguments {tokens : List Token} {query : Query}
    (h : Arguments ReadsQuery tokens query) (frames : List Frame) :
    ∃ entered place, Situation.after frames (Place.enter query.operation) = .on entered ∧
      Reads entered tokens (.on ⟨frames, place⟩) ∧ Completes place query := by
  cases h with
  | comparison hname hcomma hvalue =>
    exact ⟨_, _, rfl, reads_comparison hname hcomma hvalue,
      completes_closing (by simp [Query.operation])⟩
  | combination hoperands =>
    exact ⟨_, _, rfl, reads_operands hoperands, completes_afterOperand _ _⟩
  | sort hfields => exact ⟨_, _, rfl, reads_fields hfields, completes_afterField _⟩
  | limit hcount => exact ⟨_, _, rfl, reads_firstCount hcount, completes_afterFirstCount _⟩
  | limitSkip hcount hcomma hskip =>
    exact ⟨_, _, rfl, reads_secondCount hcount hcomma hskip, completes_afterSecondCount _ _⟩
  | noMembers hname hcomma hopening hclosing =>
    exact ⟨_, _, rfl, reads_noMembers hname hcomma hopening hclosing,
      completes_closing (by simp [Query.operation])⟩
  | members hname hcomma hopening hvalues hclosing =>
    exact ⟨_, _, rfl, reads_someMembers hname hcomma hopening hvalues hclosing,
      completes_closing (by simp [Query.operation])⟩

/-- The keyword and the opening parenthesis lead into the arguments. -/
theorem reads_opening {frames : List Frame} {keyword opening : Token} {op : Operation}
    {entered : Situation} (hkeyword : keyword.kind = .keyword op)
    (hopening : opening.kind = .mark .openParen)
    (henter : Situation.after frames (Place.enter op) = .on entered) :
    Reads ⟨frames, .query⟩ [keyword, opening] (.on entered) := by
  have hmove : Place.query.move keyword = .ok (.dispatch op) := by
    simp only [Place.move, hkeyword]
  have hmove' : (Place.opening op).move opening = .ok (Place.enter op) := expect_of_kind hopening
  have hstep' : Situation.step ⟨frames, .opening op⟩ opening = .ok (.on entered) := by
    rw [step_of_move hmove', henter]
  exact .cons (step_of_move hmove) (.one hstep')

/-- A closed query is read as an operand of any open combinations, or as a whole. -/
theorem reads_closed {tokens : List Token} {query : Query} (h : Closed tokens query) :
    ReadsQuery tokens query := by
  refine Closed.induction ?step h
  case step =>
    intro keyword opening closing tokens query hkeyword hopening harguments hclosing frames
    -- the operands are read by induction, whatever combinations are open around them
    have harguments' : Arguments ReadsQuery tokens query := harguments.mono fun _ _ h => h.2
    obtain ⟨entered, place, henter, hreads, hcompletes⟩ := reads_arguments harguments' frames
    have hclose : Situation.step ⟨frames, place⟩ closing = .ok (Situation.complete query frames) :=
      step_of_move (hcompletes.close closing hclosing)
    have hwhole := (reads_opening hkeyword hopening henter).trans (hreads.snoc hclose)
    exact hwhole

/-! ## The whole token list -/

/-- Reading closes a query that is derived, or comes to the place where the end completes it. -/
theorem reads_of_derives {tokens : List Token} {query : Query} (h : Derives tokens query) :
    Reads .start tokens (.done query) ∨
      ∃ place, Reads .start tokens (.on ⟨[], place⟩) ∧ place.complete? = some query := by
  cases h with
  | closed hclosed => exact .inl (reads_closed hclosed [])
  | unclosed hkeyword hopening harguments hoperation =>
    have harguments' := harguments.mono fun _ _ h => reads_closed h
    obtain ⟨entered, place, henter, hreads, hcompletes⟩ := reads_arguments harguments' []
    have hall := (reads_opening hkeyword hopening henter).trans hreads
    exact .inr ⟨place, hall, hcompletes.leave hoperation⟩

/-- A token list that derives a query is read as that query, with nothing left. -/
theorem read_of_derives {tokens : List Token} {query : Query} (h : Derives tokens query)
    (length : Nat) : (Situation.start.read length tokens).value = ⟨.ok query, []⟩ := by
  rcases reads_of_derives h with hreads | ⟨place, hreads, hcomplete⟩
  · have hread := hreads.value_read_done length []
    rwa [List.append_nil] at hread
  · -- behind the arguments there is no token left, and the end completes the query
    have hread := hreads.value_read_on length []
    rw [List.append_nil] at hread
    rw [hread, Situation.value_read_nil, Situation.atEnd, hcomplete]
    rfl

theorem derives_iff_read {tokens : List Token} {query : Query} (length : Nat) :
    Derives tokens query ↔ (Situation.start.read length tokens).value = ⟨.ok query, []⟩ :=
  ⟨fun h => read_of_derives h length, derives_of_read⟩

/-- The grammar is unambiguous. -/
theorem Derives.unique {tokens : List Token} {query query' : Query} (h : Derives tokens query)
    (h' : Derives tokens query') : query = query' := by
  have hread := read_of_derives h 0
  rw [read_of_derives h' 0] at hread
  cases hread
  rfl

end ResourceQuery.Grammar
