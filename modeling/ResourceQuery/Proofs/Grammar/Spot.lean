import ResourceQuery.Proofs.Grammar.Completeness

/-!
# Spots

Where in a query a token list breaks off. `UpTo` says so in the terms of the grammar alone: it cuts
a query off before one of its parts and names the spot. A spot settles what is wrong if no token
that can stand there follows.

Reading comes to a place of just that spot, and wherever it comes to, the tokens before it break
off at a spot of the grammar. So a token list breaks off at one spot only.
-/

namespace ResourceQuery.Grammar

open Situation (Reads step_of_move)

/-- What has to follow where a query breaks off. -/
inductive Spot
  /-- A query begins here. -/
  | query
  /-- The parenthesis behind a keyword. -/
  | opening
  /-- A property, also behind the sign of a sort field. -/
  | property
  /-- The comma behind the property of a test. -/
  | afterProperty
  /-- A value, also the number behind the sign of a value. -/
  | value
  /-- The list of a membership test. -/
  | bracket
  /-- What stands behind a value of such a list. -/
  | afterMember
  /-- The parenthesis behind the value of a comparison or behind a list. -/
  | closing
  | firstCount
  | secondCount
  /-- What stands behind a sort field or behind the first count of a limit. -/
  | afterItem
  /-- The parenthesis behind the second count of a limit. -/
  | afterCounts
  /-- What stands behind an operand of a combination. -/
  | afterOperand
  /-- Nothing: the query is whole. -/
  | behind
deriving DecidableEq

/-- What is wrong where a token of a kind cannot stand, or where the text ends. -/
def Spot.fault (found : Option Kind) : Spot → ErrorKind
  | query => if found.isNone then .unexpectedEndOfInput else .unknownOperation
  | opening => .missingOpenParen
  | property => .expectedProperty
  | afterProperty => .missingComma
  | value => .expectedValue
  | bracket => .missingOpenBracket
  | afterMember => .missingCloseBracket
  | closing => .missingCloseParen
  | firstCount =>
    match found with
    | none => .missingLimit
    | some (.mark .closeParen) => .missingLimit
    | some _ => .expectedValue
  | secondCount => .expectedValue
  | afterItem => .missingComma
  | afterCounts => .missingCloseParen
  | afterOperand => .missingCloseParen
  | behind => .trailingInput

/-- Whether a query may end at a spot although its parenthesis is missing. -/
def Spot.mayEnd : Spot → Bool
  | afterItem | afterCounts => true
  | _ => false

/-- A sign, or no token. -/
inductive MaybeSign : List Token → Prop
  | none : MaybeSign []
  | plus {sign : Token} (hsign : sign.kind = .mark .plus) : MaybeSign [sign]
  | minus {sign : Token} (hsign : sign.kind = .mark .minus) : MaybeSign [sign]

/-- The arguments of an operation that is no combination, up to a spot. -/
inductive ArgumentsUpTo : Operation → List Token → Spot → Prop
  | property {test : Test} : ArgumentsUpTo (testOperation test) [] .property
  | afterProperty {test : Test} {name : Token} (hname : name.kind = .text) :
      ArgumentsUpTo (testOperation test) [name] .afterProperty
  | value {op : Comparison} {name comma : Token} {sign : List Token} (hname : name.kind = .text)
      (hcomma : comma.kind = .mark .comma) (hsign : MaybeSign sign) :
      ArgumentsUpTo (.comparison op) (name :: comma :: sign) .value
  | bracket {op : Membership} {name comma : Token} (hname : name.kind = .text)
      (hcomma : comma.kind = .mark .comma) :
      ArgumentsUpTo (.membership op) [name, comma] .bracket
  | member {op : Membership} {name comma opening : Token} {tokens sign : List Token}
      {before : List Literal} (hname : name.kind = .text) (hcomma : comma.kind = .mark .comma)
      (hopening : opening.kind = .mark .openBracket) (hbefore : Leading Value tokens before)
      (hsign : MaybeSign sign) :
      ArgumentsUpTo (.membership op) (name :: comma :: opening :: (tokens ++ sign)) .value
  | afterMember {op : Membership} {name comma opening : Token} {tokens : List Token}
      {values : List Literal} (hname : name.kind = .text) (hcomma : comma.kind = .mark .comma)
      (hopening : opening.kind = .mark .openBracket) (hvalues : Joined Value tokens values) :
      ArgumentsUpTo (.membership op) (name :: comma :: opening :: tokens) .afterMember
  /-- Behind all arguments of a test. -/
  | closing {test : Test} {tokens : List Token} {query : Query}
      (harguments : Arguments Closed tokens query) (htest : query.operation = testOperation test) :
      ArgumentsUpTo (testOperation test) tokens .closing
  | field {tokens sign : List Token} {before : List SortField}
      (hbefore : Leading Field tokens before) (hsign : MaybeSign sign) :
      ArgumentsUpTo .sort (tokens ++ sign) .property
  | afterField {tokens : List Token} {fields : List SortField}
      (hfields : Joined Field tokens fields) : ArgumentsUpTo .sort tokens .afterItem
  | firstCount : ArgumentsUpTo .limit [] .firstCount
  | afterFirstCount {token : Token} {count : UInt64} (hcount : Count token count) :
      ArgumentsUpTo .limit [token] .afterItem
  | secondCount {token comma : Token} {count : UInt64} (hcount : Count token count)
      (hcomma : comma.kind = .mark .comma) : ArgumentsUpTo .limit [token, comma] .secondCount
  | afterSecondCount {token comma token' : Token} {count skip : UInt64}
      (hcount : Count token count) (hcomma : comma.kind = .mark .comma)
      (hskip : Count token' skip) : ArgumentsUpTo .limit [token, comma, token'] .afterCounts

/--
A query up to a spot, given which token lists are an operand of a combination that has nothing
behind it yet.
-/
inductive UpTo (operand : List Token → Query → Prop) : List Token → Spot → Prop
  | query : UpTo operand [] .query
  | opening {keyword : Token} {op : Operation} (hkeyword : keyword.kind = .keyword op) :
      UpTo operand [keyword] .opening
  | arguments {keyword opening : Token} {op : Operation} {tokens : List Token} {spot : Spot}
      (hkeyword : keyword.kind = .keyword op) (hopening : opening.kind = .mark .openParen)
      (harguments : ArgumentsUpTo op tokens spot) :
      UpTo operand (keyword :: opening :: tokens) spot
  /-- Within an operand of a combination. -/
  | inOperand {keyword opening : Token} {op : Combinator} {before inner : List Token}
      {operands : List Query} {spot : Spot}
      (hkeyword : keyword.kind = .keyword (.combination op))
      (hopening : opening.kind = .mark .openParen) (hbefore : Leading Closed before operands)
      (hinner : UpTo operand inner spot) :
      UpTo operand (keyword :: opening :: (before ++ inner)) spot
  | afterOperand {keyword opening : Token} {op : Combinator} {before inner : List Token}
      {operands : List Query} {query : Query}
      (hkeyword : keyword.kind = .keyword (.combination op))
      (hopening : opening.kind = .mark .openParen) (hbefore : Leading Closed before operands)
      (hinner : operand inner query) :
      UpTo operand (keyword :: opening :: (before ++ inner)) .afterOperand

/-- The spot behind a token list, if a token follows: the operands before that token are closed. -/
inductive BeforeToken : List Token → Spot → Prop
  | within {tokens : List Token} {spot : Spot} (hupTo : UpTo Closed tokens spot) :
      BeforeToken tokens spot
  | behind {tokens : List Token} {query : Query} (hclosed : Closed tokens query) :
      BeforeToken tokens .behind

/--
The spot at which a token list ends without being a query. An operand that is a sort or a limit
may lack its parenthesis there, as a query may: then the fault is that of the combination.
-/
inductive EndsAt : List Token → Spot → Prop
  | intro {tokens : List Token} {spot : Spot} (hupTo : UpTo Derives tokens spot)
      (hlacking : spot.mayEnd = false) : EndsAt tokens spot

/-! ## The spots of places -/

/-- The spot that a place is. -/
def placeSpot : Place → Spot
  | .query => .query
  | .opening _ => .opening
  | .property _ => .property
  | .afterProperty _ _ => .afterProperty
  | .bracket _ _ => .bracket
  | .firstValue _ _ => .value
  | .value _ => .value
  | .number _ _ => .value
  | .afterValue _ _ _ => .afterMember
  | .closing _ => .closing
  | .field _ => .property
  | .fieldProperty _ _ => .property
  | .afterField _ => .afterItem
  | .firstCount => .firstCount
  | .afterFirstCount _ => .afterItem
  | .secondCount _ => .secondCount
  | .afterSecondCount _ _ => .afterCounts
  | .afterOperand _ _ => .afterOperand

/-- The complaint of a place is of the kind that its spot settles. -/
theorem complaint_kind (place : Place) (found : Option Token) :
    (place.complaint found).1 = (placeSpot place).fault (found.map Token.kind) := by
  cases place with
  | query => cases found <;> rfl
  | firstCount =>
    cases found with
    | none => rfl
    | some token =>
      by_cases hkind : token.kind = .mark .closeParen
      · simp [Place.complaint, placeSpot, Spot.fault, Token.is, hkind]
      · simp [Place.complaint, placeSpot, Spot.fault, Token.is, hkind]
  | _ => rfl

theorem complete?_eq_none_iff (place : Place) :
    place.complete? = none ↔ (placeSpot place).mayEnd = false := by
  cases place <;> simp [Place.complete?, placeSpot, Spot.mayEnd]

/-! ## Reading comes to the spot -/

/-- A run that comes to a place of a spot within the same combinations. -/
def ReadsTo (frames : List Frame) (place : Place) (tokens : List Token) (spot : Spot) : Prop :=
  ∃ next, Reads ⟨frames, place⟩ tokens (.on ⟨frames, next⟩) ∧ placeSpot next = spot

theorem ReadsTo.of_reads {frames : List Frame} {place middle : Place}
    {tokens tokens' : List Token} {spot : Spot}
    (h : Reads ⟨frames, place⟩ tokens (.on ⟨frames, middle⟩))
    (h' : ReadsTo frames middle tokens' spot) : ReadsTo frames place (tokens ++ tokens') spot := by
  obtain ⟨next, hreads, hspot⟩ := h'
  exact ⟨next, h.trans hreads, hspot⟩

theorem MaybeSign.readsTo_value {frames : List Frame} {place : Place} {slot : Slot}
    {tokens : List Token} (h : MaybeSign tokens) (hplace : TakesValue place slot)
    (hspot : placeSpot place = .value) : ReadsTo frames place tokens .value := by
  cases h with
  | none => exact ⟨place, .nil, hspot⟩
  | plus hsign => exact ⟨_, reads_of_move (hplace.move_sign false hsign), rfl⟩
  | minus hsign => exact ⟨_, reads_of_move (hplace.move_sign true hsign), rfl⟩

theorem MaybeSign.readsTo_property {frames : List Frame} {before : List SortField}
    {tokens : List Token} (h : MaybeSign tokens) :
    ReadsTo frames (.field before) tokens .property := by
  cases h with
  | none => exact ⟨_, .nil, rfl⟩
  | plus hsign => exact ⟨_, reads_of_move (move_sign_field .asc hsign), rfl⟩
  | minus hsign => exact ⟨_, reads_of_move (move_sign_field .desc hsign), rfl⟩

theorem reads_leadingFields {frames : List Frame} {tokens : List Token}
    {before : List SortField} (h : Leading Field tokens before) :
    Reads ⟨frames, .field []⟩ tokens (.on ⟨frames, .field before⟩) := by
  cases h with
  | nil => exact .nil
  | comma hfields hcomma => exact (reads_fields hfields).snoc (step_comma_afterField hcomma)

theorem reads_leadingOperands {frames : List Frame} {op : Combinator} {tokens : List Token}
    {before : List Query} (h : Leading Closed tokens before) :
    Reads ⟨⟨op, []⟩ :: frames, .query⟩ tokens (.on ⟨⟨op, before⟩ :: frames, .query⟩) := by
  cases h with
  | nil => exact .nil
  | comma hoperands hcomma =>
    have hreads := hoperands.mono fun _ _ hclosed => reads_closed hclosed
    exact (reads_operands hreads).snoc (step_comma_afterOperand hcomma)

/-- Behind the values before it, a value of a list is due, or its number. -/
theorem readsTo_member {frames : List Frame} {op : Membership} {name : String}
    {tokens sign : List Token} {before : List Literal} (h : Leading Value tokens before)
    (hsign : MaybeSign sign) :
    ReadsTo frames (.firstValue op name) (tokens ++ sign) .value := by
  cases h with
  | nil => exact hsign.readsTo_value (takesValue_firstValue op name) rfl
  | comma hvalues hcomma =>
    refine .of_reads ((reads_members hvalues).snoc (step_comma_afterValue hcomma)) ?_
    exact hsign.readsTo_value (takesValue_value _) rfl

/-- Behind all its arguments, only the parenthesis of a test is missing. -/
theorem readsTo_closing {frames : List Frame} {test : Test} {tokens : List Token} {query : Query}
    (h : Arguments Closed tokens query) (htest : query.operation = testOperation test) :
    ReadsTo frames (.property test) tokens .closing := by
  cases h with
  | comparison hname hcomma hvalue =>
    cases test with
    | comparison =>
      cases htest
      exact ⟨_, reads_comparison hname hcomma hvalue, rfl⟩
    | membership => cases htest
  | noMembers hname hcomma hopening hclosing =>
    cases test with
    | comparison => cases htest
    | membership =>
      cases htest
      exact ⟨_, reads_noMembers hname hcomma hopening hclosing, rfl⟩
  | members hname hcomma hopening hvalues hclosing =>
    cases test with
    | comparison => cases htest
    | membership =>
      cases htest
      exact ⟨_, reads_someMembers hname hcomma hopening hvalues hclosing, rfl⟩
  | _ => cases test <;> cases htest

theorem after_enter_test (frames : List Frame) (test : Test) :
    Situation.after frames (Place.enter (testOperation test)) = .on ⟨frames, .property test⟩ := by
  cases test <;> rfl

/-- The arguments up to a spot are read from where the opening parenthesis leads to. -/
theorem ArgumentsUpTo.readsTo {op : Operation} {tokens : List Token} {spot : Spot}
    (h : ArgumentsUpTo op tokens spot) (frames : List Frame) :
    ∃ entered, Situation.after frames (Place.enter op) = .on ⟨frames, entered⟩ ∧
      ReadsTo frames entered tokens spot := by
  cases h with
  | property => exact ⟨_, after_enter_test _ _, _, .nil, rfl⟩
  | afterProperty hname =>
    exact ⟨_, after_enter_test _ _, _, reads_of_move (Place.expect_of_kind hname), rfl⟩
  | value hname hcomma hsign =>
    refine ⟨_, rfl, .of_reads (reads_property hname hcomma) ?_⟩
    exact hsign.readsTo_value (takesValue_value _) rfl
  | bracket hname hcomma => exact ⟨_, rfl, _, reads_property hname hcomma, rfl⟩
  | member hname hcomma hopening hbefore hsign =>
    exact ⟨_, rfl, .of_reads (reads_bracket hname hcomma hopening) (readsTo_member hbefore hsign)⟩
  | afterMember hname hcomma hopening hvalues =>
    exact ⟨_, rfl, .of_reads (reads_bracket hname hcomma hopening) ⟨_, reads_members hvalues, rfl⟩⟩
  | closing harguments htest => exact ⟨_, after_enter_test _ _, readsTo_closing harguments htest⟩
  | field hbefore hsign =>
    exact ⟨_, rfl, .of_reads (reads_leadingFields hbefore) hsign.readsTo_property⟩
  | afterField hfields => exact ⟨_, rfl, _, reads_fields hfields, rfl⟩
  | firstCount => exact ⟨_, rfl, _, .nil, rfl⟩
  | afterFirstCount hcount => exact ⟨_, rfl, _, reads_firstCount hcount, rfl⟩
  | secondCount hcount hcomma => exact ⟨_, rfl, _, reads_countComma hcount hcomma, rfl⟩
  | afterSecondCount hcount hcomma hskip =>
    exact ⟨_, rfl, _, reads_secondCount hcount hcomma hskip, rfl⟩

/--
A query up to a spot is read within any combinations, if each list that counts as an operand ends
in a way that shows the combination around it to lack something.
-/
theorem UpTo.reads {operand : List Token → Query → Prop} (ends : Situation → Spot → Prop)
    (hplace : ∀ frames place, ends ⟨frames, place⟩ (placeSpot place))
    (hoperand : ∀ tokens query, operand tokens query → ∀ frame frames,
      ∃ last, Reads ⟨frame :: frames, .query⟩ tokens (.on last) ∧ ends last .afterOperand)
    {tokens : List Token} {spot : Spot} (h : UpTo operand tokens spot) (frames : List Frame) :
    ∃ last, Reads ⟨frames, .query⟩ tokens (.on last) ∧ ends last spot := by
  induction h generalizing frames with
  | query => exact ⟨_, .nil, hplace _ _⟩
  | @opening keyword op hkeyword =>
    have hmove : Place.query.move keyword = .ok (.dispatch op) := by
      simp only [Place.move, hkeyword]
    exact ⟨_, .one (step_of_move hmove), hplace frames (.opening op)⟩
  | arguments hkeyword hopening harguments =>
    obtain ⟨entered, henter, next, hreads, rfl⟩ := harguments.readsTo frames
    exact ⟨_, (reads_opening hkeyword hopening henter).trans hreads, hplace frames next⟩
  | @inOperand _ _ op _ _ operands _ hkeyword hopening hbefore _ ih =>
    obtain ⟨last, hreads, hends⟩ := ih (⟨op, operands⟩ :: frames)
    have hinner := (reads_leadingOperands hbefore).trans hreads
    exact ⟨last, (reads_opening hkeyword hopening rfl).trans hinner, hends⟩
  | @afterOperand _ _ op _ _ operands _ hkeyword hopening hbefore hinner =>
    obtain ⟨last, hreads, hends⟩ := hoperand _ _ hinner ⟨op, operands⟩ frames
    have hinner := (reads_leadingOperands hbefore).trans hreads
    exact ⟨last, (reads_opening hkeyword hopening rfl).trans hinner, hends⟩

/-! ## Reading comes to spots only -/

/-- The last item apart from the ones before it. -/
theorem Joined.last {α : Type} {item : List Token → α → Prop} {tokens : List Token} {xs : List α}
    (h : Joined item tokens xs) :
    ∃ before last ys x, tokens = before ++ last ∧ Leading item before ys ∧ item last x := by
  cases h with
  | one hitem => exact ⟨[], _, [], _, rfl, .nil, hitem⟩
  | more hbefore hcomma hitem =>
    exact ⟨_, _, _, _, List.append_cons _ _ _, .comma hbefore hcomma, hitem⟩

theorem maybeSign_signMark {sign : Token} {negative : Bool}
    (h : sign.kind = .mark (signMark negative)) : MaybeSign [sign] := by
  cases negative with
  | false => exact .plus h
  | true => exact .minus h

theorem maybeSign_directionMark {sign : Token} {direction : Direction}
    (h : sign.kind = .mark (directionMark direction)) : MaybeSign [sign] := by
  cases direction with
  | asc => exact .plus h
  | desc => exact .minus h

theorem BeforeSlot.argumentsUpTo {tokens sign : List Token} {slot : Slot}
    (h : BeforeSlot tokens slot) (hsign : MaybeSign sign) :
    ArgumentsUpTo (slotOperation slot) (tokens ++ sign) .value := by
  cases h with
  | comparison hname hcomma => exact .value hname hcomma hsign
  | member hname hcomma hopening hbefore => exact .member hname hcomma hopening hbefore hsign

/-- Behind all its arguments, a query breaks off at the spot of its operation. -/
theorem Arguments.upTo {keyword opening : Token} {tokens : List Token} {query : Query}
    (h : Arguments Closed tokens query) (hkeyword : keyword.kind = .keyword query.operation)
    (hopening : opening.kind = .mark .openParen) :
    ∃ spot, UpTo Closed (keyword :: opening :: tokens) spot := by
  cases query with
  | comparison op name value =>
    have hclosing := @ArgumentsUpTo.closing (.comparison op) _ _ h rfl
    exact ⟨_, .arguments hkeyword hopening hclosing⟩
  | combination op operands =>
    cases h with
    | combination hoperands =>
      obtain ⟨before, last, _, _, rfl, hbefore, hlast⟩ := hoperands.last
      exact ⟨_, .afterOperand hkeyword hopening hbefore hlast⟩
  | sort fields =>
    cases h with
    | sort hfields => exact ⟨_, .arguments hkeyword hopening (.afterField hfields)⟩
  | limit count skip =>
    cases h with
    | limit hcount => exact ⟨_, .arguments hkeyword hopening (.afterFirstCount hcount)⟩
    | limitSkip hcount hcomma hskip =>
      exact ⟨_, .arguments hkeyword hopening (.afterSecondCount hcount hcomma hskip)⟩
  | membership op name values =>
    have hclosing := @ArgumentsUpTo.closing (.membership op) _ _ h rfl
    exact ⟨_, .arguments hkeyword hopening hclosing⟩

/-- Wherever reading is in a query, the tokens of that query break off at a spot. -/
theorem Begun.upTo {tokens : List Token} {place : Place} (h : Begun tokens place) :
    ∃ spot, UpTo Closed tokens spot := by
  cases h with
  | query => exact ⟨_, .query⟩
  | opening hkeyword => exact ⟨_, .opening hkeyword⟩
  | inside hkeyword hopening hinside =>
    cases hinside with
    | property => exact ⟨_, .arguments hkeyword hopening .property⟩
    | afterProperty hname => exact ⟨_, .arguments hkeyword hopening (.afterProperty hname)⟩
    | bracket hname hcomma => exact ⟨_, .arguments hkeyword hopening (.bracket hname hcomma)⟩
    | firstValue hname hcomma hbracket =>
      exact ⟨_, .arguments hkeyword hopening (.member hname hcomma hbracket .nil .none)⟩
    | value hslot =>
      have harguments := hslot.argumentsUpTo .none
      rw [List.append_nil] at harguments
      exact ⟨_, .arguments hkeyword hopening harguments⟩
    | number hslot hsign =>
      have harguments := hslot.argumentsUpTo (maybeSign_signMark hsign)
      exact ⟨_, .arguments hkeyword hopening harguments⟩
    | afterValue hname hcomma hbracket hvalues =>
      exact ⟨_, .arguments hkeyword hopening (.afterMember hname hcomma hbracket hvalues)⟩
    | field hbefore =>
      have harguments := ArgumentsUpTo.field hbefore .none
      rw [List.append_nil] at harguments
      exact ⟨_, .arguments hkeyword hopening harguments⟩
    | fieldProperty hbefore hsign =>
      have harguments := ArgumentsUpTo.field hbefore (maybeSign_directionMark hsign)
      exact ⟨_, .arguments hkeyword hopening harguments⟩
    | firstCount => exact ⟨_, .arguments hkeyword hopening .firstCount⟩
    | secondCount hcount hcomma =>
      exact ⟨_, .arguments hkeyword hopening (.secondCount hcount hcomma)⟩
    | closing harguments => exact harguments.upTo hkeyword hopening
    | afterField hfields => exact (Arguments.sort hfields).upTo hkeyword hopening
    | afterFirstCount hcount => exact (Arguments.limit hcount).upTo hkeyword hopening
    | afterSecondCount hcount hcomma hskip =>
      exact (Arguments.limitSkip hcount hcomma hskip).upTo hkeyword hopening
    | afterOperand hoperands => exact (Arguments.combination hoperands).upTo hkeyword hopening

/-- A spot within an operand is one of the combinations around it. -/
theorem BeforeFrames.upTo {operand : List Token → Query → Prop} {tokens inner : List Token}
    {frames : List Frame} {spot : Spot} (h : BeforeFrames tokens frames)
    (hinner : UpTo operand inner spot) : UpTo operand (tokens ++ inner) spot := by
  induction h generalizing inner with
  | nil => exact hinner
  | cons _ hoperand ih =>
    cases hoperand with
    | intro hkeyword hopening hbefore =>
      rw [List.append_assoc]
      exact ih (.inOperand hkeyword hopening hbefore hinner)

theorem UpTo.mono {operand operand' : List Token → Query → Prop}
    (himp : ∀ tokens query, operand tokens query → operand' tokens query) {tokens : List Token}
    {spot : Spot} (h : UpTo operand tokens spot) : UpTo operand' tokens spot := by
  induction h with
  | query => exact .query
  | opening hkeyword => exact .opening hkeyword
  | arguments hkeyword hopening harguments => exact .arguments hkeyword hopening harguments
  | inOperand hkeyword hopening hbefore _ ih => exact .inOperand hkeyword hopening hbefore ih
  | afterOperand hkeyword hopening hbefore hinner =>
    exact .afterOperand hkeyword hopening hbefore (himp _ _ hinner)

/-! ## The spot of a run -/

/-- The spot at which a token follows. -/
def nextSpot : Situation.Next → Spot
  | .done _ => .behind
  | .on situation => placeSpot situation.place

theorem BeforeToken.eq_nextSpot {tokens : List Token} {next : Situation.Next} {spot : Spot}
    (h : BeforeToken tokens spot) (hreads : Reads .start tokens next) : spot = nextSpot next := by
  cases h with
  | within hupTo =>
    obtain ⟨last, hreads', hspot⟩ := hupTo.reads (fun last spot => spot = placeSpot last.place)
      (fun _ _ => rfl)
      (fun _ _ hclosed frame frames => ⟨_, reads_closed hclosed (frame :: frames), rfl⟩) []
    rw [hreads.unique hreads']
    exact hspot
  | behind hclosed =>
    rw [hreads.unique (reads_closed hclosed [])]
    rfl

/-- Tokens that are read without completing a query break off at the spot of the place. -/
theorem upTo_of_reads {tokens : List Token} {situation : Situation}
    (hreads : Reads .start tokens (.on situation)) :
    UpTo Closed tokens (placeSpot situation.place) := by
  cases led_of_reads hreads with
  | on hframes hplace =>
    obtain ⟨spot, hbegun⟩ := hplace.upTo
    have hupTo := hframes.upTo hbegun
    -- the spot that was found is the one of the place, since reading comes there
    rwa [(BeforeToken.within hupTo).eq_nextSpot hreads] at hupTo

/-- Where a token follows, what was read breaks off at one spot: the one reading came to. -/
theorem beforeToken_iff {tokens : List Token} {next : Situation.Next}
    (hreads : Reads .start tokens next) (spot : Spot) :
    BeforeToken tokens spot ↔ spot = nextSpot next := by
  refine ⟨fun h => h.eq_nextSpot hreads, ?_⟩
  rintro rfl
  cases next with
  | done query =>
    cases led_of_reads hreads with
    | done hclosed => exact .behind hclosed
  | on situation => exact .within (upTo_of_reads hreads)

/-- The spot at which the tokens end, unless the end completes a query. -/
def endSpot? (situation : Situation) : Option Spot :=
  match situation.place.complete?, situation.frames with
  | none, _ => some (placeSpot situation.place)
  | some _, [] => none
  | some _, _ :: _ => some .afterOperand

theorem endSpot?_of_mayEnd {frames : List Frame} {place : Place}
    (h : (placeSpot place).mayEnd = false) :
    endSpot? ⟨frames, place⟩ = some (placeSpot place) := by
  simp only [endSpot?, (complete?_eq_none_iff place).2 h]

/-- An operand that is a query if nothing follows it makes its combination lack something. -/
theorem exists_reads_of_derives {tokens : List Token} {query : Query} (h : Derives tokens query)
    (frame : Frame) (frames : List Frame) :
    ∃ last, Reads ⟨frame :: frames, .query⟩ tokens (.on last) ∧
      endSpot? last = some .afterOperand := by
  cases h with
  | closed hclosed => exact ⟨_, reads_closed hclosed (frame :: frames), rfl⟩
  | unclosed hkeyword hopening harguments hoperation =>
    have harguments' := harguments.mono fun _ _ h => reads_closed h
    obtain ⟨entered, place, henter, hreads, hcompletes⟩ :=
      reads_arguments harguments' (frame :: frames)
    refine ⟨_, (reads_opening hkeyword hopening henter).trans hreads, ?_⟩
    simp only [endSpot?, hcompletes.leave hoperation]

theorem EndsAt.endSpot? {tokens : List Token} {situation : Situation} {spot : Spot}
    (h : EndsAt tokens spot) (hreads : Reads .start tokens (.on situation)) :
    endSpot? situation = some spot := by
  cases h with
  | intro hupTo hlacking =>
    obtain ⟨last, hreads', hspot⟩ := hupTo.reads
      (fun last spot => spot.mayEnd = false → Grammar.endSpot? last = some spot)
      (fun _ _ => endSpot?_of_mayEnd)
      (fun _ _ hderives frame frames => by
        obtain ⟨last, hreads, hspot⟩ := exists_reads_of_derives hderives frame frames
        exact ⟨last, hreads, fun _ => hspot⟩) []
    cases hreads.unique hreads'
    exact hspot hlacking

/-- Where the tokens end without being a query, they end at one spot. -/
theorem endsAt_iff {tokens : List Token} {situation : Situation}
    (hreads : Reads .start tokens (.on situation)) (spot : Spot) :
    EndsAt tokens spot ↔ endSpot? situation = some spot := by
  refine ⟨fun h => h.endSpot? hreads, ?_⟩
  intro hspot
  obtain ⟨frames, place⟩ := situation
  cases hcomplete : place.complete? with
  | none =>
    have hlacking := (complete?_eq_none_iff place).1 hcomplete
    rw [endSpot?_of_mayEnd hlacking] at hspot
    cases hspot
    exact .intro ((upTo_of_reads hreads).mono fun _ _ => .closed) hlacking
  | some query =>
    -- only the combination around the query that is complete lacks something
    cases led_of_reads hreads with
    | on hframes hplace =>
      cases hframes with
      | nil => simp [endSpot?, hcomplete] at hspot
      | cons houter hoperand =>
        simp only [endSpot?, hcomplete] at hspot
        cases hspot
        cases hoperand with
        | intro hkeyword hopening hbefore =>
          have hderives := derives_of_complete? hplace hcomplete
          have hupTo := houter.upTo (UpTo.afterOperand hkeyword hopening hbefore hderives)
          rw [List.append_assoc]
          exact .intro hupTo rfl

end ResourceQuery.Grammar
