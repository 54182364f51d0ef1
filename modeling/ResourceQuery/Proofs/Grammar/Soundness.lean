import ResourceQuery.Proofs.Grammar.Basic
import ResourceQuery.Proofs.Reading.Run

/-!
# What has been read is a part of a query

The tokens that lead reading to a place are a part of a query in the sense of the grammar:
`Inside` says for each place between the parentheses of a query which part, and `Begun` adds the
keyword and the parenthesis before it. Each open combination holds the operands before the one
that is being read. One step keeps this, so a run keeps it, and where a run ends with a query its
tokens derive that query.
-/

namespace ResourceQuery.Grammar

open Place (expect_eq_ok)

/-- Items that are each followed by a comma; there may be none. -/
inductive Leading {α : Type} (item : List Token → α → Prop) : List Token → List α → Prop
  | nil : Leading item [] []
  | comma {tokens : List Token} {comma : Token} {xs : List α} (hbefore : Joined item tokens xs)
      (hcomma : comma.kind = .mark .comma) : Leading item (tokens ++ [comma]) xs

theorem Leading.joined {α : Type} {item : List Token → α → Prop} {tokens last : List Token}
    {xs : List α} {x : α} (h : Leading item tokens xs) (hitem : item last x) :
    Joined item (tokens ++ last) (xs ++ [x]) := by
  cases h with
  | nil => exact .one hitem
  | comma hbefore hcomma =>
    rw [List.append_assoc]
    exact .more hbefore hcomma hitem

theorem Leading.cons {α : Type} {item : List Token → α → Prop} {first tokens : List Token}
    {comma : Token} {x : α} {xs : List α} (hitem : item first x)
    (hcomma : comma.kind = .mark .comma) (h : Leading item tokens xs) :
    Leading item (first ++ comma :: tokens) (x :: xs) := by
  cases h with
  | nil => exact .comma (.one hitem) hcomma
  | @comma tokens last _ hbefore hlast =>
    have hleading := Leading.comma (hbefore.cons hitem hcomma) hlast
    rwa [List.append_assoc, List.cons_append] at hleading

/-- The mark that sorts in a direction. -/
def directionMark : Direction → Mark
  | .asc => .plus
  | .desc => .minus

/-- The mark of a sign. -/
def signMark (negative : Bool) : Mark :=
  if negative then .minus else .plus

/-- The operation that a test belongs to. -/
def testOperation : Test → Operation
  | .comparison op => .comparison op
  | .membership op => .membership op

/-- The operation that a slot belongs to. -/
def slotOperation : Slot → Operation
  | .comparison op _ => .comparison op
  | .member op _ _ => .membership op

/-- The tokens between the opening parenthesis and a slot. -/
inductive BeforeSlot : List Token → Slot → Prop
  | comparison {name comma : Token} {op : Comparison} (hname : name.kind = .text)
      (hcomma : comma.kind = .mark .comma) :
      BeforeSlot [name, comma] (.comparison op name.text)
  | member {name comma opening : Token} {tokens : List Token} {op : Membership}
      {before : List Literal} (hname : name.kind = .text) (hcomma : comma.kind = .mark .comma)
      (hopening : opening.kind = .mark .openBracket) (hbefore : Leading Value tokens before) :
      BeforeSlot (name :: comma :: opening :: tokens) (.member op name.text before)

/-- The tokens between the opening parenthesis of an operation and a place. -/
inductive Inside : Operation → List Token → Place → Prop
  | property {test : Test} : Inside (testOperation test) [] (.property test)
  | afterProperty {test : Test} {name : Token} (hname : name.kind = .text) :
      Inside (testOperation test) [name] (.afterProperty test name.text)
  | bracket {op : Membership} {name comma : Token} (hname : name.kind = .text)
      (hcomma : comma.kind = .mark .comma) :
      Inside (.membership op) [name, comma] (.bracket op name.text)
  | firstValue {op : Membership} {name comma opening : Token} (hname : name.kind = .text)
      (hcomma : comma.kind = .mark .comma) (hopening : opening.kind = .mark .openBracket) :
      Inside (.membership op) [name, comma, opening] (.firstValue op name.text)
  | value {slot : Slot} {tokens : List Token} (hslot : BeforeSlot tokens slot) :
      Inside (slotOperation slot) tokens (.value slot)
  | number {slot : Slot} {tokens : List Token} {sign : Token} {negative : Bool}
      (hslot : BeforeSlot tokens slot) (hsign : sign.kind = .mark (signMark negative)) :
      Inside (slotOperation slot) (tokens ++ [sign]) (.number slot negative)
  | afterValue {op : Membership} {name comma opening : Token} {tokens : List Token}
      {values : List Literal} (hname : name.kind = .text) (hcomma : comma.kind = .mark .comma)
      (hopening : opening.kind = .mark .openBracket) (hvalues : Joined Value tokens values) :
      Inside (.membership op) (name :: comma :: opening :: tokens)
        (.afterValue op name.text values)
  | closing {tokens : List Token} {query : Query} (harguments : Arguments Closed tokens query) :
      Inside query.operation tokens (.closing query)
  | field {tokens : List Token} {before : List SortField} (hbefore : Leading Field tokens before) :
      Inside .sort tokens (.field before)
  | fieldProperty {tokens : List Token} {sign : Token} {before : List SortField}
      {direction : Direction} (hbefore : Leading Field tokens before)
      (hsign : sign.kind = .mark (directionMark direction)) :
      Inside .sort (tokens ++ [sign]) (.fieldProperty before direction)
  | afterField {tokens : List Token} {fields : List SortField}
      (hfields : Joined Field tokens fields) : Inside .sort tokens (.afterField fields)
  | firstCount : Inside .limit [] .firstCount
  | afterFirstCount {token : Token} {count : UInt64} (hcount : Count token count) :
      Inside .limit [token] (.afterFirstCount count)
  | secondCount {token comma : Token} {count : UInt64} (hcount : Count token count)
      (hcomma : comma.kind = .mark .comma) : Inside .limit [token, comma] (.secondCount count)
  | afterSecondCount {token comma token' : Token} {count skip : UInt64}
      (hcount : Count token count) (hcomma : comma.kind = .mark .comma)
      (hskip : Count token' skip) :
      Inside .limit [token, comma, token'] (.afterSecondCount count skip)
  | afterOperand {tokens : List Token} {op : Combinator} {operands : List Query}
      (hoperands : Joined Closed tokens operands) :
      Inside (.combination op) tokens (.afterOperand op operands)

/-- The tokens between the beginning of a query and a place in it. -/
inductive Begun : List Token → Place → Prop
  | query : Begun [] .query
  | opening {keyword : Token} {op : Operation} (hkeyword : keyword.kind = .keyword op) :
      Begun [keyword] (.opening op)
  | inside {keyword opening : Token} {tokens : List Token} {op : Operation} {place : Place}
      (hkeyword : keyword.kind = .keyword op) (hopening : opening.kind = .mark .openParen)
      (hinside : Inside op tokens place) : Begun (keyword :: opening :: tokens) place

/-- The tokens between the beginning of a combination and the operand that is being read. -/
inductive BeforeOperand : List Token → Frame → Prop
  | intro {keyword opening : Token} {tokens : List Token} {frame : Frame}
      (hkeyword : keyword.kind = .keyword (.combination frame.op))
      (hopening : opening.kind = .mark .openParen)
      (hbefore : Leading Closed tokens frame.before) :
      BeforeOperand (keyword :: opening :: tokens) frame

/-- The tokens before the query that is being read within open combinations. -/
inductive BeforeFrames : List Token → List Frame → Prop
  | nil : BeforeFrames [] []
  | cons {tokens inner : List Token} {frame : Frame} {frames : List Frame}
      (houter : BeforeFrames tokens frames) (hinner : BeforeOperand inner frame) :
      BeforeFrames (tokens ++ inner) (frame :: frames)

/-- The tokens that lead to a situation, or that make up a query. -/
inductive Led : List Token → Situation.Next → Prop
  | done {tokens : List Token} {query : Query} (hclosed : Closed tokens query) :
      Led tokens (.done query)
  | on {tokens inner : List Token} {frames : List Frame} {place : Place}
      (hframes : BeforeFrames tokens frames) (hplace : Begun inner place) :
      Led (tokens ++ inner) (.on ⟨frames, place⟩)

/-! ## One token -/

/-- What is read as a literal where the token is no text is a number of the grammar. -/
theorem number_of_readLiteral {token : Token} {value : Literal}
    (hkind : token.kind = .integer ∨ token.kind = .float)
    (h : Place.readLiteral token = .ok value) : Number token value := by
  unfold Place.readLiteral at h
  split at h
  next literal hliteral =>
    cases h
    rcases hkind with hkind | hkind
    · simp only [Token.literal?, hkind, Option.map_eq_some_iff] at hliteral
      obtain ⟨n, hread, rfl⟩ := hliteral
      exact .integer hkind hread
    · simp only [Token.literal?, hkind, Option.map_eq_some_iff] at hliteral
      obtain ⟨x, hread, rfl⟩ := hliteral
      exact .float hkind hread
  next => cases h

/-- A token in the arguments of an operation leads on in them, or ends them. -/
def LeadsOn (op : Operation) (tokens : List Token) (token : Token) : Move → Prop
  | .goTo place => Inside op (tokens ++ [token]) place
  | .dispatch _ => False
  | .descend op' before => op = .combination op' ∧ Leading Closed (tokens ++ [token]) before
  | .finish query =>
    query.operation = op ∧ Arguments Closed tokens query ∧ token.kind = .mark .closeParen

/-- A value that fills a slot. -/
theorem BeforeSlot.fill {tokens last : List Token} {slot : Slot} {value : Literal}
    (h : BeforeSlot tokens slot) (hvalue : Value last value) :
    Inside (slotOperation slot) (tokens ++ last) (slot.fill value) := by
  cases h with
  | comparison hname hcomma => exact .closing (.comparison hname hcomma hvalue)
  | member hname hcomma hopening hbefore =>
    exact .afterValue hname hcomma hopening (hbefore.joined hvalue)

theorem leadsOn_moveValue {place : Place} {slot : Slot} {tokens : List Token} {token : Token}
    {move : Move} (hslot : BeforeSlot tokens slot) (h : place.moveValue token slot = .ok move) :
    LeadsOn (slotOperation slot) tokens token move := by
  unfold Place.moveValue at h
  split at h
  next hkind =>
    simp only [Place.readLiteral, Token.literal?, hkind] at h
    cases h
    exact hslot.fill (.text hkind)
  next hkind =>
    obtain ⟨value, hread, rfl⟩ := map_eq_ok h
    exact hslot.fill (.number (number_of_readLiteral (.inl hkind) hread))
  next hkind =>
    obtain ⟨value, hread, rfl⟩ := map_eq_ok h
    exact hslot.fill (.number (number_of_readLiteral (.inr hkind) hread))
  next hkind =>
    cases h
    exact .number hslot hkind
  next hkind =>
    cases h
    exact .number hslot hkind
  next => cases h

theorem leadsOn_moveNumber {place : Place} {slot : Slot} {negative : Bool} {tokens : List Token}
    {sign token : Token} {move : Move} (hslot : BeforeSlot tokens slot)
    (hsign : sign.kind = .mark (signMark negative))
    (h : place.moveNumber token slot negative = .ok move) :
    LeadsOn (slotOperation slot) (tokens ++ [sign]) token move := by
  unfold Place.moveNumber at h
  have hfill : ∀ value, Number token value → LeadsOn (slotOperation slot) (tokens ++ [sign]) token
      (.goTo (slot.fill (if negative then value.negated else value))) := by
    intro value hnumber
    show Inside _ (tokens ++ [sign] ++ [token]) _
    rw [List.append_assoc]
    cases negative with
    | false => exact hslot.fill (.plus hsign hnumber)
    | true => exact hslot.fill (.minus hsign hnumber)
  split at h
  next hkind =>
    obtain ⟨value, hread, rfl⟩ := map_eq_ok h
    exact hfill value (number_of_readLiteral (.inl hkind) hread)
  next hkind =>
    obtain ⟨value, hread, rfl⟩ := map_eq_ok h
    exact hfill value (number_of_readLiteral (.inr hkind) hread)
  next => cases h

/-- Where a count must stand, a token leads on with the count that it denotes. -/
theorem count_of_moveCount {place : Place} {token : Token} {next : UInt64 → Place} {move : Move}
    (h : place.moveCount token next = .ok move) :
    ∃ count, Count token count ∧ move = .goTo (next count) := by
  unfold Place.moveCount at h
  split at h
  next hkind =>
    obtain ⟨count, hread, rfl⟩ := map_eq_ok h
    unfold Place.readCount at hread
    split at hread
    next hcount =>
      cases hread
      exact ⟨count, ⟨of_decide_eq_true hkind, hcount⟩, rfl⟩
    next => cases hread
  next => cases h

/-- Each token that fits a place between the parentheses leads on in the arguments. -/
theorem leadsOn_move {op : Operation} {tokens : List Token} {place : Place} {token : Token}
    {move : Move} (hinside : Inside op tokens place) (h : place.move token = .ok move) :
    LeadsOn op tokens token move := by
  cases hinside with
  | property =>
    obtain ⟨hkind, rfl⟩ := expect_eq_ok h
    exact .afterProperty hkind
  | @afterProperty test name hname =>
    obtain ⟨hkind, rfl⟩ := expect_eq_ok h
    cases test with
    | comparison op => exact .value (.comparison hname hkind)
    | membership op => exact .bracket hname hkind
  | bracket hname hcomma =>
    obtain ⟨hkind, rfl⟩ := expect_eq_ok h
    exact .firstValue hname hcomma hkind
  | @firstValue op name comma opening hname hcomma hopening =>
    -- the list may end at once; else its first value comes here
    simp only [Place.move] at h
    split at h
    next hkind =>
      cases h
      exact .closing (.noMembers hname hcomma hopening hkind)
    next => exact leadsOn_moveValue (.member hname hcomma hopening .nil) h
  | value hslot => exact leadsOn_moveValue hslot h
  | number hslot hsign => exact leadsOn_moveNumber hslot hsign h
  | afterValue hname hcomma hopening hvalues =>
    simp only [Place.move] at h
    split at h
    next hkind =>
      cases h
      exact .value (.member hname hcomma hopening (.comma hvalues hkind))
    next hkind =>
      cases h
      exact .closing (.members hname hcomma hopening hvalues hkind)
    next => cases h
  | closing harguments =>
    obtain ⟨hkind, rfl⟩ := expect_eq_ok h
    exact ⟨rfl, harguments, hkind⟩
  | field hbefore =>
    simp only [Place.move] at h
    split at h
    next hkind =>
      cases h
      exact .fieldProperty hbefore hkind
    next hkind =>
      cases h
      exact .fieldProperty hbefore hkind
    next =>
      obtain ⟨hkind, rfl⟩ := expect_eq_ok h
      exact .afterField (hbefore.joined (.bare hkind))
  | @fieldProperty tokens sign before direction hbefore hsign =>
    obtain ⟨hkind, rfl⟩ := expect_eq_ok h
    show Inside _ (tokens ++ [sign] ++ [token]) _
    rw [List.append_assoc]
    cases direction with
    | asc => exact .afterField (hbefore.joined (.plus hsign hkind))
    | desc => exact .afterField (hbefore.joined (.minus hsign hkind))
  | afterField hfields =>
    simp only [Place.move] at h
    split at h
    next hkind =>
      cases h
      exact ⟨rfl, .sort hfields, hkind⟩
    next hkind =>
      cases h
      exact .field (.comma hfields hkind)
    next => cases h
  | firstCount =>
    obtain ⟨count, hcount, rfl⟩ := count_of_moveCount h
    exact .afterFirstCount hcount
  | afterFirstCount hcount =>
    simp only [Place.move] at h
    split at h
    next hkind =>
      cases h
      exact ⟨rfl, .limit hcount, hkind⟩
    next hkind =>
      cases h
      exact .secondCount hcount hkind
    next => cases h
  | secondCount hcount hcomma =>
    obtain ⟨skip, hskip, rfl⟩ := count_of_moveCount h
    exact .afterSecondCount hcount hcomma hskip
  | afterSecondCount hcount hcomma hskip =>
    obtain ⟨hkind, rfl⟩ := expect_eq_ok h
    exact ⟨rfl, .limitSkip hcount hcomma hskip, hkind⟩
  | afterOperand hoperands =>
    simp only [Place.move] at h
    split at h
    next hkind =>
      cases h
      exact ⟨rfl, .comma hoperands hkind⟩
    next hkind =>
      cases h
      exact ⟨rfl, .combination hoperands, hkind⟩
    next => cases h

/-! ## A run -/

/-- The opening parenthesis leads into the arguments, or to the first operand. -/
theorem led_enter {tokens : List Token} {frames : List Frame} {keyword token : Token}
    {op : Operation} (hframes : BeforeFrames tokens frames)
    (hkeyword : keyword.kind = .keyword op) (hopening : token.kind = .mark .openParen) :
    Led (tokens ++ [keyword, token]) (Situation.after frames (Place.enter op)) := by
  cases op with
  | comparison op =>
    have hproperty : Inside (testOperation (.comparison op)) [] _ := .property
    exact .on hframes (.inside hkeyword hopening hproperty)
  | combination op =>
    have hframe : BeforeOperand [keyword, token] ⟨op, []⟩ := .intro hkeyword hopening .nil
    rw [← List.append_nil (tokens ++ [keyword, token])]
    exact .on (.cons hframes hframe) .query
  | sort => exact .on hframes (.inside hkeyword hopening (.field .nil))
  | limit => exact .on hframes (.inside hkeyword hopening .firstCount)
  | membership op =>
    have hproperty : Inside (testOperation (.membership op)) [] _ := .property
    exact .on hframes (.inside hkeyword hopening hproperty)

/-- A closed query leads to the place after it in the combination that it is an operand of. -/
theorem led_complete {tokens inner : List Token} {frames : List Frame} {query : Query}
    (hframes : BeforeFrames tokens frames) (hclosed : Closed inner query) :
    Led (tokens ++ inner) (Situation.complete query frames) := by
  cases hframes with
  | nil => exact .done hclosed
  | cons houter hinner =>
    cases hinner with
    | intro hkeyword hopening hbefore =>
      rw [List.append_assoc]
      exact .on houter (.inside hkeyword hopening (.afterOperand (hbefore.joined hclosed)))

/-- One step keeps what has been read a part of a query. -/
theorem led_step {tokens : List Token} {situation : Situation} {token : Token}
    {next : Situation.Next} (hled : Led tokens (.on situation))
    (hstep : situation.step token = .ok next) : Led (tokens ++ [token]) next := by
  cases hled with
  | on hframes hplace =>
    obtain ⟨move, hmove, rfl⟩ := map_eq_ok hstep
    rw [List.append_assoc]
    cases hplace with
    | query =>
      simp only [Place.move] at hmove
      split at hmove
      next op hkind =>
        cases hmove
        exact .on hframes (.opening hkind)
      next => cases hmove
    | opening hkeyword =>
      obtain ⟨hkind, rfl⟩ := expect_eq_ok hmove
      exact led_enter hframes hkeyword hkind
    | @inside keyword opening inner op place hkeyword hopening hinside =>
      -- a move within the arguments, into an operand, or out of the query
      have hleads := leadsOn_move hinside hmove
      cases move with
      | goTo place => exact .on hframes (.inside hkeyword hopening hleads)
      | dispatch => exact hleads.elim
      | descend op' before =>
        obtain ⟨rfl, hbefore⟩ := hleads
        rw [← List.append_nil (_ ++ _)]
        exact .on (.cons hframes (.intro hkeyword hopening hbefore)) .query
      | finish query =>
        obtain ⟨rfl, harguments, hclosing⟩ := hleads
        exact led_complete hframes (.intro hkeyword hopening harguments hclosing)

/-- A whole run keeps what has been read a part of a query. -/
theorem led_reads {tokens tokens' : List Token} {situation : Situation} {next : Situation.Next}
    (hled : Led tokens (.on situation)) (hreads : Situation.Reads situation tokens' next) :
    Led (tokens ++ tokens') next := by
  -- along the run, with the tokens taken before it growing at each step
  induction hreads generalizing tokens with
  | nil => rwa [List.append_nil]
  | last hstep => exact led_step hled hstep
  | @cons _ _ token rest _ hstep _ ih =>
    have hnext := ih (led_step hled hstep)
    rwa [List.append_assoc] at hnext

theorem led_start : Led [] (.on Situation.start) := by
  show Led ([] ++ []) _
  exact .on .nil .query

/-- Where reading has come to from the start, the tokens taken are a part of a query. -/
theorem led_of_reads {tokens : List Token} {next : Situation.Next}
    (hreads : Situation.Reads .start tokens next) : Led tokens next := by
  have hled := led_reads led_start hreads
  rwa [List.nil_append] at hled

/-- The end completes a query only outside of combinations, and at a place that allows it. -/
theorem atEnd_eq_ok {length : Nat} {situation : Situation} {query : Query}
    (h : situation.atEnd length = .ok query) :
    situation.frames = [] ∧ situation.place.complete? = some query := by
  unfold Situation.atEnd at h
  split at h
  next => cases h
  next query' hcomplete =>
    cases hframes : situation.frames with
    | nil =>
      rw [hframes] at h
      cases h
      exact ⟨rfl, hcomplete⟩
    | cons frame frames =>
      rw [hframes] at h
      cases h

/-- The end completes nothing but a sort or a limit. -/
theorem operation_of_complete? {place : Place} {query : Query}
    (h : place.complete? = some query) : query.operation = .sort ∨ query.operation = .limit := by
  cases place with
  | afterField =>
    cases h
    exact .inl rfl
  | afterFirstCount =>
    cases h
    exact .inr rfl
  | afterSecondCount =>
    cases h
    exact .inr rfl
  | _ => cases h

/-- A sort or a limit that the end completes has all its arguments. -/
theorem derives_of_complete? {tokens : List Token} {place : Place} {query : Query}
    (hplace : Begun tokens place) (h : place.complete? = some query) : Derives tokens query := by
  cases hplace with
  | query => cases h
  | opening => cases h
  | inside hkeyword hopening hinside =>
    cases hinside with
    | afterField hfields =>
      cases h
      exact .unclosed hkeyword hopening (.sort hfields) (.inl rfl)
    | afterFirstCount hcount =>
      cases h
      exact .unclosed hkeyword hopening (.limit hcount) (.inr rfl)
    | afterSecondCount hcount hcomma hskip =>
      cases h
      exact .unclosed hkeyword hopening (.limitSkip hcount hcomma hskip) (.inr rfl)
    | _ => cases h

/-- Tokens that are read as a query, with none left, derive it. -/
theorem derives_of_read {length : Nat} {tokens : List Token} {query : Query}
    (h : (Situation.start.read length tokens).value = ⟨.ok query, []⟩) :
    Derives tokens query := by
  have hends := Situation.ends_read length .start tokens
  rw [h] at hends
  generalize hreading : Reading.mk (.ok query) [] = reading at hends
  cases hends with
  | done hreads =>
    cases hreading
    rw [List.append_nil]
    cases led_of_reads hreads with
    | done hclosed => exact .closed hclosed
  | refused => cases hreading
  | @usedUp _ next hreads =>
    -- no combination is open, so the place belongs to the only query there is
    simp only [Reading.mk.injEq, and_true] at hreading
    obtain ⟨hframes, hcomplete⟩ := atEnd_eq_ok hreading.symm
    cases led_of_reads hreads with
    | on hbefore hplace =>
      cases hframes
      cases hbefore
      exact derives_of_complete? hplace hcomplete

end ResourceQuery.Grammar
