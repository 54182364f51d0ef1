import ResourceQuery.Proofs.Grammar.Completeness
import ResourceQuery.Proofs.Token.Order

/-!
# Every situation can be completed

Wherever reading stands, some tokens lead it to a whole query. So the tokens that have been taken
without a complaint are never beyond repair. The tokens that are added are such as a text can
have: their kind is the one of their text.
-/

namespace ResourceQuery

namespace Token

/-- The token of a mark, where the position does not count. -/
def ofMark (mark : Mark) : Token :=
  ⟨.mark mark, mark.char.toString, 0⟩

/-- The keyword of an operation, where the position does not count. -/
def ofOperation (op : Operation) : Token :=
  ⟨.keyword op, op.word, 0⟩

/-- Some text. -/
def someText : Token :=
  ⟨.text, "a", 0⟩

/-- Some count, which is also some value. -/
def someCount : Token :=
  ⟨.integer, "0", 0⟩

theorem genuine_ofMark (mark : Mark) : (ofMark mark).Genuine := by
  cases mark <;> rfl

theorem genuine_limit : (ofOperation .limit).Genuine := by
  unfold Genuine
  decide

theorem genuine_someText : someText.Genuine := by
  unfold Genuine
  decide

theorem genuine_someCount : someCount.Genuine := by
  unfold Genuine
  decide

theorem number_someCount : Grammar.Number someCount (.integer 0) :=
  .integer rfl (by decide)

theorem count_someCount : Grammar.Count someCount 0 :=
  ⟨rfl, by decide⟩

end Token

open Situation (Reads step_of_move)

/-- Some tokens lead from a place out of its query, whatever combinations are open around it. -/
def Place.Completable (place : Place) : Prop :=
  ∃ tokens query, (∀ token ∈ tokens, token.Genuine) ∧
    ∀ frames, Reads ⟨frames, place⟩ tokens (Situation.complete query frames)

namespace Place

theorem completable_of_finish {place : Place} {query : Query}
    (h : place.move (Token.ofMark .closeParen) = .ok (.finish query)) : place.Completable := by
  refine ⟨[Token.ofMark .closeParen], query, ?_, fun frames => .one (step_of_move h)⟩
  intro token htoken
  rw [List.mem_singleton.1 htoken]
  exact Token.genuine_ofMark .closeParen

/-- A place from which one token leads to a place that can be completed can be completed. -/
theorem completable_of_goTo {place next : Place} {token : Token} (hgenuine : token.Genuine)
    (h : place.move token = .ok (.goTo next)) (hnext : next.Completable) :
    place.Completable := by
  obtain ⟨tokens, query, htokens, hreads⟩ := hnext
  refine ⟨token :: tokens, query, ?_, fun frames => .cons (step_of_move h) (hreads frames)⟩
  intro token' htoken'
  rcases List.mem_cons.1 htoken' with rfl | hmem
  · exact hgenuine
  · exact htokens token' hmem

theorem completable_of_mark {place next : Place} (mark : Mark)
    (h : place.move (Token.ofMark mark) = .ok (.goTo next)) (hnext : next.Completable) :
    place.Completable :=
  completable_of_goTo (Token.genuine_ofMark mark) h hnext

theorem completable_of_text {place next : Place}
    (h : place.move Token.someText = .ok (.goTo next)) (hnext : next.Completable) :
    place.Completable :=
  completable_of_goTo Token.genuine_someText h hnext

theorem completable_of_count {place next : Place}
    (h : place.move Token.someCount = .ok (.goTo next)) (hnext : next.Completable) :
    place.Completable :=
  completable_of_goTo Token.genuine_someCount h hnext

/-! ## The places, from the last to the first -/

theorem completable_closing (query : Query) : (closing query).Completable :=
  completable_of_finish rfl

theorem completable_afterValue (op : Membership) (name : String) (values : List Literal) :
    (afterValue op name values).Completable :=
  completable_of_mark .closeBracket rfl (completable_closing _)

theorem completable_fill (slot : Slot) (value : Literal) : (slot.fill value).Completable := by
  cases slot with
  | comparison op name => exact completable_closing _
  | member op name before => exact completable_afterValue _ _ _

theorem completable_firstValue (op : Membership) (name : String) :
    (firstValue op name).Completable :=
  completable_of_mark .closeBracket rfl (completable_closing _)

theorem completable_value (slot : Slot) : (value slot).Completable :=
  completable_of_text rfl (completable_fill slot _)

theorem completable_number (slot : Slot) (negative : Bool) :
    (number slot negative).Completable := by
  have hmove : (number slot negative).move Token.someCount =
      .ok (.goTo (slot.fill (if negative then (Literal.integer 0).negated else .integer 0))) :=
    @Grammar.moveNumber_of_number (number slot negative) _ _ _ _ Token.number_someCount
  exact completable_of_count hmove (completable_fill slot _)

theorem completable_afterComma (name : String) (test : Test) :
    (afterComma name test).Completable := by
  cases test with
  | comparison op => exact completable_value _
  | membership op => exact completable_of_mark .openBracket rfl (completable_firstValue op name)

theorem completable_afterProperty (test : Test) (name : String) :
    (afterProperty test name).Completable :=
  completable_of_mark .comma rfl (completable_afterComma name test)

theorem completable_property (test : Test) : (property test).Completable :=
  completable_of_text rfl (completable_afterProperty test _)

theorem completable_afterField (fields : List SortField) : (afterField fields).Completable :=
  completable_of_finish rfl

theorem completable_field (before : List SortField) : (field before).Completable :=
  completable_of_text rfl (completable_afterField _)

theorem completable_fieldProperty (before : List SortField) (direction : Direction) :
    (fieldProperty before direction).Completable :=
  completable_of_text rfl (completable_afterField _)

theorem completable_firstCount : firstCount.Completable := by
  have hmove : firstCount.move Token.someCount = .ok (.goTo (.afterFirstCount 0)) :=
    Grammar.moveCount_of_count Token.count_someCount
  exact completable_of_count hmove (completable_of_finish rfl)

theorem completable_secondCount (count : UInt64) : (secondCount count).Completable := by
  have hmove : (secondCount count).move Token.someCount =
      .ok (.goTo (.afterSecondCount count 0)) :=
    Grammar.moveCount_of_count Token.count_someCount
  exact completable_of_count hmove (completable_of_finish rfl)

theorem completable_query : query.Completable := by
  -- the shortest query that any operand can be
  obtain ⟨tokens, whole, htokens, hreads⟩ := completable_firstCount
  refine ⟨Token.ofOperation .limit :: Token.ofMark .openParen :: tokens, whole, ?_, ?_⟩
  · intro token htoken
    rcases List.mem_cons.1 htoken with rfl | htoken
    · exact Token.genuine_limit
    · rcases List.mem_cons.1 htoken with rfl | htoken
      · exact Token.genuine_ofMark .openParen
      · exact htokens token htoken
  · intro frames
    have hkeyword : query.move (Token.ofOperation .limit) = .ok (.dispatch .limit) := rfl
    have hopening : (opening .limit).move (Token.ofMark .openParen) = .ok (.goTo firstCount) := rfl
    exact .cons (step_of_move hkeyword) (.cons (step_of_move hopening) (hreads frames))

theorem completable_opening (op : Operation) : (opening op).Completable := by
  cases op with
  | comparison op => exact completable_of_mark .openParen rfl (completable_property _)
  | sort => exact completable_of_mark .openParen rfl (completable_field _)
  | limit => exact completable_of_mark .openParen rfl completable_firstCount
  | membership op => exact completable_of_mark .openParen rfl (completable_property _)
  | combination op =>
    obtain ⟨tokens, operand, htokens, hreads⟩ := completable_query
    refine ⟨Token.ofMark .openParen :: (tokens ++ [Token.ofMark .closeParen]),
      .combination op [operand], ?_, ?_⟩
    · intro token htoken
      simp only [List.mem_cons, List.mem_append, List.not_mem_nil, or_false] at htoken
      rcases htoken with rfl | htoken | rfl
      · exact Token.genuine_ofMark .openParen
      · exact htokens token htoken
      · exact Token.genuine_ofMark .closeParen
    · intro frames
      have hopening : (opening (.combination op)).move (Token.ofMark .openParen) =
          .ok (.descend op []) := rfl
      have hclosing : (afterOperand op [operand]).move (Token.ofMark .closeParen) =
          .ok (.finish (.combination op [operand])) := rfl
      have hinner : Reads ⟨⟨op, []⟩ :: frames, query⟩ tokens
          (.on ⟨frames, afterOperand op [operand]⟩) := hreads (⟨op, []⟩ :: frames)
      exact .cons (step_of_move hopening) (hinner.snoc (step_of_move hclosing))

/-- Every place can be completed. -/
theorem completable (place : Place) : place.Completable := by
  cases place with
  | query => exact completable_query
  | opening op => exact completable_opening op
  | property test => exact completable_property test
  | afterProperty test name => exact completable_afterProperty test name
  | bracket op name => exact completable_afterComma name (.membership op)
  | firstValue op name => exact completable_firstValue op name
  | value slot => exact completable_value slot
  | number slot negative => exact completable_number slot negative
  | afterValue op name values => exact completable_afterValue op name values
  | closing query => exact completable_closing query
  | field before => exact completable_field before
  | fieldProperty before direction => exact completable_fieldProperty before direction
  | afterField fields => exact completable_afterField fields
  | firstCount => exact completable_firstCount
  | afterFirstCount count => exact completable_of_finish rfl
  | secondCount count => exact completable_secondCount count
  | afterSecondCount count skip => exact completable_of_finish rfl
  | afterOperand op operands => exact completable_of_finish rfl

end Place

/-- From every situation some tokens lead to a whole query. -/
theorem Situation.completable (situation : Situation) :
    ∃ tokens query, (∀ token ∈ tokens, token.Genuine) ∧ Reads situation tokens (.done query) := by
  obtain ⟨frames, place⟩ := situation
  induction frames generalizing place with
  | nil =>
    obtain ⟨tokens, query, htokens, hreads⟩ := place.completable
    exact ⟨tokens, query, htokens, hreads []⟩
  | cons frame frames ih =>
    -- first out of the query that is being read, then out of the combination around it
    obtain ⟨tokens, query, htokens, hreads⟩ := place.completable
    obtain ⟨tokens', whole, htokens', hreads'⟩ := ih (frame.resume query)
    have hinner : Reads ⟨frame :: frames, place⟩ tokens (.on ⟨frames, frame.resume query⟩) :=
      hreads (frame :: frames)
    refine ⟨tokens ++ tokens', whole, ?_, hinner.trans hreads'⟩
    intro token htoken
    rcases List.mem_append.1 htoken with hmem | hmem
    · exact htokens token hmem
    · exact htokens' token hmem

end ResourceQuery
