import ResourceQuery.Proofs.Reading.Run
import ResourceQuery.Proofs.Token.Numbers

/-!
# Refusals

A token of a text that does not fit a place is refused for its kind alone: its number, if it is
one, can always be read. So the error is the complaint of the place, and it stands at the token.
-/

namespace ResourceQuery

namespace Place

/-- The value in a token of a text can be read. -/
theorem exists_readLiteral {token : Token} (h : token.Genuine) :
    ∃ value, readLiteral token = .ok value := by
  obtain ⟨hinteger, hfloat⟩ := h.readings
  unfold readLiteral Token.literal?
  split
  next value _ => exact ⟨value, rfl⟩
  next hnone =>
    -- a number that cannot be read would contradict its kind
    split at hnone
    next hkind =>
      obtain ⟨n, -, hread, -⟩ := hinteger hkind
      rw [hread] at hnone
      cases hnone
    next hkind =>
      obtain ⟨x, hread⟩ := hfloat hkind
      rw [hread] at hnone
      cases hnone
    next => cases hnone

/-- The count in an integer token of a text can be read. -/
theorem exists_readCount {token : Token} (h : token.Genuine) (hkind : token.kind = .integer) :
    ∃ count, readCount token = .ok count := by
  obtain ⟨n, -, -, hread⟩ := h.readings.1 hkind
  exact ⟨UInt64.ofNat n, by rw [readCount, hread]⟩

theorem refuse_of_expect {place : Place} {kind : Kind} {token : Token} {move : Move}
    {error : SyntaxError} (h : place.expect kind token move = .error error) :
    error = place.refuse token := by
  unfold expect at h
  split at h
  next => cases h
  next =>
    cases h
    rfl

theorem refuse_of_moveCount {place : Place} {token : Token} {next : UInt64 → Place}
    {error : SyntaxError} (hgenuine : token.Genuine)
    (h : place.moveCount token next = .error error) : error = place.refuse token := by
  unfold moveCount at h
  split at h
  next hkind =>
    obtain ⟨count, hread⟩ := exists_readCount hgenuine (of_decide_eq_true hkind)
    rw [hread] at h
    cases h
  next =>
    cases h
    rfl

theorem refuse_of_moveValue {place : Place} {token : Token} {slot : Slot} {error : SyntaxError}
    (hgenuine : token.Genuine) (h : place.moveValue token slot = .error error) :
    error = place.refuse token := by
  -- the value can be read, so only the kind can have been refused
  obtain ⟨value, hread⟩ := exists_readLiteral hgenuine
  unfold moveValue at h
  rw [hread] at h
  split at h
  all_goals cases h
  rfl

theorem refuse_of_moveNumber {place : Place} {token : Token} {slot : Slot} {negative : Bool}
    {error : SyntaxError} (hgenuine : token.Genuine)
    (h : place.moveNumber token slot negative = .error error) : error = place.refuse token := by
  obtain ⟨value, hread⟩ := exists_readLiteral hgenuine
  unfold moveNumber at h
  rw [hread] at h
  split at h
  all_goals cases h
  rfl

/-- A token of a text that does not fit a place is refused with the complaint of the place. -/
theorem refuse_of_move {place : Place} {token : Token} {error : SyntaxError}
    (hgenuine : token.Genuine) (h : place.move token = .error error) :
    error = place.refuse token := by
  cases place with
  | opening => exact refuse_of_expect h
  | property => exact refuse_of_expect h
  | afterProperty => exact refuse_of_expect h
  | bracket => exact refuse_of_expect h
  | closing => exact refuse_of_expect h
  | fieldProperty => exact refuse_of_expect h
  | afterSecondCount => exact refuse_of_expect h
  | firstCount => exact refuse_of_moveCount hgenuine h
  | secondCount => exact refuse_of_moveCount hgenuine h
  | value => exact refuse_of_moveValue hgenuine h
  | number => exact refuse_of_moveNumber hgenuine h
  | firstValue =>
    simp only [move] at h
    split at h
    next => cases h
    next => exact refuse_of_moveValue hgenuine h
  | field =>
    simp only [move] at h
    split at h
    next => cases h
    next => cases h
    next => exact refuse_of_expect h
  | query | afterValue | afterField | afterFirstCount | afterOperand =>
    -- here every kind that fits has a branch of its own, and the last branch refuses
    simp only [move] at h
    split at h
    all_goals cases h
    rfl

theorem position_refuse (place : Place) (token : Token) :
    (place.refuse token).position = token.position := rfl

end Place

/-- A refused token is reported at its own position. -/
theorem position_of_step {situation : Situation} {token : Token} {error : SyntaxError}
    (hgenuine : token.Genuine) (h : situation.step token = .error error) :
    error.position = token.position := by
  rw [Place.refuse_of_move hgenuine (map_eq_error h), Place.position_refuse]

/-- An error at the end is the complaint of some place: of a combination if an operand ends. -/
theorem exists_refuseEnd_of_atEnd {length : Nat} {situation : Situation} {error : SyntaxError}
    (h : situation.atEnd length = .error error) :
    ∃ place : Place, error = place.refuseEnd length := by
  unfold Situation.atEnd at h
  split at h
  next =>
    cases h
    exact ⟨_, rfl⟩
  next =>
    split at h
    next => cases h
    next =>
      cases h
      exact ⟨_, rfl⟩

/-- Tokens that are used up too early are reported at the end. -/
theorem position_of_atEnd {length : Nat} {situation : Situation} {error : SyntaxError}
    (h : situation.atEnd length = .error error) : error.position = length := by
  obtain ⟨place, rfl⟩ := exists_refuseEnd_of_atEnd h
  rfl

end ResourceQuery
