import ResourceQuery.Proofs.Reading.Asking

/-!
# Mishaps that do not happen

An item of a query is read in two steps: first the kind of the token ahead is looked at, and then
the token is taken and its text is read. Once the kind fits, the second step could only fail if
there were no token after all, or if its text were no number. Neither happens over any text,
however much of it has been read before. A number that a sign negates is in range, and so is its
opposite.
-/

namespace ResourceQuery

open Situation (Reads)

/-- What could still go wrong once the kind of the token ahead has been found to fit. -/
inductive Mishap
  /-- There is no token to take. -/
  | nothingToTake
  /-- The text of a number is none. -/
  | noNumber
  /-- The text of an integer is no count. -/
  | noCount
deriving DecidableEq

/-! ## The two steps -/

namespace Mishap

/-- Whether a token of a kind is ahead. -/
def isAhead (kind : Kind) (ahead : List Token) : Bool :=
  ahead.head?.any (·.is kind)

/-- The mishap in taking a token of a kind. -/
def ofTaking (kind : Kind) (ahead : List Token) : Option Mishap :=
  if isAhead kind ahead then
    match ahead.head? with
    | some _ => none
    | none => some nothingToTake
  else none

/-- The mishap in taking a token and reading it as a value. -/
def ofReading (ahead : List Token) : Option Mishap :=
  match ahead.head? with
  | some token => if token.literal?.isSome then none else some noNumber
  | none => some nothingToTake

/-- The mishap where a literal is read if one is ahead. -/
def ofLiteral (ahead : List Token) : Option Mishap :=
  if isAhead .text ahead || isAhead .integer ahead || isAhead .float ahead then ofReading ahead
  else none

/-- The mishap where a number is read if one is ahead. -/
def ofNumber (ahead : List Token) : Option Mishap :=
  if isAhead .integer ahead || isAhead .float ahead then ofReading ahead else none

/-- The mishap where a count is read if an integer is ahead. -/
def ofCount (ahead : List Token) : Option Mishap :=
  if isAhead .integer ahead then
    match ahead.head? with
    | some token => if token.count?.isSome then none else some noCount
    | none => some nothingToTake
  else none

end Mishap

open Mishap (isAhead ofTaking ofReading ofLiteral ofNumber ofCount)

/-- The mishap that the tokens ahead cause at a place. -/
def Place.mishap? : Place → List Token → Option Mishap
  | opening _, ahead => ofTaking (.mark .openParen) ahead
  | property _, ahead => ofTaking .text ahead
  | afterProperty _ _, ahead => ofTaking (.mark .comma) ahead
  | bracket _ _, ahead => ofTaking (.mark .openBracket) ahead
  | firstValue _ _, ahead => if isAhead (.mark .closeBracket) ahead then none else ofLiteral ahead
  | value _, ahead => ofLiteral ahead
  | number _ _, ahead => ofNumber ahead
  | closing _, ahead => ofTaking (.mark .closeParen) ahead
  | field _, ahead =>
    if isAhead (.mark .minus) ahead || isAhead (.mark .plus) ahead then none
    else ofTaking .text ahead
  | fieldProperty _ _, ahead => ofTaking .text ahead
  | firstCount, ahead => ofCount ahead
  | afterFirstCount _, ahead =>
    if isAhead (.mark .comma) ahead then none else ofTaking (.mark .closeParen) ahead
  | secondCount _, ahead => ofCount ahead
  | afterSecondCount _ _, ahead => ofTaking (.mark .closeParen) ahead
  -- at the other places tokens are passed over, and nothing is read from them
  | query, _ | afterValue _ _ _, _ | afterField _, _ | afterOperand _ _, _ => none

/-! ## Errors that are mishaps -/

/-- The error of a number that is none. -/
def invalidNumber (token : Token) : SyntaxError :=
  ⟨.expectedValue, "invalid number " ++ token.quoted, token.position⟩

/-- The error of a count that is none. -/
def invalidCount (token : Token) : SyntaxError :=
  ⟨.expectedValue, "invalid count " ++ token.quoted, token.position⟩

/-- The error that is given for a mishap with a token. -/
def Mishap.error? (token : Token) : Mishap → Option SyntaxError
  | nothingToTake => none
  | noNumber => some (invalidNumber token)
  | noCount => some (invalidCount token)

namespace Place

variable {place : Place} {token : Token} {error : SyntaxError}

theorem isAhead_cons (kind : Kind) (rest : List Token) :
    isAhead kind (token :: rest) = token.is kind := rfl

theorem mishap_of_readLiteral (h : readLiteral token = .error error) :
    token.literal? = none ∧ error = invalidNumber token := by
  unfold readLiteral at h
  split at h
  · cases h
  next hnone =>
    cases h
    exact ⟨hnone, rfl⟩

theorem ofReading_cons (h : token.literal? = none) (rest : List Token) :
    ofReading (token :: rest) = some .noNumber := by
  simp [ofReading, h]

theorem mishap_of_moveCount {next : UInt64 → Place}
    (h : place.moveCount token next = .error error) :
    error = place.refuse token ∨
      ∀ rest, (ofCount (token :: rest)).bind (Mishap.error? token) = some error := by
  unfold moveCount at h
  split at h
  next hkind =>
    have hread := map_eq_error h
    unfold readCount at hread
    split at hread
    · cases hread
    next hnone =>
      cases hread
      refine .inr fun rest => ?_
      simp [ofCount, isAhead_cons, hkind, hnone, Mishap.error?, invalidCount]
  next =>
    cases h
    exact .inl rfl

theorem mishap_of_moveValue {slot : Slot} (h : place.moveValue token slot = .error error) :
    error = place.refuse token ∨
      ∀ rest, (ofLiteral (token :: rest)).bind (Mishap.error? token) = some error := by
  unfold moveValue at h
  split at h
  iterate 3
    next hkind =>
      obtain ⟨hnone, rfl⟩ := mishap_of_readLiteral (map_eq_error h)
      refine .inr fun rest => ?_
      simp [ofLiteral, isAhead_cons, Token.is, hkind, ofReading_cons hnone, Mishap.error?]
  · cases h
  · cases h
  · cases h
    exact .inl rfl

theorem mishap_of_moveNumber {slot : Slot} {negative : Bool}
    (h : place.moveNumber token slot negative = .error error) :
    error = place.refuse token ∨
      ∀ rest, (ofNumber (token :: rest)).bind (Mishap.error? token) = some error := by
  unfold moveNumber at h
  split at h
  iterate 2
    next hkind =>
      obtain ⟨hnone, rfl⟩ := mishap_of_readLiteral (map_eq_error h)
      refine .inr fun rest => ?_
      simp [ofNumber, isAhead_cons, Token.is, hkind, ofReading_cons hnone, Mishap.error?]
  · cases h
    exact .inl rfl

/-- An error other than the complaint of the place is the error of a mishap. -/
theorem mishap_of_move (h : place.move token = .error error) :
    error = place.refuse token ∨
      ∀ rest, (place.mishap? (token :: rest)).bind (Mishap.error? token) = some error := by
  cases place with
  | opening | property | afterProperty | bracket | closing | fieldProperty | afterSecondCount =>
    exact .inl (refuse_of_expect h)
  | firstCount | secondCount => exact mishap_of_moveCount h
  | value => exact mishap_of_moveValue h
  | number => exact mishap_of_moveNumber h
  | firstValue op name =>
    simp only [move] at h
    split at h
    next => cases h
    next hbracket =>
      rcases mishap_of_moveValue h with hrefuse | hvalue
      · exact .inl hrefuse
      · refine .inr fun rest => ?_
        have hclosing : isAhead (.mark .closeBracket) (token :: rest) = false :=
          decide_eq_false fun hkind => hbracket hkind
        rw [mishap?, hclosing]
        exact hvalue rest
  | field =>
    simp only [move] at h
    split at h
    · cases h
    · cases h
    · exact .inl (refuse_of_expect h)
  | query | afterValue | afterField | afterFirstCount | afterOperand =>
    -- nothing is read here, so the token can only have been refused
    simp only [move] at h
    split at h
    all_goals cases h
    exact .inl rfl

/-! ## No mishap -/

theorem ofTaking_eq_none (kind : Kind) (ahead : List Token) : ofTaking kind ahead = none := by
  unfold ofTaking
  cases ahead with
  | nil => rfl
  | cons token rest => simp

theorem ofReading_eq_none {rest : List Token} (h : token.Genuine) :
    ofReading (token :: rest) = none := by
  obtain ⟨value, hvalue⟩ := exists_readLiteral h
  unfold readLiteral at hvalue
  split at hvalue
  next hliteral => simp [ofReading, hliteral]
  next => cases hvalue

theorem ofLiteral_eq_none {ahead : List Token} (h : ∀ token ∈ ahead, token.Genuine) :
    ofLiteral ahead = none := by
  cases ahead with
  | nil => rfl
  | cons token rest =>
    have hread : ofReading (token :: rest) = none :=
      ofReading_eq_none (h token List.mem_cons_self)
    rw [ofLiteral, hread, ite_self]

theorem ofNumber_eq_none {ahead : List Token} (h : ∀ token ∈ ahead, token.Genuine) :
    ofNumber ahead = none := by
  cases ahead with
  | nil => rfl
  | cons token rest =>
    have hread : ofReading (token :: rest) = none :=
      ofReading_eq_none (h token List.mem_cons_self)
    rw [ofNumber, hread, ite_self]

theorem ofCount_eq_none {ahead : List Token} (h : ∀ token ∈ ahead, token.Genuine) :
    ofCount ahead = none := by
  cases ahead with
  | nil => rfl
  | cons token rest =>
    by_cases hkind : token.kind = .integer
    · obtain ⟨n, -, -, hcount⟩ := (h token List.mem_cons_self).readings.1 hkind
      simp [ofCount, hcount]
    · have his : isAhead .integer (token :: rest) = false := decide_eq_false hkind
      rw [ofCount, his]
      rfl

/-- The tokens of a text cause no mishap at any place. -/
theorem mishap?_eq_none (place : Place) {ahead : List Token}
    (h : ∀ token ∈ ahead, token.Genuine) : place.mishap? ahead = none := by
  cases place with
  | opening | property | afterProperty | bracket | closing | fieldProperty | afterSecondCount =>
    exact ofTaking_eq_none _ _
  | firstCount | secondCount => exact ofCount_eq_none h
  | value => exact ofLiteral_eq_none h
  | number => exact ofNumber_eq_none h
  | firstValue => rw [mishap?, ofLiteral_eq_none h, ite_self]
  | field | afterFirstCount => rw [mishap?, ofTaking_eq_none, ite_self]
  | query | afterValue | afterField | afterOperand => rfl

/-- A number that is read from a token of a text is in range, and so is its opposite. -/
theorem range_of_readLiteral {n : Int64} (hgenuine : token.Genuine)
    (h : readLiteral token = .ok (.integer n)) :
    0 ≤ n.toInt ∧ n.toInt ≤ Kind.integerMax ∧ (-n).toInt = -n.toInt := by
  unfold readLiteral at h
  split at h
  next value hvalue =>
    cases h
    unfold Token.literal? at hvalue
    split at hvalue
    next hkind =>
      obtain ⟨m, hle, hinteger, -⟩ := hgenuine.readings.1 hkind
      rw [hinteger] at hvalue
      cases hvalue
      have hlt : m < 2 ^ 63 := Nat.lt_of_le_of_lt hle (by decide)
      have hm : (Int64.ofNat m).toInt = m := Int64.toInt_ofNat_of_lt hlt
      have hopposite : (-Int64.ofNat m).toInt = -m :=
        Int64.toInt_neg_ofNat_of_le (Nat.le_of_lt hlt)
      omega
    next =>
      obtain ⟨x, -, hfloat⟩ := Option.map_eq_some_iff.1 hvalue
      cases hfloat
    next => cases hvalue
  next => cases h

/-! ## Messages -/

/-- No complaint begins like the error of a mishap. -/
theorem head_complaint (place : Place) (found : Option Token) :
    (place.complaint found).2.toList.head? ≠ some 'i' := by
  have hlacking : ∀ wanted, (lacking wanted found).toList.head? ≠ some 'i' := by
    intro wanted
    simp [lacking, String.toList_append]
  cases place with
  | query =>
    cases found with
    | none => simp [complaint]
    | some token => simp [complaint, String.toList_append]
  | firstCount =>
    by_cases hfound : found.all fun token => token.is (.mark .closeParen)
    · simp [complaint, hfound]
    · simp only [complaint, hfound]
      exact hlacking _
  | _ => exact hlacking _

/-- Where the end of the input is unexpected, a query should have begun. -/
theorem eq_query_of_complaint {place : Place}
    (h : (place.complaint none).1 = .unexpectedEndOfInput) : place = query := by
  cases place with
  | query => rfl
  | _ => cases h

end Place

theorem head_message_of_atEnd {length : Nat} {situation : Situation} {error : SyntaxError}
    (h : situation.atEnd length = .error error) : error.message.toList.head? ≠ some 'i' := by
  obtain ⟨place, rfl⟩ := exists_refuseEnd_of_atEnd h
  exact place.head_complaint none

/-- Within a combination the end is missing a parenthesis, and so only a start of a query is left. -/
theorem place_of_atEnd {length : Nat} {situation : Situation} {error : SyntaxError}
    (h : situation.atEnd length = .error error) (hkind : error.kind = .unexpectedEndOfInput) :
    situation.place = .query := by
  obtain ⟨frames, place⟩ := situation
  unfold Situation.atEnd at h
  split at h
  next =>
    cases h
    exact Place.eq_query_of_complaint hkind
  next =>
    cases frames with
    | nil => cases h
    | cons frame frames =>
      cases h
      cases hkind

/-! ## Runs -/

/-- What holds wherever reading comes to stand with tokens ahead of it. -/
structure Situation.Unharmed (situation : Situation) (ahead : List Token) (length : Nat) :
    Prop where
  no_mishap : situation.place.mishap? ahead = none
  /-- A token that does not fit is refused with the complaint of the place. -/
  refused : ∀ token error, ahead.head? = some token →
    situation.place.move token = .error error → error = situation.place.refuse token
  /-- The end is unexpected only where a query must begin, and not where a value must stand. -/
  unexpected_end : ∀ error, ahead = [] → situation.atEnd length = .error error →
    error.kind = .unexpectedEndOfInput → situation.place = .query
  /-- Behind a minus, the opposite of a number is in range as the number is. -/
  negated : ∀ slot token n, situation.place = .number slot true → ahead.head? = some token →
    Place.readLiteral token = .ok (.integer n) →
      0 ≤ n.toInt ∧ n.toInt ≤ Kind.integerMax ∧ (-n).toInt = -n.toInt

theorem unharmed_of_genuine (situation : Situation) {ahead : List Token}
    (h : ∀ token ∈ ahead, token.Genuine) (length : Nat) : situation.Unharmed ahead length where
  no_mishap := situation.place.mishap?_eq_none h
  refused := by
    intro token error hahead hmove
    obtain ⟨rest, rfl⟩ := List.head?_eq_some_iff.1 hahead
    rcases Place.mishap_of_move hmove with hrefuse | hmishap
    · exact hrefuse
    · have hnone := hmishap rest
      rw [situation.place.mishap?_eq_none h] at hnone
      cases hnone
  unexpected_end := fun _ _ => place_of_atEnd
  negated := by
    intro slot token n _ hahead hread
    exact Place.range_of_readLiteral (h token (List.mem_of_mem_head? hahead)) hread

/-- The message of an error of a parser is no message of a mishap. -/
theorem head_message_of_next {parser : Parser} {error : SyntaxError}
    (hgenuine : ∀ token ∈ parser.ahead, token.Genuine) (h : parser.next.1 = .error error) :
    error.message.toList.head? ≠ some 'i' := by
  obtain ⟨reading, hends, hnext⟩ := parser.ends_next
  obtain ⟨ahead, length⟩ := parser
  rw [hnext] at h
  dsimp only at h hends hgenuine
  cases hends with
  | done => cases h
  | @refused taken rest token situation error' hreads hstep =>
    cases h
    have hahead : ∀ other ∈ token :: rest, other.Genuine :=
      fun other hother => hgenuine other (List.mem_append_right _ hother)
    have hunharmed := unharmed_of_genuine situation hahead length
    rw [hunharmed.refused token error rfl (map_eq_error hstep)]
    exact situation.place.head_complaint (some token)
  | usedUp => exact head_message_of_atEnd h

/--
Wherever reading a text comes to stand, in any answer of any parser of it, there is no mishap, and
a number that is negated has its opposite in range. No answer, and no parse of all that is left,
ends in an error for a mishap.
-/
theorem no_mishap_over_text (text : String) (cutOff answers : Nat) :
    let parser := Parser.midway text cutOff answers
    (∀ taken ahead situation, parser.ahead = taken ++ ahead →
      Reads .start taken (.on situation) → situation.Unharmed ahead parser.length) ∧
    ∀ error, parser.next.1 = .error error ∨ parser.readAll.value = .error error →
      ∀ token, error ≠ invalidNumber token ∧ error ≠ invalidCount token := by
  intro parser
  have hgenuine : ∀ token ∈ parser.ahead, token.Genuine :=
    fun _ => Parser.genuine_of_mem_midway
  refine ⟨?_, ?_⟩
  · intro taken ahead situation hahead _
    refine unharmed_of_genuine situation (fun token htoken => ?_) parser.length
    exact hgenuine token (by rw [hahead]; exact List.mem_append_right _ htoken)
  · intro error herror token
    have hhead : error.message.toList.head? ≠ some 'i' := by
      rcases herror with hnext | hall
      · exact head_message_of_next hgenuine hnext
      · rw [Parser.value_readAll] at hall
        cases houtcome : parser.readQuery.value.1 with
        | error error' =>
          rw [houtcome] at hall
          cases hall
          exact head_message_of_next hgenuine houtcome
        | ok query =>
          -- a query was read, so a token behind it is what is wrong
          rw [houtcome] at hall
          unfold Except.bind Parser.nothingAfter at hall
          dsimp only at hall
          split at hall
          · cases hall
          · cases hall
            simp [String.toList_append]
    refine ⟨?_, ?_⟩
    · rintro rfl
      simp [invalidNumber, String.toList_append] at hhead
    · rintro rfl
      simp [invalidCount, String.toList_append] at hhead

/-- The greatest integer stands behind a minus, and its opposite is in range. -/
theorem opposite_of_greatest_integer :
    ∃ taken ahead slot token,
      (Parser.midway "eq(a,-9223372036854775807)" 0 0).ahead = taken ++ ahead ∧
      Reads .start taken (.on ⟨[], .number slot true⟩) ∧ ahead.head? = some token ∧
      Place.readLiteral token = .ok (.integer 9223372036854775807) ∧
      (-9223372036854775807 : Int64).toInt = -(9223372036854775807 : Int64).toInt := by
  have hahead : (Parser.midway "eq(a,-9223372036854775807)" 0 0).ahead =
      [⟨.keyword (.comparison .eq), "eq", 0⟩, ⟨.mark .openParen, "(", 2⟩, ⟨.text, "a", 3⟩,
        ⟨.mark .comma, ",", 4⟩, ⟨.mark .minus, "-", 5⟩] ++
      [⟨.integer, "9223372036854775807", 6⟩, ⟨.mark .closeParen, ")", 25⟩] := by
    cbv
  have hreads : Reads .start
      [⟨.keyword (.comparison .eq), "eq", 0⟩, ⟨.mark .openParen, "(", 2⟩, ⟨.text, "a", 3⟩,
        ⟨.mark .comma, ",", 4⟩, ⟨.mark .minus, "-", 5⟩]
      (.on ⟨[], .number (.comparison .eq "a") true⟩) :=
    .cons rfl (.cons rfl (.cons rfl (.cons rfl (.cons rfl .nil))))
  have hread : Place.readLiteral ⟨.integer, "9223372036854775807", 6⟩ =
      .ok (.integer 9223372036854775807) := by
    cbv
  have hunharmed := (no_mishap_over_text "eq(a,-9223372036854775807)" 0 0).1 _ _ _ hahead hreads
  exact ⟨_, _, _, _, hahead, hreads, rfl, hread,
    (hunharmed.negated _ _ _ rfl rfl hread).2.2⟩

end ResourceQuery
