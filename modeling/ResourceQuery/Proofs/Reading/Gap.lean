import ResourceQuery.Proofs.Reading.Closed
import ResourceQuery.Proofs.Token.Digits

/-!
# Digits in a gap

A text with a gap where a value or a count must stand can be filled with digits: whatever stands
around the gap, the digits are cut off alone, for before a value or a count there is always a mark.
So what they denote does not depend on the query, and reading goes on with it behind the gap.
-/

namespace ResourceQuery

open Grammar (BeforeSlot Inside Leading Value signMark)
open Lexer (Blanks)
open Numeral (Digits)
open Situation (Reads)
open Text (byteLength)

/-! ## Places for values and counts -/

/-- A place where a value must stand, with what the value belongs to. -/
inductive ValuePlace : Place → Slot → Prop
  | first (op : Membership) (property : String) :
      ValuePlace (.firstValue op property) (.member op property [])
  | value (slot : Slot) : ValuePlace (.value slot) slot

/-- A place where a count must stand, with the place behind it. -/
inductive CountPlace : Place → (UInt64 → Place) → Prop
  | limit : CountPlace .firstCount .afterFirstCount
  | skip (count : UInt64) : CountPlace (.secondCount count) (.afterSecondCount count)

/-- A place where a number may stand. -/
def NumberPlace (place : Place) : Prop :=
  (∃ slot, ValuePlace place slot) ∨ ∃ next, CountPlace place next

theorem ValuePlace.takesValue {place : Place} {slot : Slot} (h : ValuePlace place slot) :
    Grammar.TakesValue place slot := by
  cases h with
  | first op property => exact Grammar.takesValue_firstValue op property
  | value => exact Grammar.takesValue_value slot

theorem CountPlace.move_eq {place : Place} {next : UInt64 → Place} (h : CountPlace place next)
    (token : Token) : place.move token = place.moveCount token next := by
  cases h <;> rfl

/-- The report of what stands where a count must stand, if it is not the end of the arguments. -/
theorem CountPlace.refuse_eq {place : Place} {next : UInt64 → Place} (h : CountPlace place next)
    {token : Token} (hkind : token.is (.mark .closeParen) = false) :
    place.refuse token = ⟨.expectedValue, "expected integer, found '" ++ token.text ++ "'",
      token.position⟩ := by
  cases h with
  | limit =>
    have hother : ¬(some token).all (fun token => token.is (.mark .closeParen)) := by simp [hkind]
    rw [Place.refuse, Place.complaint, if_neg hother]
    rfl
  | skip => rfl

/-- Tokens that end with a mark. -/
def EndsMark (tokens : List Token) : Prop :=
  ∃ before last mark, tokens = before ++ [last] ∧ last.kind = .mark mark

namespace EndsMark

theorem singleton {token : Token} {mark : Mark} (h : token.kind = .mark mark) :
    EndsMark [token] :=
  ⟨[], token, mark, rfl, h⟩

theorem append_left {tokens : List Token} (h : EndsMark tokens) (before : List Token) :
    EndsMark (before ++ tokens) := by
  obtain ⟨front, last, mark, rfl, hmark⟩ := h
  exact ⟨before ++ front, last, mark, (List.append_assoc _ _ _).symm, hmark⟩

theorem cons {tokens : List Token} (h : EndsMark tokens) (token : Token) :
    EndsMark (token :: tokens) :=
  h.append_left [token]

end EndsMark

namespace Grammar

theorem Leading.endsMark {α : Type} {item : List Token → α → Prop} {tokens : List Token}
    {xs : List α} {opening : Token} {mark : Mark} (h : Leading item tokens xs)
    (hopening : opening.kind = .mark mark) : EndsMark (opening :: tokens) := by
  cases h with
  | nil => exact .singleton hopening
  | comma _ hcomma => exact ((EndsMark.singleton hcomma).append_left _).cons opening

theorem BeforeSlot.endsMark {tokens : List Token} {slot : Slot} (h : BeforeSlot tokens slot) :
    EndsMark tokens := by
  cases h with
  | comparison _ hcomma => exact (EndsMark.singleton hcomma).cons _
  | member _ _ hopening hbefore => exact ((hbefore.endsMark hopening).cons _).cons _

theorem Inside.endsMark {op : Operation} {tokens : List Token} {place : Place} {opening : Token}
    (h : Inside op tokens place) (hopening : opening.kind = .mark .openParen)
    (hplace : NumberPlace place) : EndsMark (opening :: tokens) := by
  rcases hplace with ⟨slot, hplace⟩ | ⟨next, hplace⟩
  · cases hplace with
    | first =>
      cases h with
      | firstValue _ _ hbracket => exact (((EndsMark.singleton hbracket).cons _).cons _).cons _
    | value =>
      cases h with
      | value hslot => exact hslot.endsMark.cons _
  · cases hplace with
    | limit =>
      cases h with
      | firstCount => exact .singleton hopening
    | skip =>
      cases h with
      | secondCount _ hcomma => exact ((EndsMark.singleton hcomma).cons _).cons _

/-- Before a value or a count stands a mark. -/
theorem endsMark_of_reads {tokens : List Token} {frames : List Frame} {place : Place}
    (h : Reads .start tokens (.on ⟨frames, place⟩)) (hplace : NumberPlace place) :
    EndsMark tokens := by
  cases led_of_reads h with
  | on _ hbegun =>
    cases hbegun with
    | query => rcases hplace with ⟨_, hplace⟩ | ⟨_, hplace⟩ <;> cases hplace
    | opening => rcases hplace with ⟨_, hplace⟩ | ⟨_, hplace⟩ <;> cases hplace
    | inside _ hopening hinside =>
      exact ((hinside.endsMark hopening hplace).cons _).append_left _

end Grammar

/-! ## Texts with a gap -/

/-- What reading on from a situation in a text of a length comes to, if that has to be all. -/
def Situation.conclude (situation : Situation) (length : Nat) (tokens : List Token) :
    Except SyntaxError Query :=
  let reading := (situation.read length tokens).value
  reading.outcome.bind (Parser.nothingAfter ⟨reading.rest, length⟩)

theorem parse_eq_conclude (text : String) :
    parse text = Situation.start.conclude (byteLength text.toList) (tokenize text) :=
  parse_eq text

theorem Situation.Reads.conclude_eq {situation next : Situation} {tokens : List Token}
    (h : Reads situation tokens (.on next)) (length : Nat) (rest : List Token) :
    situation.conclude length (tokens ++ rest) = next.conclude length rest := by
  simp only [conclude, h.value_read_on]

/--
A text with a gap in it: up to the gap it is read to a place, and behind the gap it begins with a
mark, or there is nothing.
-/
structure Gap where
  before : String
  after : String
  frames : List Frame
  place : Place
  reads : Reads .start (tokenize before) (.on ⟨frames, place⟩)
  closed : ∀ first ∈ (tokenize after).head?, first.IsMark

namespace Gap

/-- The text with the gap filled. -/
def fill (gap : Gap) (cs : List Char) : String :=
  gap.before ++ String.ofList cs ++ gap.after

/-- The tokens behind the gap. -/
def rest (gap : Gap) (cs : List Char) : List Token :=
  Lexer.tokens ⟨gap.after.toList, byteLength gap.before.toList + byteLength cs⟩

/-- What the filled text comes to if reading goes on from a place behind the gap. -/
def goOn (gap : Gap) (cs : List Char) (place : Place) : Except SyntaxError Query :=
  Situation.conclude ⟨gap.frames, place⟩ (byteLength (gap.fill cs).toList) (gap.rest cs)

theorem tokenize_fill (gap : Gap) (cs : List Char) (hmark : EndsMark (tokenize gap.before)) :
    tokenize (gap.fill cs) =
      tokenize gap.before ++
        (Lexer.tokens ⟨cs, byteLength gap.before.toList⟩ ++ gap.rest cs) := by
  have hbehind : Meet (Lexer.tokens ⟨cs, byteLength gap.before.toList⟩) (gap.rest cs) := by
    rw [rest, tokens_eq_tokenize]
    exact Meet.moved (fun _ _ first hfirst => .inr (gap.closed first hfirst)) _
  have hbefore : ∀ later, Meet (tokenize gap.before) later := by
    obtain ⟨front, last, mark, htokens, hkind⟩ := hmark
    intro later other hother _ _
    rw [htokens, List.getLast?_concat] at hother
    cases hother
    have hmem : last ∈ tokenize gap.before := by simp [htokens]
    exact .inl (isMark_of_kind hmem hkind)
  have htoList : (gap.fill cs).toList = gap.before.toList ++ (cs ++ gap.after.toList) := by
    simp [fill]
  rw [tokenize, Lexer.ofString, htoList, Lexer.tokens_append (hbefore _),
    Nat.zero_add, Lexer.tokens_append hbehind]
  rfl

/-- A gap filled with what leads from its place to another. -/
theorem parse_fill {gap : Gap} {cs : List Char} {place : Place}
    (hmark : EndsMark (tokenize gap.before))
    (hreads : Reads ⟨gap.frames, gap.place⟩ (Lexer.tokens ⟨cs, byteLength gap.before.toList⟩)
      (.on ⟨gap.frames, place⟩)) :
    parse (gap.fill cs) = gap.goOn cs place := by
  rw [parse_eq_conclude, gap.tokenize_fill cs hmark, gap.reads.conclude_eq, hreads.conclude_eq]
  rfl

/-- If what stands behind the gap leads to a query, the filled text denotes it. -/
theorem goOn_of_reads {gap : Gap} {cs : List Char} {place : Place} {query : Query}
    (h : Reads ⟨gap.frames, place⟩ (gap.rest cs) (.done query)) :
    gap.goOn cs place = .ok query := by
  have hread := h.value_read_done (byteLength (gap.fill cs).toList) []
  rw [List.append_nil] at hread
  rw [goOn, Situation.conclude, hread]
  rfl

/-- A gap before the closing parenthesis. -/
theorem goOn_of_completes {gap : Gap} {cs : List Char} {place : Place} {query : Query}
    (hframes : gap.frames = []) (hafter : gap.after = ")")
    (h : Grammar.Completes place query) : gap.goOn cs place = .ok query := by
  have htext : ")".toList = [Mark.closeParen.char] := rfl
  apply goOn_of_reads
  rw [hframes, rest, hafter, htext, Lexer.tokens_of_next?_some (Lexer.next?_mark .closeParen [] _),
    Lexer.tokens_nil]
  exact .one (Situation.step_of_move (h.close _ rfl))

end Gap

/-! ## Digits with a sign -/

/-- Digits alone, or with a sign before them and perhaps blanks between. -/
inductive SignedDigits (digits : List Char) : Bool → List Char → Prop
  | bare : SignedDigits digits false digits
  | signed (negative : Bool) {blanks : List Char} (hblanks : Blanks blanks) :
      SignedDigits digits negative ((signMark negative).char :: (blanks ++ digits))

/-- They are a value, whatever its position is. -/
theorem SignedDigits.value {digits cs : List Char} {negative : Bool}
    (h : SignedDigits digits negative cs) (hdigits : Digits digits) (position : Nat) :
    ∃ value : Literal, value.FromDigits digits negative ∧
      Value (Lexer.tokens ⟨cs, position⟩) value := by
  cases h with
  | bare =>
    obtain ⟨value, hnumber, hvalue, -⟩ := Token.number_ofDigits hdigits
    rw [hdigits.tokens_eq]
    exact ⟨value, hvalue, .number hnumber⟩
  | signed _ hblanks =>
    obtain ⟨value, hnumber, hvalue, hopposite⟩ := Token.number_ofDigits hdigits
    rw [Lexer.tokens_of_next?_some (Lexer.next?_mark _ _ _), Lexer.tokens_blanks hblanks,
      hdigits.tokens_eq]
    cases negative with
    | false => exact ⟨value, hvalue, .plus rfl hnumber⟩
    | true => exact ⟨value.negated, hopposite, .minus rfl hnumber⟩

/-! ## Digits as values and counts -/

section

variable {digits : List Char} (hdigits : Digits digits) (gap : Gap)

include hdigits

theorem parse_digits_as_value {slot : Slot} (hplace : ValuePlace gap.place slot) {negative : Bool}
    {cs : List Char} (hcs : SignedDigits digits negative cs) :
    ∃ value : Literal, value.FromDigits digits negative ∧
      parse (gap.fill cs) = gap.goOn cs (slot.fill value) := by
  obtain ⟨value, hdenotes, hvalue⟩ := hcs.value hdigits (byteLength gap.before.toList)
  have hmark := Grammar.endsMark_of_reads gap.reads (.inl ⟨slot, hplace⟩)
  exact ⟨value, hdenotes, gap.parse_fill hmark (Grammar.reads_value hplace.takesValue hvalue)⟩

theorem parse_digits_as_count {next : UInt64 → Place} (hplace : CountPlace gap.place next)
    (hle : Decimal.ofDigitChars digits ≤ Kind.integerMax) :
    ∃ count : UInt64, count.toNat = Decimal.ofDigitChars digits ∧
      parse (gap.fill digits) = gap.goOn digits (next count) := by
  obtain ⟨count, hdenotes, hcount⟩ := Token.count_ofDigits hdigits hle
  have hmark := Grammar.endsMark_of_reads gap.reads (.inr ⟨next, hplace⟩)
  refine ⟨count, hdenotes, gap.parse_fill hmark ?_⟩
  rw [hdigits.tokens_eq]
  apply Grammar.reads_of_move
  rw [hplace.move_eq]
  exact Grammar.moveCount_of_count hcount

/-- Digits out of range are a float, and no float is a count. -/
theorem parse_digits_refused {next : UInt64 → Place} (hplace : CountPlace gap.place next)
    (hlt : Kind.integerMax < Decimal.ofDigitChars digits) :
    parse (gap.fill digits) = .error ⟨.expectedValue,
      "expected integer, found '" ++ String.ofList digits ++ "'",
      byteLength gap.before.toList⟩ := by
  have hmark := Grammar.endsMark_of_reads gap.reads (.inr ⟨next, hplace⟩)
  have htokens := gap.tokenize_fill digits hmark
  rw [hdigits.tokens_eq] at htokens
  have hkind : (Token.ofDigits digits (byteLength gap.before.toList)).kind = .float :=
    Token.kind_ofDigits_of_lt hdigits hlt
  refine parse_of_refused htokens gap.reads ?_
  have hmove : gap.place.move (.ofDigits digits (byteLength gap.before.toList)) =
      .error (gap.place.refuse (.ofDigits digits (byteLength gap.before.toList))) := by
    rw [hplace.move_eq, Place.moveCount, Token.is, hkind]
    rfl
  rw [Situation.step, hmove, hplace.refuse_eq (by rw [Token.is, hkind]; rfl)]
  rfl

/--
Where digits stand for a value, with a sign or without, they are an integer of just their number
if that is in the range of one, and else a float. Where they stand for a count, they are the count
of their number in the same range, and else a syntax error at their position.
-/
theorem parse_digits :
    (∀ slot, ValuePlace gap.place slot → ∀ negative cs, SignedDigits digits negative cs →
      ∃ value : Literal, value.FromDigits digits negative ∧
        parse (gap.fill cs) = gap.goOn cs (slot.fill value)) ∧
    ∀ next, CountPlace gap.place next →
      (Decimal.ofDigitChars digits ≤ Kind.integerMax →
        ∃ count : UInt64, count.toNat = Decimal.ofDigitChars digits ∧
          parse (gap.fill digits) = gap.goOn digits (next count)) ∧
      (Kind.integerMax < Decimal.ofDigitChars digits →
        parse (gap.fill digits) = .error ⟨.expectedValue,
          "expected integer, found '" ++ String.ofList digits ++ "'",
          byteLength gap.before.toList⟩) := by
  refine ⟨fun slot hplace negative cs hcs => ?value, fun next hplace => ⟨?inside, ?beyond⟩⟩
  case value => exact parse_digits_as_value hdigits gap hplace hcs
  case inside => exact parse_digits_as_count hdigits gap hplace
  case beyond => exact parse_digits_refused hdigits gap hplace

end

/-- A negated value with zeros in front and blanks around, a skip, and a skip out of range. -/
theorem parse_digits_in_and_out_of_range :
    parse "out(a,[b, -  007 ])" =
        .ok (.membership .outside "a" [.text "b", .integer (-7)]) ∧
      parse "limit(5, 007)" = .ok (.limit 5 7) ∧
      parse "limit(5, 9223372036854775808)" =
        .error ⟨.expectedValue, "expected integer, found '9223372036854775808'", 9⟩ := by
  have hlist : Reads .start (tokenize "out(a,[b, ")
      (.on ⟨[], .value (.member .outside "a" [.text "b"])⟩) := by
    have htokens : tokenize "out(a,[b, " =
        [⟨.keyword (.membership .outside), "out", 0⟩, ⟨.mark .openParen, "(", 3⟩,
          ⟨.text, "a", 4⟩, ⟨.mark .comma, ",", 5⟩, ⟨.mark .openBracket, "[", 6⟩,
          ⟨.text, "b", 7⟩, ⟨.mark .comma, ",", 8⟩] := by
      cbv
    rw [htokens]
    exact .cons rfl (.cons rfl (.cons rfl (.cons rfl (.cons rfl (.cons rfl (.one rfl))))))
  have hlimit : Reads .start (tokenize "limit(5, ") (.on ⟨[], .secondCount 5⟩) := by
    have htokens : tokenize "limit(5, " =
        [⟨.keyword .limit, "limit", 0⟩, ⟨.mark .openParen, "(", 5⟩, ⟨.integer, "5", 6⟩,
          ⟨.mark .comma, ",", 7⟩] := by
      cbv
    rw [htokens]
    exact .cons rfl (.cons rfl (.cons rfl (.one rfl)))
  have hbracket : ∀ first ∈ (tokenize " ])").head?, first.IsMark := by
    have htokens : tokenize " ])" =
        [⟨.mark .closeBracket, "]", 1⟩, ⟨.mark .closeParen, ")", 2⟩] := by
      cbv
    rw [htokens]
    rintro _ ⟨⟩
    exact ⟨.closeBracket, rfl⟩
  have hparen : ∀ first ∈ (tokenize ")").head?, first.IsMark :=
    Lexer.isMark_head_of_endsWord (Lexer.endsWord_mark .closeParen [])
  have hseven : Digits "007".toList := ⟨by decide, List.all_eq_true.1 (by decide)⟩
  have hlarge : Digits "9223372036854775808".toList := ⟨by decide, List.all_eq_true.1 (by decide)⟩
  refine ⟨?value, ?skip, ?beyond⟩
  case value =>
    have hcs : SignedDigits "007".toList true "-  007".toList :=
      .signed true (by decide : Blanks "  ".toList)
    obtain ⟨value, hvalue, hparse⟩ :=
      (parse_digits hseven ⟨_, _, _, _, hlist, hbracket⟩).1 _ (.value _) _ _ hcs
    cases hvalue with
    | @integer n _ hn =>
      have hn' : n = -7 := Int64.toInt_inj.1 (hn.trans (by decide))
      rw [hn'] at hparse
      exact hparse.trans (by cbv)
    | float hlt => exact absurd hlt (by decide)
  case skip =>
    obtain ⟨count, hcount, hparse⟩ :=
      ((parse_digits hseven ⟨_, _, _, _, hlimit, hparen⟩).2 _ (.skip 5)).1 (by decide)
    have hcount' : count = 7 := UInt64.toNat_inj.1 (hcount.trans (by decide))
    rw [hcount'] at hparse
    exact hparse.trans (by cbv)
  case beyond =>
    have hparse :=
      ((parse_digits hlarge ⟨_, _, _, _, hlimit, hparen⟩).2 _ (.skip 5)).2 (by decide)
    exact hparse.trans (by cbv)

end ResourceQuery
