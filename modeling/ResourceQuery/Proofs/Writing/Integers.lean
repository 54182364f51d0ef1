import Mathlib
import ResourceQuery.Proofs.Number.Standard
import ResourceQuery.Proofs.Reading.Gap
import ResourceQuery.Proofs.Writing.NumeralValues

/-!
# Integers in decimal

An integer written in decimal is read back as it is, except for the least one: its digits are
tested for the range of an integer before the minus in front of them is seen, so it becomes a
float. The same test decides on counts, so the upper half of their range cannot be written.
-/

namespace ResourceQuery

open Grammar (Closed Joined Number Value)
open Lexer (Spells)
open Numeral (Digits)
open Text (byteLength)

/-! ## Decimal texts -/

theorem toList_toString_int (n : Int) :
    (toString n).toList = signed (n < 0) (Decimal.digitChars n.natAbs) := by
  cases n with
  | ofNat n => exact toList_toString_nat n
  | negSucc n =>
    have htext : toString (Int.negSucc n) = "-" ++ toString (n + 1) := rfl
    rw [htext, String.toList_append, toList_toString_nat]
    simp [signed, Int.negSucc_lt_zero]

/-- The value that the decimal text of an integer denotes: but for the least one, the integer. -/
def Literal.ofDecimalText (n : Int64) : Literal :=
  if n = Int64.minValue then .float (.ofInt n.toInt) else .integer n

/-! ## Values -/

/-- The digits of the least integer are out of range, and so they are a float. -/
theorem spells_least_integer :
    Spells (toString Int64.minValue).toList fun spelt =>
      Value spelt (.ofDecimalText Int64.minValue) := by
  have hdigits : Digits (Decimal.digitChars 9223372036854775808) :=
    Numeral.digits_digitChars _
  have hlt : Kind.integerMax < Decimal.ofDigitChars (Decimal.digitChars 9223372036854775808) := by
    rw [Decimal.ofDigitChars_digitChars]
    decide
  have hnumber : Spells (Decimal.digitChars 9223372036854775808) fun spelt => ∃ token,
      spelt = [token] ∧
        Number token (.float (.ofDigits (Decimal.digitChars 9223372036854775808))) := by
    refine hdigits.spells.mono ?_
    intro spelt hspelt
    obtain ⟨position, rfl⟩ := hspelt
    exact ⟨_, rfl, .float (Token.kind_ofDigits_of_lt hdigits hlt) (Token.float?_ofDigits hdigits)⟩
  have hvalue : Literal.ofDecimalText Int64.minValue =
      (Literal.float (.ofDigits (Decimal.digitChars 9223372036854775808))).negated := by
    decide +kernel
  have htext : (toString Int64.minValue).toList =
      signed true (Decimal.digitChars 9223372036854775808) :=
    toList_toString_int _
  rw [hvalue, htext]
  exact spells_signed true hnumber

theorem spells_integer (n : Int64) :
    Spells (toString n).toList fun spelt => Value spelt (.ofDecimalText n) := by
  by_cases hn : n = Int64.minValue
  · rw [hn]
    exact spells_least_integer
  · have htext : (toString n).toList = (Literal.integer n).write := toList_toString_int _
    rw [Literal.ofDecimalText, if_neg hn, htext]
    exact spells_value hn

theorem Grammar.Number.moved {token : Token} {value : Literal} (h : Number token value)
    (f : Nat → Nat) : Number (token.moved f) value := by
  cases h with
  | integer hkind hread => exact .integer hkind hread
  | float hkind hread => exact .float hkind hread

theorem Grammar.Value.moved {tokens : List Token} {value : Literal} (h : Value tokens value)
    (f : Nat → Nat) : Value (tokens.map (Token.moved f)) value := by
  cases h with
  | @text token hkind => exact @Value.text (token.moved f) hkind
  | number hnumber => exact .number (hnumber.moved f)
  | plus hsign hnumber => exact .plus hsign (hnumber.moved f)
  | minus hsign hnumber => exact .minus hsign (hnumber.moved f)

/-- A text that is a value spells that value wherever it stands. -/
theorem spells_of_value {text : String} {value : Literal} (h : Value (tokenize text) value) :
    Spells text.toList fun spelt => Value spelt value := by
  refine (Lexer.spells_tokenize text).mono ?_
  intro spelt hspelt
  obtain ⟨f, rfl⟩ := hspelt
  exact h.moved f

/-! ## Comparisons and lists -/

/-- The text of a membership test with some values. -/
def membershipText (op : Membership) (name : String) (values : List String) : String :=
  op.word ++ "(" ++ name ++ ",[" ++ ",".intercalate values ++ "])"

theorem toList_membershipText (op : Membership) (name : String) (values : List String) :
    (membershipText op name values).toList =
      call (.membership op) [name.toList, Mark.openBracket.char ::
        (commas (values.map String.toList) ++ [Mark.closeBracket.char])] := by
  simp [membershipText, call, commas, Operation.word, Mark.char]

section

variable {name : String} {token : Token}
  (hname : tokenize name = [token]) (hkind : token.kind = .text)

include hname hkind

theorem parse_membershipText (op : Membership) {entries : List (String × Literal)}
    (hne : entries ≠ [])
    (h : ∀ entry ∈ entries, Spells entry.1.toList fun spelt => Value spelt entry.2) :
    parse (membershipText op name (entries.map Prod.fst)) =
      .ok (.membership op token.text (entries.map Prod.snd)) := by
  have hvalues : Spells (commas ((entries.map Prod.fst).map String.toList)) fun spelt =>
      Joined Value spelt (entries.map Prod.snd) := by
    rw [List.map_map]
    exact (spells_commas hne h).mono fun _ => Grammar.Joined.map
  have hcall : Spells (call (.membership op) [name.toList, Mark.openBracket.char ::
      (commas ((entries.map Prod.fst).map String.toList) ++ [Mark.closeBracket.char])])
      fun spelt => Closed spelt (.membership op token.text (entries.map Prod.snd)) := by
    refine spells_call rfl ((spells_pair (spells_name hname hkind)
      ((hvalues.concat .closeBracket).cons .openBracket)).mono ?_)
    intro spelt hspelt
    obtain ⟨_, comma, _, ⟨name', rfl, hname', htext⟩, hcomma,
      ⟨opening, _, hopening, ⟨tokens, closing, htokens, hclosing, rfl⟩, rfl⟩, rfl⟩ := hspelt
    rw [← htext]
    exact .members hname' hcomma hopening htokens hclosing
  have htokens := hcall.tokenize
  rw [← toList_membershipText, String.ofList_toList] at htokens
  exact parse_eq_ok_iff_derives.2 (.closed htokens)

/--
Every integer in decimal is read as itself, in a comparison and at any place of a list of values;
only the least one is read as a float.
-/
theorem parse_integer (n : Int64) :
    (∀ op, parse (comparisonText op name (toString n)) =
      .ok (.comparison op token.text (.ofDecimalText n))) ∧
    ∀ op (before after : List (String × Literal)),
      (∀ entry ∈ before ++ after, Value (tokenize entry.1) entry.2) →
      parse (membershipText op name (before.map Prod.fst ++ toString n :: after.map Prod.fst)) =
        .ok (.membership op token.text
          (before.map Prod.snd ++ .ofDecimalText n :: after.map Prod.snd)) := by
  refine ⟨fun op => parse_comparisonText hname hkind op (spells_integer n), ?_⟩
  intro op before after hothers
  obtain ⟨hbefore, hafter⟩ := List.forall_mem_append.1 hothers
  have hall : ∀ entry ∈ before ++ (toString n, Literal.ofDecimalText n) :: after,
      Spells entry.1.toList fun spelt => Value spelt entry.2 := by
    refine List.forall_mem_append.2 ⟨fun entry hentry => spells_of_value (hbefore entry hentry), ?_⟩
    refine List.forall_mem_cons.2 ⟨spells_integer n, fun entry hentry => ?_⟩
    exact spells_of_value (hafter entry hentry)
  have hne := List.append_ne_nil_of_right_ne_nil before
    (List.cons_ne_nil (toString n, Literal.ofDecimalText n) after)
  have hparse := parse_membershipText hname hkind op hne hall
  rw [List.map_append, List.map_append, List.map_cons, List.map_cons] at hparse
  exact hparse

end

/-- A negative integer as a value, and among other values. -/
theorem integer_in_comparison_and_list :
    parse "lt(a,-5)" = .ok (.comparison .lt "a" (.integer (-5))) ∧
      parse "in(a,[x,-5,1e])" =
        .ok (.membership .inside "a" [.text "x", .integer (-5), .text "1e"]) := by
  have hname : tokenize "a" = [⟨.text, "a", 0⟩] := by cbv
  have hx : tokenize "x" = [⟨.text, "x", 0⟩] := by cbv
  have he : tokenize "1e" = [⟨.text, "1e", 0⟩] := by cbv
  obtain ⟨hcomparison, hlist⟩ := parse_integer hname rfl (-5)
  refine ⟨hcomparison .lt, hlist .inside [("x", .text "x")] [("1e", .text "1e")] ?_⟩
  simp only [List.cons_append, List.nil_append, List.forall_mem_cons]
  refine ⟨?_, ?_, List.forall_mem_nil _⟩
  · rw [hx]
    exact .text rfl
  · rw [he]
    exact .text rfl

/-- The least integer, written in decimal, is read as a float. -/
theorem least_integer_read_as_float :
    toString Int64.minValue = "-9223372036854775808" ∧
      parse "eq(a,-9223372036854775808)" =
        .ok (.comparison .eq "a" (.float ⟨true, 0x43E0000000000000, by decide⟩)) ∧
      parse "eq(a,-9223372036854775808)" ≠ .ok (.comparison .eq "a" (.integer Int64.minValue)) := by
  have hname : tokenize "a" = [⟨.text, "a", 0⟩] := by cbv
  have hvalue : Literal.ofDecimalText Int64.minValue =
      .float ⟨true, 0x43E0000000000000, by decide⟩ := by
    decide +kernel
  have hparse : parse "eq(a,-9223372036854775808)" =
      .ok (.comparison .eq "a" (.float ⟨true, 0x43E0000000000000, by decide⟩)) := by
    have htext : comparisonText .eq "a" (toString Int64.minValue) =
        "eq(a,-9223372036854775808)" := by
      decide +kernel
    rw [← htext, ← hvalue]
    exact parse_comparisonText hname rfl .eq spells_least_integer
  refine ⟨rfl, hparse, ?_⟩
  rw [hparse]
  intro h
  cases h

/-! ## Counts -/

/-- The text of a limit without a skip. -/
def limitText (count : UInt64) : String :=
  "limit(" ++ toString count ++ ")"

/-- The text of a limit with a skip. -/
def windowText (count skip : UInt64) : String :=
  "limit(" ++ toString count ++ "," ++ toString skip ++ ")"

/-- The report of a count that is out of the range of integers. -/
def countRefused (count : UInt64) (position : Nat) : SyntaxError :=
  ⟨.expectedValue, "expected integer, found '" ++ toString count ++ "'", position⟩

theorem ofList_digitChars (count : UInt64) :
    String.ofList (Decimal.digitChars count.toNat) = toString count := by
  rw [← toList_toString_nat, String.ofList_toList]
  rfl

theorem reads_limit_opening :
    Situation.Reads .start (tokenize "limit(") (.on ⟨[], .firstCount⟩) := by
  have htokens : tokenize "limit(" =
      [⟨.keyword .limit, "limit", 0⟩, ⟨.mark .openParen, "(", 5⟩] := by
    cbv
  rw [htokens]
  exact .cons rfl (.one rfl)

/-- A count in range leads on to the skip. -/
theorem reads_limit_count {count : UInt64} (hle : count.toNat ≤ Kind.integerMax) :
    Situation.Reads .start (tokenize ("limit(" ++ toString count ++ ","))
      (.on ⟨[], .secondCount count⟩) := by
  have hspells := (spells_keyword .limit).append .openParen
    ((spells_natural hle).concat .comma)
  have htext : String.ofList ((Operation.limit.word).toList ++ Mark.openParen.char ::
      (Decimal.digitChars count.toNat ++ [Mark.comma.char])) =
      "limit(" ++ toString count ++ "," := by
    rw [← ofList_digitChars, ← String.toList_inj]
    simp [Operation.word, Mark.char]
  have htokens := hspells.tokenize
  rw [htext] at htokens
  obtain ⟨_, opening, _, ⟨keyword, rfl, hkeyword⟩, hopening,
    ⟨_, comma, ⟨token, rfl, -, hcount⟩, hcomma, rfl⟩, heq⟩ := htokens
  rw [UInt64.ofNat_toNat] at hcount
  rw [heq]
  exact (Grammar.reads_opening hkeyword hopening rfl).trans
    (Grammar.reads_countComma hcount hcomma)

/-- A gap outside of combinations, with a mark behind it. -/
def rootGap {before : String} {place : Place} (after : String) (mark : Mark)
    (hreads : Situation.Reads .start (tokenize before) (.on ⟨[], place⟩))
    (hafter : after.toList.head? = some mark.char) : Gap where
  before := before
  after := after
  frames := []
  place := place
  reads := hreads
  closed := by
    obtain ⟨rest, hrest⟩ := List.head?_eq_some_iff.1 hafter
    rw [tokenize, Lexer.ofString, hrest]
    exact Lexer.isMark_head_of_endsWord (Lexer.endsWord_mark mark rest)

section

variable {before : String} {place : Place} {next : UInt64 → Place}
  (hreads : Situation.Reads .start (tokenize before) (.on ⟨[], place⟩))
  (hplace : CountPlace place next)

include hreads hplace

/-- A count in range, and the parenthesis behind it. -/
theorem parse_count_in_range {count : UInt64} {query : Query}
    (hle : count.toNat ≤ Kind.integerMax) (hcompletes : Grammar.Completes (next count) query) :
    parse (before ++ toString count ++ ")") = .ok query := by
  have hafter : ")".toList.head? = some Mark.closeParen.char := rfl
  obtain ⟨count', hvalue, hparse⟩ := parse_digits_as_count (Numeral.digits_digitChars count.toNat)
    (rootGap ")" .closeParen hreads hafter) hplace (by rwa [Decimal.ofDigitChars_digitChars])
  rw [Decimal.ofDigitChars_digitChars, UInt64.toNat_inj] at hvalue
  rw [Gap.fill, rootGap, ofList_digitChars, hvalue] at hparse
  exact hparse.trans (Gap.goOn_of_completes rfl rfl hcompletes)

theorem parse_count_beyond_range {count : UInt64} {after : String} (mark : Mark)
    (hlt : Kind.integerMax < count.toNat) (hafter : after.toList.head? = some mark.char) :
    parse (before ++ toString count ++ after) =
      .error (countRefused count (byteLength before.toList)) := by
  have hparse := parse_digits_refused (Numeral.digits_digitChars count.toNat)
    (rootGap after mark hreads hafter) hplace (by rwa [Decimal.ofDigitChars_digitChars])
  rw [Gap.fill, rootGap, ofList_digitChars] at hparse
  exact hparse

end

/--
A limit that is written in decimal is read if its counts are in the range of an integer. A count
beyond it is refused at its place, though the counts of a limit have twice that range.
-/
theorem parse_window (count skip : UInt64) :
    parse (limitText count) =
        (if count.toNat ≤ Kind.integerMax then .ok (.limit count 0)
        else .error (countRefused count (byteLength "limit(".toList))) ∧
      parse (windowText count skip) =
        if Kind.integerMax < count.toNat then
          .error (countRefused count (byteLength "limit(".toList))
        else if Kind.integerMax < skip.toNat then
          .error (countRefused skip (byteLength ("limit(" ++ toString count ++ ",").toList))
        else .ok (.limit count skip) := by
  constructor
  · split
    next hle =>
      exact parse_count_in_range reads_limit_opening .limit hle
        (Grammar.completes_afterFirstCount count)
    next hgt =>
      exact parse_count_beyond_range reads_limit_opening .limit .closeParen
        (Nat.lt_of_not_le hgt) rfl
  · split
    next hlt =>
      have htext : windowText count skip =
          "limit(" ++ toString count ++ ("," ++ toString skip ++ ")") := by
        simp [windowText, String.append_assoc]
      rw [htext]
      refine parse_count_beyond_range reads_limit_opening .limit .comma hlt ?_
      simp [Mark.char]
    next hle =>
      have hreads := reads_limit_count (Nat.le_of_not_lt hle)
      split
      next hlt => exact parse_count_beyond_range hreads (.skip count) .closeParen hlt rfl
      next hle' =>
        exact parse_count_in_range hreads (.skip count) (Nat.le_of_not_lt hle')
          (Grammar.completes_afterSecondCount count skip)

/-- A count of sixty-four bits that is out of the range of integers is refused. -/
theorem limit_beyond_integers_refused :
    limitText 9223372036854775808 = "limit(9223372036854775808)" ∧
      parse "limit(9223372036854775808)" =
        .error ⟨.expectedValue, "expected integer, found '9223372036854775808'", 6⟩ ∧
      parse "limit(9223372036854775808)" ≠ .ok (.limit 9223372036854775808 0) := by
  have hparse : parse "limit(9223372036854775808)" =
      .error ⟨.expectedValue, "expected integer, found '9223372036854775808'", 6⟩ := by
    cbv
  refine ⟨rfl, hparse, ?_⟩
  rw [hparse]
  intro h
  cases h

end ResourceQuery
