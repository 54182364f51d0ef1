import Mathlib
import ResourceQuery.Proofs.Reading.Parse
import ResourceQuery.Proofs.Token.Joining
import ResourceQuery.Proofs.Token.Numbers
import ResourceQuery.Proofs.Writing.RoundTrip

/-!
# Numerals as values

A text of the shape of a numeral is a number where a value is wanted, unless its exponent has a
sign. The sign is a mark, so it cuts the numeral in two: what comes before it ends with the letter
of the exponent and is no numeral but a text, and behind that text no sign fits.
-/

namespace ResourceQuery

open Grammar (Number Value)
open Lexer (Spells Word)
open Numeral (Digits Mantissa Scale Shape)
open Situation (Reads)
open Text (byteLength byteLength_append byteLength_cons)

/-! ## The characters of a numeral -/

namespace Numeral

theorem Mantissa.ne_nil {cs : List Char} (h : Mantissa cs) : cs ≠ [] := by
  cases h with
  | whole hdigits => exact hdigits.1
  | point => exact List.append_ne_nil_of_right_ne_nil _ (List.cons_ne_nil _ _)
  | fraction => exact List.cons_ne_nil _ _

theorem Mantissa.forall_mem {cs : List Char} (h : Mantissa cs) :
    ∀ c ∈ cs, c.isDigit ∨ c = '.' := by
  cases h with
  | whole hdigits => exact fun c hc => .inl (hdigits.2 c hc)
  | point hdigits hfraction =>
    refine List.forall_mem_append.2 ⟨fun c hc => .inl (hdigits.2 c hc), ?_⟩
    exact List.forall_mem_cons.2 ⟨.inr rfl, fun c hc => .inl (hfraction c hc)⟩
  | fraction hdigits =>
    exact List.forall_mem_cons.2 ⟨.inr rfl, fun c hc => .inl (hdigits.2 c hc)⟩

/-- A numeral ends with a digit or with its point. -/
theorem Shape.last {cs : List Char} (h : Shape cs) : ∀ c ∈ cs.getLast?, c.isDigit ∨ c = '.' := by
  cases h with
  | plain hmantissa => exact fun c hc => hmantissa.forall_mem c (List.mem_of_mem_getLast? hc)
  | @scaled mantissa _ _ hscale =>
    cases hscale with
    | @intro letter sign digits _ _ hdigits =>
      intro c hc
      rw [← List.cons_append, ← List.append_assoc,
        List.getLast?_append_of_ne_nil _ hdigits.1] at hc
      exact .inl (hdigits.2 c (List.mem_of_mem_getLast? hc))

theorem Shape.kind {cs : List Char} (h : Shape cs) :
    Kind.ofChars cs = .integer ∨ Kind.ofChars cs = .float := by
  by_cases hinteger : Digits cs ∧ Decimal.ofDigitChars cs ≤ Kind.integerMax
  · exact .inl (HasKind.integer hinteger.1 hinteger.2).ofChars_eq
  · exact .inr (HasKind.float h hinteger).ofChars_eq

/-- A numeral up to the sign of its exponent. -/
inductive Stub : List Char → Prop
  | intro {cs : List Char} {letter : Char} (hmantissa : Mantissa cs)
      (hletter : letter = 'e' ∨ letter = 'E') : Stub (cs ++ [letter])

theorem Stub.word {cs : List Char} (h : Stub cs) : Word cs := by
  cases h with
  | intro hmantissa hletter =>
    refine Word.of_forall (List.append_ne_nil_of_right_ne_nil _ (List.cons_ne_nil _ _)) ?_
    refine List.forall_mem_append.2 ⟨fun c hc => solid_of_numeral ?_, ?_⟩
    · exact (hmantissa.forall_mem c hc).imp_right .inl
    · exact List.forall_mem_singleton.2 (solid_of_numeral (.inr (.inr hletter)))

theorem keyword_no_digit (op : Operation) :
    op.word.toList.all fun c => !(c.isDigit || c = '.') := by
  rcases op with (_ | _) | (_ | _) | _ | _ | (_ | _) <;> decide

/-- Up to the sign, a numeral is neither a number nor a keyword. -/
theorem Stub.hasKind {cs : List Char} (h : Stub cs) : HasKind cs .text := by
  refine .text h.word.ne_mark ?shape ?keyword
  case shape =>
    intro hshape
    cases h with
    | @intro _ letter _ hletter =>
      have hlast := hshape.last letter (by simp)
      rcases hletter with rfl | rfl <;> exact absurd hlast (by decide)
  case keyword =>
    rintro op hop
    cases h with
    | @intro mantissa _ hmantissa _ =>
      obtain ⟨c, hc⟩ := List.exists_mem_of_ne_nil _ hmantissa.ne_nil
      have hnone := List.all_eq_true.1 (keyword_no_digit op) c
        (hop ▸ List.mem_append_left [_] hc)
      have hnumeral : (c.isDigit || c = '.') = true := by simpa using hmantissa.forall_mem c hc
      rw [hnumeral] at hnone
      cases hnone

/-- Either there is no sign in a numeral, or it stands behind the letter of the exponent. -/
theorem Shape.word_or_stub {cs : List Char} (h : Shape cs) :
    Word cs ∨ ∃ front, ∃ mark : Mark, ∃ back, Stub front ∧ (mark = .plus ∨ mark = .minus) ∧
      cs = front ++ mark.char :: back := by
  cases h with
  | plain hmantissa =>
    refine .inl (Word.of_forall hmantissa.ne_nil fun c hc => solid_of_numeral ?_)
    exact (hmantissa.forall_mem c hc).imp_right .inl
  | @scaled mantissa _ hmantissa hscale =>
    cases hscale with
    | @intro letter sign digits hletter hsign hdigits =>
      have hstub : Stub (mantissa ++ [letter]) := .intro hmantissa hletter
      rcases hsign with rfl | rfl | rfl
      · refine .inl (Word.of_forall (List.append_ne_nil_of_left_ne_nil hmantissa.ne_nil _) ?_)
        refine List.forall_mem_append.2 ⟨fun c hc => solid_of_numeral ?_, ?_⟩
        · exact (hmantissa.forall_mem c hc).imp_right .inl
        · refine List.forall_mem_cons.2 ⟨solid_of_numeral (.inr (.inr hletter)), ?_⟩
          exact fun c hc => solid_of_numeral (.inl (hdigits.2 c hc))
      · exact .inr ⟨_, .plus, digits, hstub, .inl rfl, by simp [Mark.char]⟩
      · exact .inr ⟨_, .minus, digits, hstub, .inr rfl, by simp [Mark.char]⟩

end Numeral

/-! ## Where a value is wanted -/

/-- A numeral that is cut off as a whole is a number, and it is the same wherever it stands. -/
theorem spells_shape {cs : List Char} (hshape : Shape cs) (hword : Word cs) :
    ∃ value : Literal, ((∃ n, value = .integer n) ∨ ∃ x, value = .float x) ∧
      Spells cs fun spelt => ∃ token, spelt = [token] ∧ Number token value := by
  have hgenuine : Token.Genuine ⟨Kind.ofChars cs, String.ofList cs, 0⟩ := by
    rw [Token.Genuine, String.toList_ofList]
  obtain ⟨hinteger, hfloat⟩ := hgenuine.readings
  rcases hshape.kind with hkind | hkind
  · obtain ⟨n, -, hread, -⟩ := hinteger hkind
    refine ⟨.integer (Int64.ofNat n), .inl ⟨_, rfl⟩, (Spells.word hword).mono ?_⟩
    rintro _ ⟨⟨_, _, position⟩, rfl, rfl, rfl⟩
    exact ⟨_, rfl, .integer hkind hread⟩
  · obtain ⟨x, hread⟩ := hfloat hkind
    refine ⟨.float x, .inr ⟨_, rfl⟩, (Spells.word hword).mono ?_⟩
    rintro _ ⟨⟨_, _, position⟩, rfl, rfl, rfl⟩
    exact ⟨_, rfl, .float hkind hread⟩

/-- The text of a comparison with a value. -/
def comparisonText (op : Comparison) (name value : String) : String :=
  op.word ++ "(" ++ name ++ "," ++ value ++ ")"

theorem toList_comparisonText (op : Comparison) (name value : String) :
    (comparisonText op name value).toList = call (.comparison op) [name.toList, value.toList] := by
  simp [comparisonText, call, commas, Operation.word, Mark.char]

section

variable {name text : String} {token : Token}
  (hname : tokenize name = [token]) (hkind : token.kind = .text)

include hname hkind

theorem spells_name :
    Spells name.toList fun spelt => ∃ token' : Token, spelt = [token'] ∧ token'.kind = .text ∧
      token'.text = token.text := by
  refine (Lexer.spells_tokenize name).mono ?_
  rintro _ ⟨f, rfl⟩
  rw [hname]
  exact ⟨token.moved f, rfl, hkind, rfl⟩

/-- A text that spells a value is the value of a comparison. -/
theorem parse_comparisonText (op : Comparison) {value : Literal}
    (h : Spells text.toList fun spelt => Value spelt value) :
    parse (comparisonText op name text) = .ok (.comparison op token.text value) := by
  have hcall : Spells (call (.comparison op) [name.toList, text.toList]) fun spelt =>
      Grammar.Closed spelt (.comparison op token.text value) := by
    refine spells_call rfl ((spells_pair (spells_name hname hkind) h).mono ?_)
    intro spelt hspelt
    obtain ⟨_, comma, _, ⟨name', rfl, hname', htext⟩, hcomma, hvalue, rfl⟩ := hspelt
    rw [← htext]
    exact .comparison hname' hcomma hvalue
  have htokens := hcall.tokenize
  rw [← toList_comparisonText, String.ofList_toList] at htokens
  exact parse_eq_ok_iff_derives.2 (.closed htokens)

theorem parse_unsigned_numeral (op : Comparison) (hshape : Shape text.toList)
    (hword : Word text.toList) :
    ∃ value : Literal, ((∃ n, value = .integer n) ∨ ∃ x, value = .float x) ∧
      parse (comparisonText op name text) = .ok (.comparison op token.text value) := by
  obtain ⟨value, hnumber, hspells⟩ := spells_shape hshape hword
  refine ⟨value, hnumber, parse_comparisonText hname hkind op (hspells.mono ?_)⟩
  intro spelt hspelt
  obtain ⟨number, rfl, h⟩ := hspelt
  exact .number h

/-- A comparison up to the sign of a numeral lacks nothing but its parenthesis. -/
theorem spells_cut_comparison (op : Comparison) {front : List Char} (hstub : Numeral.Stub front) :
    Spells (op.word.toList ++ Mark.openParen.char :: (name.toList ++ Mark.comma.char :: front))
      fun spelt => ∃ query, Reads .start spelt (.on ⟨[], .closing query⟩) := by
  have hvalue := Spells.word hstub.word
  rw [hstub.hasKind.ofChars_eq] at hvalue
  refine ((spells_keyword (.comparison op)).append .openParen
    ((spells_name hname hkind).append .comma hvalue)).mono ?_
  rintro _ ⟨_, opening, _, ⟨keyword, rfl, hkeyword⟩, hopening,
    ⟨_, comma, _, ⟨name', rfl, hname', -⟩, hcomma, ⟨value, rfl, hvalue', -⟩, rfl⟩, rfl⟩
  have hopened : Reads .start [keyword, opening]
      (.on ⟨[], .property (.comparison op)⟩) := Grammar.reads_opening hkeyword hopening rfl
  exact ⟨_, hopened.trans (Grammar.reads_comparison hname' hcomma (.text hvalue'))⟩

/-- Behind the first part of a numeral that is cut in two, the sign is refused. -/
theorem parse_cut_numeral (op : Comparison) {front back : List Char} {mark : Mark}
    (hstub : Numeral.Stub front) (hmark : mark = .plus ∨ mark = .minus)
    (htext : text.toList = front ++ mark.char :: back) :
    parse (comparisonText op name text) = .error ⟨.missingCloseParen,
      "expected ')', found '" ++ String.ofList [mark.char] ++ "'",
      byteLength (op.word ++ "(" ++ name ++ ",").toList + byteLength front⟩ := by
  obtain ⟨taken, ⟨query, hreads⟩, htokens⟩ := spells_cut_comparison hname hkind op hstub
    (mark.char :: (back ++ [')'])) 0 (Lexer.endsWord_mark mark _)
  rw [Lexer.tokens_of_next?_some (Lexer.next?_mark mark _ _)] at htokens
  have hwhole : (comparisonText op name text).toList = op.word.toList ++
      Mark.openParen.char :: (name.toList ++ Mark.comma.char :: front) ++
        mark.char :: (back ++ [')']) := by
    simp [comparisonText, htext, Mark.char]
  have hposition : 0 + byteLength (op.word.toList ++
      Mark.openParen.char :: (name.toList ++ Mark.comma.char :: front)) =
        byteLength (op.word ++ "(" ++ name ++ ",").toList + byteLength front := by
    have hopened : op.word.toList ++ Mark.openParen.char ::
        (name.toList ++ Mark.comma.char :: front) =
          (op.word ++ "(" ++ name ++ ",").toList ++ front := by
      simp [Mark.char]
    rw [hopened, byteLength_append, Nat.zero_add]
  rw [← hwhole, hposition] at htokens
  refine parse_of_refused htokens hreads ?_
  rcases hmark with rfl | rfl
  · rfl
  · rfl

/--
A numeral is a number as the value of a comparison if there is no sign in it. With a sign in its
exponent it is a syntax error at the sign.
-/
theorem parse_numeral_value (op : Comparison) (hshape : Shape text.toList) :
    ((∀ c ∈ text.toList, Mark.isMark c = false) ∧
      ∃ value : Literal, ((∃ n, value = .integer n) ∨ ∃ x, value = .float x) ∧
        parse (comparisonText op name text) = .ok (.comparison op token.text value)) ∨
    ∃ (front back : List Char) (mark : Mark), text.toList = front ++ mark.char :: back ∧
      parse (comparisonText op name text) = .error ⟨.missingCloseParen,
        "expected ')', found '" ++ String.ofList [mark.char] ++ "'",
        byteLength (op.word ++ "(" ++ name ++ ",").toList + byteLength front⟩ := by
  rcases hshape.word_or_stub with hword | ⟨front, mark, back, hstub, hmark, htext⟩
  · exact .inl ⟨hword.no_mark, parse_unsigned_numeral hname hkind op hshape hword⟩
  · exact .inr ⟨front, back, mark, htext, parse_cut_numeral hname hkind op hstub hmark htext⟩

end

/-- One exponent without a sign, one with it. -/
theorem exponents_as_values :
    (∃ value : Literal, ((∃ n, value = .integer n) ∨ ∃ x, value = .float x) ∧
      parse (comparisonText .eq "a" "1e5") = .ok (.comparison .eq "a" value)) ∧
    ∀ query, parse (comparisonText .eq "a" "1e-5") ≠ .ok query := by
  have hname : tokenize "a" = [⟨.text, "a", 0⟩] := by cbv
  have hshape : Numeral.Shape "1e5".toList := Numeral.isSome_ofChars?_iff.1 (by decide)
  have hshape' : Numeral.Shape "1e-5".toList := Numeral.isSome_ofChars?_iff.1 (by decide)
  constructor
  · rcases parse_numeral_value hname rfl .eq hshape with ⟨-, hvalue⟩ | ⟨_, _, _, htext, -⟩
    · exact hvalue
    · have hnone : "1e5".toList.all fun c => !Mark.isMark c := by decide
      rw [htext] at hnone
      simp [Mark.isMark, Mark.ofChar?_char] at hnone
  · intro query hquery
    rcases parse_numeral_value hname rfl .eq hshape' with ⟨hnone, -⟩ | ⟨_, _, _, -, herror⟩
    · exact absurd (hnone '-' (by decide)) (by decide)
    · rw [hquery] at herror
      cases herror

/-- The shape of a numeral allows for a sign, but the sign is refused. -/
theorem signed_exponent_refused :
    Numeral.Shape "1e+5".toList ∧ tokenize "a" = [⟨.text, "a", 0⟩] ∧
      parse "eq(a,1e+5)" = .error ⟨.missingCloseParen, "expected ')', found '+'", 7⟩ := by
  refine ⟨Numeral.isSome_ofChars?_iff.1 (by decide), ?_, ?_⟩
  · cbv
  · cbv

end ResourceQuery
