import ResourceQuery.Proofs.Grammar.Basic
import ResourceQuery.Proofs.Token.Cut
import ResourceQuery.Proofs.Token.Numbers
import ResourceQuery.Proofs.Writing.Words

/-!
# Tokens of digits

Digits alone are an integer as far as their value is in range, and a float beyond. The sign in
front of them is no part of the token, so the range is the same for both signs. As a count they
are read in sixty-four bits, but their kind has already been decided by the range of an integer.
-/

namespace ResourceQuery

open Grammar (Count Number)
open Lexer (Spells Word)
open Numeral (Digits)

/-- The float nearest to the number that digits denote. -/
def Binary64.ofDigits (digits : List Char) : Binary64 :=
  .ofDecimal ⟨Decimal.ofDigitChars digits, 0⟩

/-- The value that digits denote as they are, or negated. -/
inductive Literal.FromDigits (digits : List Char) (negative : Bool) : Literal → Prop
  | integer {n : Int64} (hle : Decimal.ofDigitChars digits ≤ Kind.integerMax)
      (hn : n.toInt = if negative then -(Decimal.ofDigitChars digits : Int)
        else Decimal.ofDigitChars digits) :
      FromDigits digits negative (.integer n)
  | float (hlt : Kind.integerMax < Decimal.ofDigitChars digits) :
      FromDigits digits negative
        (.float (if negative then -Binary64.ofDigits digits else .ofDigits digits))

/-! ## How digits are cut off -/

theorem Numeral.Digits.word {digits : List Char} (h : Digits digits) : Word digits :=
  Word.of_forall h.1 fun c hc => solid_of_numeral (.inl (h.2 c hc))

/-- The token of a text of digits. -/
def Token.ofDigits (digits : List Char) (position : Nat) : Token :=
  ⟨Kind.ofChars digits, String.ofList digits, position⟩

theorem Numeral.Digits.tokens_eq {digits : List Char} (h : Digits digits) (position : Nat) :
    Lexer.tokens ⟨digits, position⟩ = [Token.ofDigits digits position] := by
  have hnext := Lexer.next?_word h.word Lexer.blanks_nil Lexer.endsWord_nil position
  rw [List.nil_append, List.append_nil] at hnext
  rw [Lexer.tokens_of_next?_some hnext, Lexer.tokens_of_next?_none rfl]
  rfl

/-- Digits are spelt as their token. -/
theorem Numeral.Digits.spells {digits : List Char} (h : Digits digits) :
    Spells digits fun spelt => ∃ position, spelt = [Token.ofDigits digits position] := by
  refine (Spells.word h.word).mono ?_
  intro spelt hspelt
  obtain ⟨⟨_, _, position⟩, rfl, rfl, rfl⟩ := hspelt
  exact ⟨position, rfl⟩

/-! ## What they denote -/

namespace Token

section

variable {digits : List Char} {position : Nat} (h : Digits digits)

include h

theorem numeral?_ofDigits :
    (ofDigits digits position).numeral? = some ⟨digits, none, none⟩ := by
  rw [numeral?, ofDigits, String.toList_ofList, h.ofChars?_eq]

theorem kind_ofDigits_of_le (hle : Decimal.ofDigitChars digits ≤ Kind.integerMax) :
    (ofDigits digits position).kind = .integer :=
  (HasKind.integer h hle).ofChars_eq

theorem kind_ofDigits_of_lt (hlt : Kind.integerMax < Decimal.ofDigitChars digits) :
    (ofDigits digits position).kind = .float := by
  refine (HasKind.float (.plain (.whole h)) fun hinteger => ?_).ofChars_eq
  exact Nat.not_le_of_lt hlt hinteger.2

theorem integer?_ofDigits (hle : Decimal.ofDigitChars digits ≤ Kind.integerMax) :
    (ofDigits digits position).integer? = some (.ofNat (Decimal.ofDigitChars digits)) := by
  simp [integer?, numeral?_ofDigits h, Numeral.natural?, hle]

theorem float?_ofDigits :
    (ofDigits digits position).float? = some (.ofDigits digits) := by
  simp [float?, numeral?_ofDigits h, Numeral.decimal, Binary64.ofDigits]

theorem count_ofDigits (hle : Decimal.ofDigitChars digits ≤ Kind.integerMax) :
    ∃ count : UInt64, count.toNat = Decimal.ofDigitChars digits ∧
      Count (ofDigits digits position) count := by
  have hlt : Decimal.ofDigitChars digits < UInt64.size := Nat.lt_of_le_of_lt hle (by decide)
  refine ⟨.ofNat (Decimal.ofDigitChars digits), UInt64.toNat_ofNat_of_lt' hlt,
    kind_ofDigits_of_le h hle, ?_⟩
  simp [count?, numeral?_ofDigits h, Numeral.natural?, hlt]

/-- The token denotes a number, and a minus in front of it turns this into the opposite. -/
theorem number_ofDigits :
    ∃ value : Literal, Number (ofDigits digits position) value ∧
      value.FromDigits digits false ∧ value.negated.FromDigits digits true := by
  rcases Nat.lt_or_ge Kind.integerMax (Decimal.ofDigitChars digits) with hlt | hle
  · exact ⟨_, .float (kind_ofDigits_of_lt h hlt) (float?_ofDigits h), .float hlt, .float hlt⟩
  · have hrange : Decimal.ofDigitChars digits < 2 ^ 63 := Nat.lt_of_le_of_lt hle (by decide)
    refine ⟨_, .integer (kind_ofDigits_of_le h hle) (integer?_ofDigits h hle),
      .integer hle ?_, .integer hle ?_⟩
    · exact Int64.toInt_ofNat_of_lt hrange
    · exact Int64.toInt_neg_ofNat_of_le (Nat.le_of_lt hrange)

end

end Token

end ResourceQuery
