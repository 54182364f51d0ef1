import ResourceQuery.Proofs.Number.ExactReading
import ResourceQuery.Proofs.Number.Standard

/-!
# Exact expansions

Every finite float is a decimal with finitely many places. Written out in full, with a point and
at least one digit behind it, it is a numeral that reads as the same number: nothing of the value
is lost, so nothing is rounded.
-/

namespace ResourceQuery

/-! ## Numerals of digits -/

namespace Numeral

/-- Digits with an optional point and digits behind it. -/
structure Plain (numeral : Numeral) : Prop where
  whole_ne_nil : numeral.whole ≠ []
  isDigit_whole : ∀ c ∈ numeral.whole, c.isDigit
  isDigit_fraction : ∀ digits ∈ numeral.fraction, ∀ c ∈ digits, c.isDigit
  exponent_eq_none : numeral.exponent = none

theorem Plain.regular {numeral : Numeral} (h : numeral.Plain) : numeral.Regular where
  whole := ⟨h.whole_ne_nil, h.isDigit_whole⟩
  isDigit_fraction := h.isDigit_fraction
  exponent := by
    intro exponent hexponent
    rw [h.exponent_eq_none] at hexponent
    cases hexponent

/-- The numeral of a natural number, without a point. -/
def ofNat (n : Nat) : Numeral :=
  ⟨Decimal.digitChars n, none, none⟩

theorem plain_ofNat (n : Nat) : (ofNat n).Plain where
  whole_ne_nil := Nat.toDigits_ne_nil
  isDigit_whole := fun _ => isDigit_digitChars
  isDigit_fraction := by
    intro digits hdigits
    cases hdigits
  exponent_eq_none := rfl

theorem standard_ofNat (n : Nat) : (ofNat n).Standard where
  toRegular := (plain_ofNat n).regular
  no_zero_first := by
    by_cases hn : n = 0
    · subst hn
      exact .inl rfl
    · exact .inr (head_digitChars hn)
  fraction_ne_nil := (Option.some_ne_none _).symm

theorem natural?_ofNat (n : Nat) : (ofNat n).natural? = some n := by
  simp [natural?, ofNat]

theorem chars_ofNat (n : Nat) : (ofNat n).chars = Decimal.digitChars n := by
  simp [chars, ofNat, fractionChars]

end Numeral

namespace Binary64

/-! ## The digits behind the point -/

/--
The digits behind the point of `rest / 2 ^ places`, a number below one, down to the last that is
not zero. Ten times the rest over a power of two is five times the rest over the half of it, so
one digit is found for every place.
-/
def fractionDigits : (places : Nat) → (rest : Nat) → List Char
  | 0, _ => []
  | places + 1, rest =>
    if rest = 0 then []
    else Nat.digitChar (5 * rest / 2 ^ places) :: fractionDigits places (5 * rest % 2 ^ places)

theorem digit_lt {places rest : Nat} (h : rest < 2 ^ (places + 1)) :
    5 * rest / 2 ^ places < 10 := by
  rw [Nat.div_lt_iff_lt_mul (Nat.pow_pos (by decide))]
  rw [Nat.pow_succ] at h
  omega

theorem isDigit_fractionDigits {places rest : Nat} (h : rest < 2 ^ places) {c : Char}
    (hc : c ∈ fractionDigits places rest) : c.isDigit := by
  induction places generalizing rest with
  | zero => cases hc
  | succ places ih =>
    unfold fractionDigits at hc
    split at hc
    · cases hc
    · rcases List.mem_cons.1 hc with rfl | hc
      · rw [Nat.isDigit_digitChar]
        exact decide_eq_true (digit_lt h)
      · exact ih (Nat.mod_lt _ (Nat.pow_pos (by decide))) hc

/-- The digits denote the rest exactly. -/
theorem ofDigitChars_fractionDigits {places rest : Nat} (h : rest < 2 ^ places) :
    Decimal.ofDigitChars (fractionDigits places rest) * 2 ^ places =
      rest * 10 ^ (fractionDigits places rest).length := by
  -- one place less leaves a rest over the half of the power, whose digits are known by induction
  induction places generalizing rest with
  | zero =>
    have hrest : rest = 0 := by omega
    rw [hrest, Nat.zero_mul]
    rfl
  | succ places ih =>
    unfold fractionDigits
    split
    next hrest =>
      rw [hrest, Nat.zero_mul]
      exact Nat.zero_mul _
    next =>
      have hih := ih (Nat.mod_lt (5 * rest) (Nat.pow_pos (by decide)))
      have hsplit : 2 ^ places * (5 * rest / 2 ^ places) + 5 * rest % 2 ^ places = 5 * rest :=
        Nat.div_add_mod _ _
      have hdigit := digit_lt h
      generalize 5 * rest / 2 ^ places = digit at hsplit hdigit ⊢
      generalize 5 * rest % 2 ^ places = next at hih hsplit ⊢
      generalize hdigits : fractionDigits places next = digits at hih
      have hvalue : Decimal.ofDigitChars (digit.digitChar :: digits) =
          10 ^ digits.length * digit + Decimal.ofDigitChars digits := by
        unfold Decimal.ofDigitChars
        rw [Nat.ofDigitChars_cons_digitChar_of_lt_ten hdigit, Nat.mul_zero, Nat.zero_add,
          Nat.ofDigitChars_eq_ofDigitChars_zero]
      rw [hvalue, List.length_cons]
      calc
        (10 ^ digits.length * digit + Decimal.ofDigitChars digits) * 2 ^ (places + 1) =
            2 * (10 ^ digits.length * (2 ^ places * digit) +
              Decimal.ofDigitChars digits * 2 ^ places) := by grind
        _ = 2 * (10 ^ digits.length * (2 ^ places * digit + next)) := by
          rw [hih, Nat.mul_comm next, ← Nat.mul_add]
        _ = rest * 10 ^ (digits.length + 1) := by
          rw [hsplit]
          grind

/-! ## The whole expansion -/

/-- The digits behind the point; a single zero for a whole number. -/
def fractionOrZero (x : Binary64) : List Char :=
  match fractionDigits unitPlaces (x.units % 2 ^ unitPlaces) with
  | [] => ['0']
  | digits => digits

/-- A finite number without its sign, written out in full. -/
def expansion (x : Binary64) : Numeral :=
  ⟨Decimal.digitChars (x.units / 2 ^ unitPlaces), some x.fractionOrZero, none⟩

theorem isDigit_fractionOrZero {x : Binary64} {c : Char} (hc : c ∈ x.fractionOrZero) :
    c.isDigit := by
  unfold fractionOrZero at hc
  split at hc
  next =>
    rw [List.mem_singleton.1 hc]
    decide
  next => exact isDigit_fractionDigits (Nat.mod_lt _ (Nat.pow_pos (by decide))) hc

theorem plain_expansion (x : Binary64) : x.expansion.Plain where
  whole_ne_nil := Nat.toDigits_ne_nil
  isDigit_whole := fun _ => Numeral.isDigit_digitChars
  isDigit_fraction := by
    intro digits hdigits c hc
    cases hdigits
    exact isDigit_fractionOrZero hc
  exponent_eq_none := rfl

theorem ofDigitChars_fractionOrZero (x : Binary64) :
    Decimal.ofDigitChars x.fractionOrZero * 2 ^ unitPlaces =
      x.units % 2 ^ unitPlaces * 10 ^ x.fractionOrZero.length := by
  have hdigits := ofDigitChars_fractionDigits
    (Nat.mod_lt x.units (Nat.pow_pos (by decide) : 0 < 2 ^ unitPlaces))
  unfold fractionOrZero
  split
  next hnil =>
    -- no digits means no rest
    have hnone : Decimal.ofDigitChars [] = 0 := rfl
    rw [hnil, hnone, Nat.zero_mul, List.length_nil, Nat.pow_zero, Nat.mul_one] at hdigits
    have hzero : Decimal.ofDigitChars ['0'] = 0 := rfl
    rw [← hdigits, hzero, Nat.zero_mul, Nat.zero_mul]
  next => exact hdigits

theorem decimal_expansion (x : Binary64) : x.expansion.decimal =
    ⟨10 ^ x.fractionOrZero.length * (x.units / 2 ^ unitPlaces) +
      Decimal.ofDigitChars x.fractionOrZero, -(x.fractionOrZero.length : Int)⟩ := by
  have hvalue : Decimal.ofDigitChars
      (Decimal.digitChars (x.units / 2 ^ unitPlaces) ++ x.fractionOrZero) =
        10 ^ x.fractionOrZero.length * (x.units / 2 ^ unitPlaces) +
          Decimal.ofDigitChars x.fractionOrZero := by
    have hwhole := Decimal.ofDigitChars_digitChars (x.units / 2 ^ unitPlaces)
    unfold Decimal.ofDigitChars at hwhole ⊢
    rw [Nat.ofDigitChars_append, hwhole, Nat.ofDigitChars_eq_ofDigitChars_zero]
  rw [← hvalue]
  simp [Numeral.decimal, expansion]

/-- The digits of the expansion, moved by its places, are the units of the number. -/
theorem digits_expansion (x : Binary64) :
    x.expansion.decimal.digits * 2 ^ unitPlaces = x.units * 10 ^ x.fractionOrZero.length := by
  have hfraction := x.ofDigitChars_fractionOrZero
  have hsplit : 2 ^ unitPlaces * (x.units / 2 ^ unitPlaces) + x.units % 2 ^ unitPlaces = x.units :=
    Nat.div_add_mod _ _
  have hunits : x.units * 10 ^ x.fractionOrZero.length =
      (2 ^ unitPlaces * (x.units / 2 ^ unitPlaces) + x.units % 2 ^ unitPlaces) *
        10 ^ x.fractionOrZero.length := by
    rw [hsplit]
  rw [decimal_expansion, hunits]
  -- from here on the power of two must not be computed
  generalize x.units / 2 ^ unitPlaces = whole
  generalize x.units % 2 ^ unitPlaces = rest at hfraction ⊢
  calc
    (10 ^ x.fractionOrZero.length * whole + Decimal.ofDigitChars x.fractionOrZero) *
        2 ^ unitPlaces =
        10 ^ x.fractionOrZero.length * (2 ^ unitPlaces * whole) +
          Decimal.ofDigitChars x.fractionOrZero * 2 ^ unitPlaces := by
      rw [Nat.add_mul, Nat.mul_assoc, Nat.mul_comm whole]
    _ = (2 ^ unitPlaces * whole + rest) * 10 ^ x.fractionOrZero.length := by
      rw [hfraction, Nat.mul_comm (10 ^ x.fractionOrZero.length), ← Nat.add_mul]

/-- The expansion of a finite number is read as the number, without its sign. -/
theorem ofDecimal_expansion {x : Binary64} (hfinite : x.isFinite) :
    ofDecimal x.expansion.decimal = ⟨false, x.magnitude, x.magnitude_lt⟩ := by
  have hdigits := x.digits_expansion
  have hexponent : x.expansion.decimal.exponent = -(x.fractionOrZero.length : Int) := by
    rw [decimal_expansion]
  have hread := ofDecimal_of_units (of_decide_eq_true hfinite) hdigits
  rw [← hexponent] at hread
  exact hread

end Binary64

end ResourceQuery
