import Mathlib.Algebra.Group.Nat.Defs
import Mathlib.Data.List.Induction
import ResourceQuery.Number.Layout
import ResourceQuery.Proofs.Number.Shape

/-!
# Standard numerals

A numeral as documents write it has digits before the point, no needless zero in front of them,
and digits behind the point. It is read back from its text. The digits of a number make such a
numeral in two ways, positional and scientific, and neither changes what they denote.
-/

namespace ResourceQuery

theorem toList_toString_nat (n : Nat) : (toString n).toList = Decimal.digitChars n := by
  simp [Decimal.digitChars]

namespace Numeral

/-! ## Numerals that are read back -/

/-- An exponent of one or more digits behind its letter and perhaps a sign. -/
structure Exponent.Regular (exponent : Exponent) : Prop where
  letter_eq : exponent.letter = 'e' ∨ exponent.letter = 'E'
  sign_eq : ∀ sign ∈ exponent.sign, sign = '+' ∨ sign = '-'
  digits : Digits exponent.digits

/-- A numeral with digits before the point. -/
structure Regular (numeral : Numeral) : Prop where
  whole : Digits numeral.whole
  isDigit_fraction : ∀ digits ∈ numeral.fraction, ∀ c ∈ digits, c.isDigit
  exponent : ∀ exponent ∈ numeral.exponent, exponent.Regular

theorem Exponent.Regular.ofChars?_chars {exponent : Exponent} (h : exponent.Regular) :
    Exponent.ofChars? exponent.chars = some exponent := by
  obtain ⟨letter, sign, digits⟩ := exponent
  obtain ⟨hletter, hsign, hdigits⟩ := h
  dsimp only at hletter hsign hdigits
  have hread : ∀ sign, ofSigned? letter sign digits = some ⟨letter, sign, digits⟩ :=
    fun sign => if_pos ⟨hdigits.1, List.all_eq_true.2 hdigits.2⟩
  cases sign with
  | some sign =>
    rcases hsign sign rfl with rfl | rfl
    · simp [chars, ofChars?, hletter, hread]
    · simp [chars, ofChars?, hletter, hread]
  | none =>
    have hplus : ∀ rest, digits ≠ '+' :: rest := by
      rintro rest rfl
      exact absurd (hdigits.2 '+' List.mem_cons_self) (by decide)
    have hminus : ∀ rest, digits ≠ '-' :: rest := by
      rintro rest rfl
      exact absurd (hdigits.2 '-' List.mem_cons_self) (by decide)
    show ofChars? (letter :: digits) = _
    unfold ofChars?
    dsimp only
    rw [if_pos hletter]
    -- the first digit is no sign
    split
    next rest => exact absurd rfl (hplus rest)
    next rest => exact absurd rfl (hminus rest)
    next => exact hread none

theorem Exponent.Regular.scale {exponent : Exponent} (h : exponent.Regular) :
    Scale exponent.chars := by
  have hsign : exponent.sign.toList = [] ∨ exponent.sign.toList = ['+'] ∨
      exponent.sign.toList = ['-'] := by
    cases hsign : exponent.sign with
    | none => exact .inl rfl
    | some sign =>
      rcases h.sign_eq sign hsign with rfl | rfl
      · exact .inr (.inl rfl)
      · exact .inr (.inr rfl)
  exact .intro h.letter_eq hsign h.digits

/-- What follows the digits and the point is the exponent, if there is one. -/
theorem Regular.withExponent?_eq {numeral : Numeral} (h : numeral.Regular) :
    withExponent? numeral.whole numeral.fraction
      ((numeral.exponent.map Exponent.chars).getD []) = some numeral := by
  obtain ⟨whole, fraction, exponent⟩ := numeral
  cases exponent with
  | none => rfl
  | some exponent =>
    have hread := (h.exponent exponent rfl).ofChars?_chars
    show (Exponent.ofChars? exponent.chars).map _ = _
    rw [hread, Option.map_some]

theorem Regular.mayFollow {numeral : Numeral} (h : numeral.Regular) :
    MayFollow ((numeral.exponent.map Exponent.chars).getD []) := by
  cases hexponent : numeral.exponent with
  | none => exact .inl rfl
  | some exponent => exact .inr (h.exponent exponent hexponent).scale

/-- A regular numeral is read back from its text. -/
theorem Regular.ofChars?_chars {numeral : Numeral} (h : numeral.Regular) :
    ofChars? numeral.chars = some numeral := by
  have hwith := h.withExponent?_eq
  unfold chars
  rw [List.append_assoc]
  cases hfraction : numeral.fraction with
  | none =>
    rw [hfraction] at hwith
    rw [fractionChars, List.nil_append, ofChars?_of_whole h.whole h.mayFollow, hwith]
  | some digits =>
    rw [hfraction] at hwith
    have hdigits := h.isDigit_fraction digits hfraction
    rw [fractionChars, List.cons_append,
      ofChars?_of_point h.whole.2 hdigits (fun hnil => h.whole.1 hnil.1) h.mayFollow, hwith]

/-- A numeral without a needless zero in front, and with digits behind a point. -/
structure Standard (numeral : Numeral) : Prop extends numeral.Regular where
  no_zero_first : numeral.whole = ['0'] ∨ numeral.whole.head? ≠ some '0'
  fraction_ne_nil : numeral.fraction ≠ some []

/-! ## Digits -/

theorem isDigit_digitChars {n : Nat} {c : Char} (h : c ∈ Decimal.digitChars n) : c.isDigit :=
  Nat.isDigit_of_mem_toDigits (by decide) (by decide) h

theorem digits_digitChars (n : Nat) : Digits (Decimal.digitChars n) :=
  ⟨Nat.toDigits_ne_nil, fun _ => isDigit_digitChars⟩

/-- Only zero begins with a zero. -/
theorem head_digitChars {n : Nat} (h : n ≠ 0) : (Decimal.digitChars n).head? ≠ some '0' := by
  induction n using Nat.strong_induction_on with
  | _ n ih =>
    unfold Decimal.digitChars at ih ⊢
    rw [Nat.toDigits_eq_if (by decide)]
    by_cases hlt : n < 10
    · rw [if_pos hlt]
      simpa using h
    · have hhead := ih (n / 10) (by omega) (by omega)
      obtain ⟨first, rest, hdigits⟩ := List.exists_cons_of_ne_nil
        (Nat.toDigits_ne_nil : Nat.toDigits 10 (n / 10) ≠ [])
      rw [if_neg hlt, hdigits]
      rwa [hdigits] at hhead

/-- Zeros behind the digits count powers of ten. -/
theorem ofDigitChars_append_zeros (digits : List Char) (k : Nat) :
    Decimal.ofDigitChars (digits ++ List.replicate k '0') =
      Decimal.ofDigitChars digits * 10 ^ k := by
  induction k with
  | zero => simp
  | succ k ih =>
    have hlast : digits ++ List.replicate (k + 1) '0' =
        (digits ++ List.replicate k '0') ++ ['0'] := by
      rw [List.replicate_succ', List.append_assoc]
    have hvalue : Decimal.ofDigitChars ((digits ++ List.replicate k '0') ++ ['0']) =
        10 * Decimal.ofDigitChars (digits ++ List.replicate k '0') := by
      simp [Decimal.ofDigitChars, Nat.ofDigitChars_append, Nat.ofDigitChars_cons]
    rw [hlast, hvalue, ih, Nat.pow_succ, Nat.mul_comm 10, Nat.mul_assoc]

/-- Zeros in front of the digits count nothing. -/
theorem ofDigitChars_zeros_append (digits : List Char) (k : Nat) :
    Decimal.ofDigitChars (List.replicate k '0' ++ digits) = Decimal.ofDigitChars digits := by
  induction k with
  | zero => rfl
  | succ k ih =>
    rw [← ih, List.replicate_succ, List.cons_append]
    rfl

/-- Below the bound, the digits of an exponent denote it. -/
theorem Exponent.size_eq {exponent : Exponent} {n : Nat}
    (hdigits : exponent.digits = Decimal.digitChars n) (hlt : n < exponentCap) :
    exponent.size = n := by
  have hfold : ∀ digits : List Char, Decimal.ofDigitChars digits < exponentCap →
      digits.foldl (fun size digit =>
        if size < exponentCap then 10 * size + (digit.toNat - '0'.toNat) else size) 0 =
      Decimal.ofDigitChars digits := by
    intro digits
    -- what the digits but the last denote is smaller still
    induction digits using List.reverseRecOn with
    | nil => intro _; rfl
    | append_singleton digits digit ih =>
      intro hbound
      have hsplit : Decimal.ofDigitChars (digits ++ [digit]) =
          10 * Decimal.ofDigitChars digits + (digit.toNat - '0'.toNat) := by
        unfold Decimal.ofDigitChars
        rw [Nat.ofDigitChars_append, Nat.ofDigitChars_cons, Nat.ofDigitChars_nil]
      rw [hsplit] at hbound ⊢
      have hless : Decimal.ofDigitChars digits < exponentCap := by omega
      rw [List.foldl_append, ih hless, List.foldl_cons, List.foldl_nil, if_pos hless]
  have hvalue : Decimal.ofDigitChars exponent.digits = n := by
    rw [hdigits, Decimal.ofDigitChars_digitChars]
  unfold size
  rw [hfold _ (by rw [hvalue]; exact hlt), hvalue]

/-! ## The two layouts -/

/-- The numeral of the digits whose last one counts `10 ^ exponent`, written out in full. -/
def positional (digits : List Char) : Int → Numeral
  | .ofNat e => ⟨digits ++ List.replicate e '0', some ['0'], none⟩
  | .negSucc e =>
    let places := e + 1
    if places < digits.length then
      ⟨digits.take (digits.length - places), some (digits.drop (digits.length - places)), none⟩
    else ⟨['0'], some (List.replicate (places - digits.length) '0' ++ digits), none⟩

/-- The numeral of the digits whose first one counts `10 ^ exponent`, with an exponent. -/
def scientific (digits : List Char) (exponent : Int) : Numeral where
  whole := digits.take 1
  fraction := if digits.length ≤ 1 then none else some (digits.drop 1)
  exponent := some ⟨'e', some (if exponent < 0 then '-' else '+'),
    Decimal.digitChars exponent.natAbs⟩

theorem chars_positional (digits : List Char) (exponent : Int) :
    (positional digits exponent).chars =
      Binary64.writePositional ['.', '0'] digits exponent := by
  cases exponent with
  | ofNat e => simp [positional, chars, fractionChars, Binary64.writePositional]
  | negSucc e =>
    simp only [positional, Binary64.writePositional]
    split <;> simp [chars, fractionChars]

theorem chars_scientific (digits : List Char) (exponent : Int) :
    (scientific digits exponent).chars = Binary64.writeScientific digits exponent := by
  simp only [scientific, chars, Binary64.writeScientific]
  split <;> simp [fractionChars, Exponent.chars]

theorem natural?_positional (digits : List Char) (exponent : Int) :
    (positional digits exponent).natural? = none := by
  cases exponent with
  | ofNat e => rfl
  | negSucc e =>
    simp only [positional]
    split <;> rfl

theorem natural?_scientific (digits : List Char) (exponent : Int) :
    (scientific digits exponent).natural? = none := by
  unfold natural? scientific
  dsimp only
  split
  next hexponent => cases hexponent
  next => rfl

/-- Digits that do not begin with a zero. -/
structure Leading (cs : List Char) : Prop where
  digits : Digits cs
  head_ne : cs.head? ≠ some '0'

theorem leading_digitChars {n : Nat} (h : n ≠ 0) : Leading (Decimal.digitChars n) :=
  ⟨digits_digitChars n, head_digitChars h⟩

/-- The first digits of some are digits that begin alike. -/
theorem Leading.take {digits : List Char} (h : Leading digits) {k : Nat} (hk : 0 < k) :
    Leading (digits.take k) := by
  obtain ⟨first, rest, rfl⟩ := List.exists_cons_of_ne_nil h.digits.1
  obtain ⟨k, rfl⟩ := Nat.exists_eq_succ_of_ne_zero (Nat.ne_of_gt hk)
  refine ⟨⟨List.cons_ne_nil _ _, fun c hc => ?_⟩, h.head_ne⟩
  exact h.digits.2 c (List.mem_of_mem_take hc)

theorem standard_positional {digits : List Char} (h : Leading digits) (exponent : Int) :
    (positional digits exponent).Standard := by
  have hzeros : ∀ k, ∀ c ∈ List.replicate k '0', c.isDigit := by
    intro k c hc
    rw [List.eq_of_mem_replicate hc]
    decide
  have hone : Digits ['0'] := ⟨List.cons_ne_nil _ _, hzeros 1⟩
  -- there is no exponent, so that only the digits on both sides of the point count
  have hparts : ∀ whole fraction, Digits whole → (whole = ['0'] ∨ whole.head? ≠ some '0') →
      Digits fraction → Standard ⟨whole, some fraction, none⟩ := by
    intro whole fraction hwhole hfirst hfraction
    refine ⟨⟨hwhole, ?_, ?_⟩, hfirst, fun hnil => hfraction.1 (Option.some.inj hnil)⟩
    · rintro _ ⟨⟩
      exact hfraction.2
    · rintro _ ⟨⟩
  cases exponent with
  | ofNat e =>
    obtain ⟨first, rest, rfl⟩ := List.exists_cons_of_ne_nil h.digits.1
    refine hparts _ _ ⟨List.cons_ne_nil _ _, fun c hc => ?_⟩ (.inr h.head_ne) hone
    rcases List.mem_append.1 hc with hc | hc
    · exact h.digits.2 c hc
    · exact hzeros e c hc
  | negSucc e =>
    simp only [positional]
    split
    next hlt =>
      have htake := h.take (show 0 < digits.length - (e + 1) by omega)
      refine hparts _ _ htake.digits (.inr htake.head_ne) ⟨?_, fun c hc => ?_⟩
      · intro hnil
        have hlength := congrArg List.length hnil
        rw [List.length_drop, List.length_nil] at hlength
        omega
      · exact h.digits.2 c (List.mem_of_mem_drop hc)
    next =>
      refine hparts _ _ hone (.inl rfl) ⟨?_, fun c hc => ?_⟩
      · intro hnil
        exact h.digits.1 (List.append_eq_nil_iff.1 hnil).2
      · rcases List.mem_append.1 hc with hc | hc
        · exact hzeros _ c hc
        · exact h.digits.2 c hc

theorem standard_scientific {digits : List Char} (h : Leading digits) (exponent : Int) :
    (scientific digits exponent).Standard where
  whole := (h.take Nat.one_pos).digits
  isDigit_fraction := by
    intro fraction hfraction c hc
    simp only [scientific] at hfraction
    split at hfraction
    next => cases hfraction
    next =>
      cases hfraction
      exact h.digits.2 c (List.mem_of_mem_drop hc)
  exponent := by
    rintro _ ⟨⟩
    refine ⟨.inl rfl, ?_, digits_digitChars _⟩
    rintro _ ⟨⟩
    split
    next => exact .inr rfl
    next => exact .inl rfl
  no_zero_first := .inr (h.take Nat.one_pos).head_ne
  fraction_ne_nil := by
    simp only [scientific]
    split
    next => exact (Option.some_ne_none _).symm
    next hlong =>
      intro hnil
      have hlength := congrArg List.length (Option.some.inj hnil)
      rw [List.length_drop, List.length_nil] at hlength
      omega

/-! ## What the layouts denote -/

theorem decimal_positional_ofNat (digits : List Char) (e : Nat) :
    (positional digits (.ofNat e)).decimal =
      ⟨Decimal.ofDigitChars digits * 10 ^ (e + 1), .negSucc 0⟩ := by
  have hdigits : digits ++ List.replicate e '0' ++ ['0'] =
      digits ++ List.replicate (e + 1) '0' := by
    rw [List.append_assoc, List.replicate_succ']
  simp only [positional, decimal, Option.getD_some, Option.map_none, Option.getD_none, hdigits,
    ofDigitChars_append_zeros]
  rfl

theorem decimal_positional_negSucc (digits : List Char) (e : Nat) :
    (positional digits (.negSucc e)).decimal = ⟨Decimal.ofDigitChars digits, .negSucc e⟩ := by
  simp only [positional]
  split
  next hlt =>
    have hplaces : digits.length - (digits.length - (e + 1)) = e + 1 := by omega
    simp only [decimal, Option.getD_some, Option.map_none, Option.getD_none,
      List.take_append_drop, List.length_drop, hplaces]
    simp [Int.negSucc_eq]
  next hle =>
    have hplaces : e + 1 - digits.length + digits.length = e + 1 := by omega
    have hzeros := ofDigitChars_zeros_append digits (e + 1 - digits.length + 1)
    rw [List.replicate_succ, List.cons_append] at hzeros
    simp only [decimal, Option.getD_some, Option.map_none, Option.getD_none, List.length_append,
      List.length_replicate, hplaces, List.cons_append, List.nil_append, hzeros]
    simp [Int.negSucc_eq]

theorem decimal_scientific {digits : List Char} {exponent : Int}
    (hlt : exponent.natAbs < exponentCap) :
    (scientific digits exponent).decimal =
      ⟨Decimal.ofDigitChars digits, exponent - (digits.length - 1 : Nat)⟩ := by
  have hfraction : (scientific digits exponent).fraction.getD [] = digits.drop 1 := by
    simp only [scientific]
    split
    next hshort => exact (List.drop_eq_nil_of_le hshort).symm
    next => rfl
  have hvalue : ((scientific digits exponent).exponent.map Exponent.value).getD 0 = exponent := by
    have hsize : Exponent.size ⟨'e', some (if exponent < 0 then '-' else '+'),
        Decimal.digitChars exponent.natAbs⟩ = exponent.natAbs := Exponent.size_eq rfl hlt
    simp only [scientific, Option.map_some, Option.getD_some, Exponent.value, hsize]
    by_cases hnegative : exponent < 0
    · rw [if_pos hnegative, if_pos rfl]
      omega
    · rw [if_neg hnegative, if_neg (by decide)]
      omega
  have hwhole : (scientific digits exponent).whole = digits.take 1 := rfl
  unfold decimal
  dsimp only
  rw [hfraction, hvalue, hwhole, List.take_append_drop, List.length_drop]

end Numeral

end ResourceQuery
