import ResourceQuery.Proofs.Number.ExactReading
import ResourceQuery.Proofs.Number.Standard
import ResourceQuery.Query.Document

/-!
# Written floats

The text of a finite float in a document is a standard numeral with a fraction or an exponent, and
it is read as the same number, so that nothing is lost by writing the fewest digits. The digits
are found by reading them back, and how they are laid out does not change what they denote.
-/

namespace ResourceQuery

namespace Binary64

/-! ## Scaled quotients -/

theorem roundHalfEven_mul_right (num den : Nat) {k : Nat} (hk : 0 < k) :
    roundHalfEven (num * k) (den * k) = roundHalfEven num den := by
  have hless : den * k < 2 * (num % den * k) ↔ den < 2 * (num % den) := by
    rw [← Nat.mul_assoc]
    exact Nat.mul_lt_mul_right hk
  have heq : 2 * (num % den * k) = den * k ↔ 2 * (num % den) = den := by
    rw [← Nat.mul_assoc]
    exact Nat.mul_left_inj (Nat.ne_of_gt hk)
  unfold roundHalfEven
  dsimp only
  rw [Nat.mul_div_mul_right num den hk, Nat.mul_mod_mul_right]
  simp only [hless, heq]

/-- The same quotient in other terms is rounded alike. -/
theorem nearest_mul_right (num den : Nat) {k : Nat} (hk : 0 < k) :
    nearest (num * k) (den * k) = nearest num den := by
  have hscaled : (num * k) <<< unitPlaces = num <<< unitPlaces * k := by
    rw [Nat.shiftLeft_eq, Nat.shiftLeft_eq, Nat.mul_right_comm]
  have hdivisor : ∀ shift, (den * k) <<< shift = den <<< shift * k := by
    intro shift
    rw [Nat.shiftLeft_eq, Nat.shiftLeft_eq, Nat.mul_right_comm]
  unfold nearest
  dsimp only
  rw [hscaled, Nat.mul_div_mul_right _ _ hk, hdivisor, roundHalfEven_mul_right _ _ hk]

/-- A decimal written out in full denotes the same number. -/
theorem ofDecimal_positional {d : Decimal} (hdigits : d.digits ≠ 0) (hsmall : d.exponent < 309) :
    ofDecimal (Numeral.positional (Decimal.digitChars d.digits) d.exponent).decimal =
      ofDecimal d := by
  obtain ⟨digits, exponent⟩ := d
  cases exponent with
  | negSucc e =>
    rw [Numeral.decimal_positional_negSucc, Decimal.ofDigitChars_digitChars]
  | ofNat e =>
    have he : ¬309 ≤ e := by
      have hsmall : (e : Int) < 309 := hsmall
      omega
    have hscaled : digits * 10 ^ (e + 1) ≠ 0 :=
      Nat.mul_ne_zero hdigits (Nat.ne_of_gt (Nat.pow_pos (by decide)))
    have hvalue : ofDecimal ⟨digits * 10 ^ (e + 1), .negSucc 0⟩ =
        ofQuotient false (digits * 10 ^ (e + 1)) 10 := by
      unfold ofDecimal
      rw [if_neg hscaled]
      show (if (digits * 10 ^ (e + 1)).log2 + unitPlaces + 2 ≤ 3 then _ else _) = _
      rw [if_neg (by unfold unitPlaces; omega)]
    have hplain : ofDecimal ⟨digits, .ofNat e⟩ = ofQuotient false (digits * 10 ^ e) 1 := by
      unfold ofDecimal
      rw [if_neg hdigits]
      show (if 309 ≤ e then _ else _) = _
      rw [if_neg he]
      rfl
    have hnearest := nearest_mul_right (digits * 10 ^ e) 1 (show 0 < 10 by decide)
    rw [Numeral.decimal_positional_ofNat, Decimal.ofDigitChars_digitChars, hvalue, hplain]
    unfold ofQuotient
    simp only [← hnearest, Nat.pow_succ, Nat.mul_assoc, Nat.one_mul]

/-! ## The digits that are found -/

theorem negative_ofDecimal (d : Decimal) : (ofDecimal d).negative = false := by
  unfold ofDecimal
  split
  next => rfl
  next =>
    split
    next =>
      split
      next => rfl
      next => rfl
    next =>
      split
      next => rfl
      next => rfl

/-- A decimal that reads back denotes the number without its sign. -/
theorem ofDecimal_of_readsBack {x : Binary64} {d : Decimal} (h : readsBack x d) :
    ofDecimal d = ⟨false, x.magnitude, x.magnitude_lt⟩ := by
  have hnegative := negative_ofDecimal d
  have hmagnitude : (ofDecimal d).magnitude = x.magnitude := of_decide_eq_true h
  generalize ofDecimal d = y at hnegative hmagnitude
  obtain ⟨negative, magnitude, hlt⟩ := y
  subst hnegative hmagnitude
  rfl

theorem digits_ne_zero_of_readsBack {x : Binary64} {d : Decimal} (h : readsBack x d)
    (hzero : x.isZero = false) : d.digits ≠ 0 := by
  intro hdigits
  have hmagnitude : (ofDecimal d).magnitude = x.magnitude := of_decide_eq_true h
  have hnearest : nearest 0 1 = 0 := rfl
  unfold ofDecimal at hmagnitude
  rw [if_pos hdigits] at hmagnitude
  have hx : x.magnitude = 0 := by
    rw [← hmagnitude]
    exact hnearest
  exact absurd hx (of_decide_eq_false hzero)

theorem exactDigits_eq (x : Binary64) : exactDigits x = x.units * 5 ^ unitPlaces := by
  rw [exactDigits, Nat.pow_eq]

/-- The exact digits of a finite number read back. -/
theorem readsBack_exactDigits {x : Binary64} (hfinite : x.isFinite) :
    readsBack x (gridPoint (exactDigits x) 0) := by
  have hexact : exactDigits x * 2 ^ unitPlaces = x.units * 10 ^ unitPlaces := by
    rw [exactDigits_eq, Nat.mul_assoc, ← Nat.mul_pow]
  have hplace : gridPoint (exactDigits x) 0 = ⟨exactDigits x, -(unitPlaces : Int)⟩ := by
    unfold gridPoint
    rw [Int.natCast_zero, Int.zero_sub]
  have hread := ofDecimal_of_units (of_decide_eq_true hfinite) hexact
  rw [readsBack, hplace, hread]
  exact decide_eq_true rfl

/-- A point of a grid that the search for the shortest digits may find. -/
def Found (x : Binary64) (places : Nat) (d : Decimal) : Prop :=
  readsBack x d ∧ ∃ digits place, d = gridPoint digits place ∧ place ≤ places ∧
    digits ≤ exactDigits x + 1

theorem found_of_onGrid? {tie : Tie} {x : Binary64} {place : Nat} {d : Decimal}
    (h : onGrid? tie x place = some d) : Found x place d := by
  have hbelow : exactDigits x / Nat.pow 10 place ≤ exactDigits x := Nat.div_le_self _ _
  have hread : readsBack x d := List.find?_some h
  refine ⟨hread, ?_⟩
  have hneighbour : d = gridPoint (exactDigits x / Nat.pow 10 place) place ∨
      d = gridPoint (exactDigits x / Nat.pow 10 place + 1) place := by
    have hmem := List.mem_of_find?_eq_some h
    split at hmem
    next => simpa using hmem
    next => simpa [or_comm] using hmem
  rcases hneighbour with rfl | rfl
  · exact ⟨_, place, rfl, Nat.le_refl _, Nat.le_succ_of_le hbelow⟩
  · exact ⟨_, place, rfl, Nat.le_refl _, Nat.succ_le_succ hbelow⟩

theorem found_coarsest (tie : Tie) {x : Binary64} (hfinite : x.isFinite) (places : Nat) :
    Found x places (coarsest tie x places) := by
  induction places with
  | zero =>
    exact ⟨readsBack_exactDigits hfinite, _, 0, rfl, Nat.le_refl 0, Nat.le_succ _⟩
  | succ place ih =>
    unfold coarsest
    cases hgrid : onGrid? tie x (place + 1) with
    | some d => exact found_of_onGrid? hgrid
    | none =>
      obtain ⟨hread, digits, finer, hpoint, hfiner, hdigits⟩ := ih
      exact ⟨hread, digits, finer, hpoint, Nat.le_succ_of_le hfiner, hdigits⟩

/-- The exact digits of a finite number are as many as those of the greatest at most. -/
theorem exactDigits_lt {x : Binary64} (hfinite : x.isFinite) :
    exactDigits x < 10 ^ (unitPlaces + 1025) := by
  have hlog : x.units.log2 < unitPlaces + 1025 := by
    obtain ⟨bits, -, hmagnitude⟩ := x.exists_units_eq
    have hlt : x.magnitude < infinity := of_decide_eq_true hfinite
    unfold fractions at hmagnitude
    unfold infinity at hlt
    unfold unitPlaces
    omega
  have hunits : x.units < 2 ^ (unitPlaces + 1025) :=
    Nat.lt_of_lt_of_le Nat.lt_log2_self (Nat.pow_le_pow_right (by decide) hlog)
  have hfives : 5 ^ unitPlaces ≤ 5 ^ (unitPlaces + 1025) :=
    Nat.pow_le_pow_right (by decide) (Nat.le_add_right _ _)
  calc
    exactDigits x = x.units * 5 ^ unitPlaces := x.exactDigits_eq
    _ ≤ x.units * 5 ^ (unitPlaces + 1025) := Nat.mul_le_mul_left _ hfives
    _ < 2 ^ (unitPlaces + 1025) * 5 ^ (unitPlaces + 1025) :=
      Nat.mul_lt_mul_of_pos_right hunits (Nat.pow_pos (by decide))
    _ = 10 ^ (unitPlaces + 1025) := by rw [← Nat.mul_pow]

/-- The first digit of what is found is far from the bound on exponents. -/
theorem natAbs_leading_lt {x : Binary64} (hfinite : x.isFinite) {d : Decimal}
    (h : Found x (Decimal.digitChars (exactDigits x)).length d) :
    (d.exponent + ((Decimal.digitChars d.digits).length - 1 : Nat)).natAbs <
      Numeral.exponentCap := by
  obtain ⟨-, digits, place, rfl, hplace, hdigits⟩ := h
  have hexact := exactDigits_lt hfinite
  have hplaces : (Decimal.digitChars (exactDigits x)).length ≤ unitPlaces + 1025 :=
    (Nat.length_toDigits_le_iff (by decide) (by decide)).2 hexact
  have hlength : (Decimal.digitChars digits).length ≤ unitPlaces + 1025 + 1 := by
    refine (Nat.length_toDigits_le_iff (by decide) (by decide)).2 ?_
    calc
      digits ≤ exactDigits x + 1 := hdigits
      _ ≤ 10 ^ (unitPlaces + 1025) := hexact
      _ < 10 ^ (unitPlaces + 1025 + 1) := Nat.pow_lt_pow_right (by decide) (Nat.lt_succ_self _)
  simp only [gridPoint, Numeral.exponentCap]
  unfold unitPlaces at hplaces hlength ⊢
  omega

end Binary64

/-! ## Floats in documents -/

namespace Json

open Binary64 (shortest)

/-- The numeral of a decimal in a document. -/
def decimalNumeral (d : Decimal) : Numeral :=
  let digits := Decimal.digitChars d.digits
  let leading := d.exponent + (digits.length - 1 : Nat)
  if floatLayout.positional leading then .positional digits d.exponent
  else .scientific digits leading

theorem chars_decimalNumeral (d : Decimal) :
    (decimalNumeral d).chars = floatLayout.writeDecimal d := by
  simp only [decimalNumeral, Binary64.Layout.writeDecimal]
  split
  next => exact Numeral.chars_positional _ _
  next => exact Numeral.chars_scientific _ _

/-- In either layout the numeral of a decimal denotes it. -/
theorem ofDecimal_decimalNumeral {d : Decimal} (hdigits : d.digits ≠ 0)
    (hleading : (d.exponent + ((Decimal.digitChars d.digits).length - 1 : Nat)).natAbs <
      Numeral.exponentCap) :
    Binary64.ofDecimal (decimalNumeral d).decimal = Binary64.ofDecimal d := by
  unfold decimalNumeral
  dsimp only
  split
  next hpositional =>
    refine Binary64.ofDecimal_positional hdigits ?_
    have hbound : -5 ≤ d.exponent + ((Decimal.digitChars d.digits).length - 1 : Nat) ∧
        d.exponent + ((Decimal.digitChars d.digits).length - 1 : Nat) ≤ 15 := by
      simpa [floatLayout] using hpositional
    omega
  next =>
    rw [Numeral.decimal_scientific hleading, Decimal.ofDigitChars_digitChars, Int.add_sub_cancel]

/-- The numeral of a finite number in a document, without its sign. -/
def floatNumeral (x : Binary64) : Numeral :=
  if x.isZero then ⟨['0'], some ['0'], none⟩ else decimalNumeral (shortest .even x)

/-- A finite number is written as its numeral, behind a minus if it is negative. -/
theorem write_eq_floatNumeral (x : Binary64) :
    floatLayout.write x =
      if x.negative then '-' :: (floatNumeral x).chars else (floatNumeral x).chars := by
  have hsize : (if x.isZero then ['0', '.', '0'] else floatLayout.writeDecimal (shortest .even x))
      = (floatNumeral x).chars := by
    unfold floatNumeral
    split
    next => rfl
    next => exact (chars_decimalNumeral _).symm
  rw [← hsize]
  rfl

theorem natural?_floatNumeral (x : Binary64) : (floatNumeral x).natural? = none := by
  unfold floatNumeral decimalNumeral
  dsimp only
  split
  next => rfl
  next =>
    split
    next => exact Numeral.natural?_positional _ _
    next => exact Numeral.natural?_scientific _ _

theorem standard_floatNumeral {x : Binary64} (hfinite : x.isFinite) :
    (floatNumeral x).Standard := by
  unfold floatNumeral
  split
  next =>
    have hzero : Numeral.Digits ['0'] :=
      ⟨List.cons_ne_nil _ _, List.forall_mem_singleton.2 (by decide)⟩
    refine ⟨⟨hzero, ?_, ?_⟩, .inl rfl, by decide⟩
    · rintro _ ⟨⟩
      exact hzero.2
    · rintro _ ⟨⟩
  next hzero =>
    have hread := (Binary64.found_coarsest .even hfinite
      (Decimal.digitChars (Binary64.exactDigits x)).length).1
    have hdigits := Binary64.digits_ne_zero_of_readsBack hread (Bool.eq_false_iff.2 hzero)
    have hleading := Numeral.leading_digitChars hdigits
    unfold decimalNumeral
    dsimp only
    split
    next => exact Numeral.standard_positional hleading _
    next => exact Numeral.standard_scientific hleading _

/-- What a finite number is written as is read as the number, without its sign. -/
theorem ofDecimal_floatNumeral {x : Binary64} (hfinite : x.isFinite) :
    Binary64.ofDecimal (floatNumeral x).decimal = ⟨false, x.magnitude, x.magnitude_lt⟩ := by
  unfold floatNumeral
  split
  next hzero =>
    have hmagnitude : x.magnitude = 0 := of_decide_eq_true hzero
    simp only [hmagnitude]
    rfl
  next hzero =>
    have hfound := Binary64.found_coarsest .even hfinite
      (Decimal.digitChars (Binary64.exactDigits x)).length
    have hdigits := Binary64.digits_ne_zero_of_readsBack hfound.1 (Bool.eq_false_iff.2 hzero)
    have hleading := Binary64.natAbs_leading_lt hfinite hfound
    rw [← Binary64.ofDecimal_of_readsBack hfound.1]
    exact ofDecimal_decimalNumeral hdigits hleading

end Json

end ResourceQuery
