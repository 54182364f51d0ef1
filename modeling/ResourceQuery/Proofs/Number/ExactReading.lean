import Mathlib.Algebra.Group.Nat.Defs
import ResourceQuery.Number.Rounding

/-!
# Reading exact decimals

A finite float is read from every decimal of exactly its value: at the place where its last bit
stands nothing is left to be rounded. All sizes are taken in units of the least positive number,
where they are natural numbers.
-/

namespace ResourceQuery.Binary64

/-! ## Units -/

/--
The units of a number are its bits, moved up by as many places as the rounding of a value of that
size leaves out.
-/
theorem exists_units_eq (x : Binary64) :
    ∃ bits, x.units = bits * 2 ^ (x.units.log2 - 52) ∧
      x.magnitude = (x.units.log2 - 52) * fractions + bits := by
  have hsplit : fractions * (x.magnitude / fractions) + x.magnitude % fractions = x.magnitude :=
    Nat.div_add_mod _ _
  have hfraction : x.magnitude % fractions < 2 ^ 52 := Nat.mod_lt _ (by decide)
  have hunits : x.units = if x.magnitude / fractions = 0 then x.magnitude % fractions
      else (fractions + x.magnitude % fractions) <<< (x.magnitude / fractions - 1) := rfl
  generalize x.magnitude / fractions = exponent at hsplit hunits
  generalize x.magnitude % fractions = fraction at hsplit hunits hfraction
  by_cases hexponent : exponent = 0
  · rw [if_pos hexponent] at hunits
    -- below the first exponent every unit counts
    have hshift : x.units.log2 - 52 = 0 := by
      by_cases hzero : x.units = 0
      · rw [hzero]
        rfl
      · have hlog : x.units.log2 < 52 := (Nat.log2_lt hzero).2 (hunits ▸ hfraction)
        omega
    refine ⟨fraction, ?_, ?_⟩
    · rw [hshift, hunits, Nat.pow_zero, Nat.mul_one]
    · rw [hshift, ← hsplit, hexponent]
      omega
  · rw [if_neg hexponent, Nat.shiftLeft_eq] at hunits
    -- above it the leading bit is implied, so that there are fifty-three bits
    have hpos : 0 < 2 ^ (exponent - 1) := Nat.pow_pos (by decide)
    have hbits : 2 ^ 52 ≤ fractions + fraction ∧ fractions + fraction < 2 ^ 53 := by
      unfold fractions
      omega
    have hlog : x.units.log2 = 52 + (exponent - 1) := by
      have hne : x.units ≠ 0 := by
        rw [hunits]
        exact Nat.mul_ne_zero (by omega) (by omega)
      rw [Nat.log2_eq_iff hne, hunits, Nat.pow_add,
        show 52 + (exponent - 1) + 1 = 53 + (exponent - 1) by omega, Nat.pow_add]
      exact ⟨Nat.mul_le_mul_right _ hbits.1, Nat.mul_lt_mul_of_pos_right hbits.2 hpos⟩
    have hshift : x.units.log2 - 52 = exponent - 1 := by omega
    refine ⟨fractions + fraction, ?_, ?_⟩
    · rw [hshift, hunits]
    · obtain ⟨e, rfl⟩ := Nat.exists_eq_succ_of_ne_zero hexponent
      rw [hshift, ← hsplit, Nat.succ_sub_one, Nat.mul_succ, Nat.mul_comm]
      omega

/-- Only a number of magnitude zero has no units. -/
theorem units_eq_zero {x : Binary64} : x.units = 0 ↔ x.magnitude = 0 := by
  obtain ⟨bits, hunits, hmagnitude⟩ := x.exists_units_eq
  constructor
  · intro hzero
    have hbits : bits = 0 := by
      rw [hzero] at hunits
      rcases Nat.mul_eq_zero.1 hunits.symm with hbits | hpow
      · exact hbits
      · exact absurd hpow (Nat.ne_of_gt (Nat.pow_pos (by decide)))
    rw [hmagnitude, hzero, hbits]
    rfl
  · intro hzero
    rw [hunits, show bits = 0 by omega, Nat.zero_mul]

/-! ## Rounding -/

theorem roundHalfEven_mul {den : Nat} (n : Nat) (hden : 0 < den) :
    roundHalfEven (n * den) den = n := by
  unfold roundHalfEven
  dsimp only
  rw [Nat.mul_mod_left, Nat.mul_div_cancel n hden, if_neg]
  omega

/-- A quotient that is the value of a finite number is read as that number. -/
theorem nearest_of_units {x : Binary64} (hfinite : x.magnitude < infinity) {num den : Nat}
    (hden : 0 < den) (h : num * 2 ^ unitPlaces = x.units * den) :
    nearest num den = x.magnitude := by
  obtain ⟨bits, hunits, hmagnitude⟩ := x.exists_units_eq
  have hpos : 0 < den * 2 ^ (x.units.log2 - 52) := Nat.mul_pos hden (Nat.pow_pos (by decide))
  have hscaled : x.units * den = bits * (den * 2 ^ (x.units.log2 - 52)) := by
    calc
      x.units * den = bits * 2 ^ (x.units.log2 - 52) * den := by rw [← hunits]
      _ = bits * (den * 2 ^ (x.units.log2 - 52)) := by rw [Nat.mul_assoc, Nat.mul_comm den]
  -- the places that rounding leaves out are those by which the bits stand higher
  unfold nearest
  dsimp only
  rw [Nat.shiftLeft_eq num, h, Nat.mul_div_cancel _ hden, Nat.shiftLeft_eq, hscaled,
    roundHalfEven_mul bits hpos, ← hmagnitude]
  exact Nat.min_eq_left (Nat.le_of_lt hfinite)

/-! ## Decimals -/

/-- A decimal of a positive value that is a number of units is never taken for too small. -/
theorem lt_log2_of_units {units digits places : Nat} (hunits : units ≠ 0)
    (h : digits * 2 ^ unitPlaces = units * 10 ^ places) :
    3 * places < digits.log2 + unitPlaces + 2 := by
  have hplaces : 2 ^ (3 * places) ≤ units * 10 ^ places := by
    calc
      2 ^ (3 * places) = 8 ^ places := Nat.pow_mul 2 3 places
      _ ≤ 10 ^ places := Nat.pow_le_pow_left (by decide) places
      _ ≤ units * 10 ^ places := Nat.le_mul_of_pos_left _ (Nat.pos_of_ne_zero hunits)
  have hdigits : digits * 2 ^ unitPlaces < 2 ^ (digits.log2 + 1 + unitPlaces) := by
    rw [Nat.pow_add 2 (digits.log2 + 1)]
    exact Nat.mul_lt_mul_of_pos_right Nat.lt_log2_self (Nat.pow_pos (by decide))
  have hlt : 2 ^ (3 * places) < 2 ^ (digits.log2 + 1 + unitPlaces) := by
    rw [h] at hdigits
    exact Nat.lt_of_le_of_lt hplaces hdigits
  have hexponents := (Nat.pow_lt_pow_iff_right (by decide)).1 hlt
  omega

/-- A decimal that is the value of a finite number is read as that number, without its sign. -/
theorem ofDecimal_of_units {x : Binary64} (hfinite : x.magnitude < infinity) {digits places : Nat}
    (h : digits * 2 ^ unitPlaces = x.units * 10 ^ places) :
    ofDecimal ⟨digits, -(places : Int)⟩ = ⟨false, x.magnitude, x.magnitude_lt⟩ := by
  have hten : 0 < 10 ^ places := Nat.pow_pos (by decide)
  have hnearest : nearest digits (10 ^ places) = x.magnitude := nearest_of_units hfinite hten h
  unfold ofDecimal
  dsimp only
  by_cases hdigits : digits = 0
  · rw [if_pos hdigits]
    -- zero is read as zero, whatever its places
    have hzero : x.magnitude = 0 := by
      rw [hdigits, Nat.zero_mul] at h
      rw [← units_eq_zero]
      exact (Nat.mul_eq_zero.1 h.symm).resolve_right (by omega)
    simp only [hzero]
    rfl
  · rw [if_neg hdigits]
    have hunits : x.units ≠ 0 := by
      intro hzero
      rw [hzero, Nat.zero_mul] at h
      exact hdigits ((Nat.mul_eq_zero.1 h).resolve_right (Nat.ne_of_gt (Nat.pow_pos (by decide))))
    cases places with
    | zero =>
      show ofQuotient false (digits * 1) 1 = _
      simp only [ofQuotient, Nat.mul_one]
      simp only [Nat.pow_zero] at hnearest
      simp only [hnearest]
    | succ e =>
      have hguard := lt_log2_of_units hunits h
      show (if digits.log2 + unitPlaces + 2 ≤ 3 * (e + 1) then ofQuotient false 0 1
        else ofQuotient false digits (10 ^ (e + 1))) = _
      rw [if_neg (by omega)]
      simp only [ofQuotient, hnearest]

end ResourceQuery.Binary64
