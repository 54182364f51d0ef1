import Mathlib.Data.List.TakeWhile
import ResourceQuery.Number.Numeral

/-!
# The shape of numerals

Which texts are numerals, said without reading them: digits with an optional fraction, or a point
and digits, in both cases with an optional exponent. A text is taken apart exactly if it has this
shape.
-/

namespace ResourceQuery.Numeral

/-- One or more decimal digits. -/
def Digits (cs : List Char) : Prop :=
  cs ≠ [] ∧ ∀ c ∈ cs, c.isDigit

/-- What stands before the exponent of a numeral. -/
inductive Mantissa : List Char → Prop
  | whole {digits : List Char} (h : Digits digits) : Mantissa digits
  | point {digits fraction : List Char} (h : Digits digits)
      (hfraction : ∀ c ∈ fraction, c.isDigit) :
      Mantissa (digits ++ '.' :: fraction)
  | fraction {digits : List Char} (h : Digits digits) : Mantissa ('.' :: digits)

/-- An exponent: a letter, perhaps a sign, and digits. -/
inductive Scale : List Char → Prop
  | intro {letter : Char} {sign digits : List Char} (hletter : letter = 'e' ∨ letter = 'E')
      (hsign : sign = [] ∨ sign = ['+'] ∨ sign = ['-']) (hdigits : Digits digits) :
      Scale (letter :: (sign ++ digits))

/-- A text of the shape of a numeral. -/
inductive Shape : List Char → Prop
  | plain {cs : List Char} (h : Mantissa cs) : Shape cs
  | scaled {cs ds : List Char} (h : Mantissa cs) (hscale : Scale ds) : Shape (cs ++ ds)

/-! ## What is taken apart has the shape -/

theorem scale_of_ofSigned? {letter : Char} {sign : Option Char} {digits : List Char}
    {exponent : Exponent} (hletter : letter = 'e' ∨ letter = 'E')
    (hsign : sign.toList = [] ∨ sign.toList = ['+'] ∨ sign.toList = ['-'])
    (h : Exponent.ofSigned? letter sign digits = some exponent) :
    Scale (letter :: (sign.toList ++ digits)) := by
  unfold Exponent.ofSigned? at h
  split at h
  next hdigits => exact .intro hletter hsign ⟨hdigits.1, List.all_eq_true.1 hdigits.2⟩
  next => cases h

theorem scale_of_ofChars? {cs : List Char} {exponent : Exponent}
    (h : Exponent.ofChars? cs = some exponent) : Scale cs := by
  unfold Exponent.ofChars? at h
  split at h
  next => cases h
  next letter rest =>
    split at h
    next hletter =>
      split at h
      next => exact scale_of_ofSigned? hletter (.inr (.inl rfl)) h
      next => exact scale_of_ofSigned? hletter (.inr (.inr rfl)) h
      next => exact scale_of_ofSigned? hletter (.inl rfl) h
    next => cases h

theorem shape_of_withExponent? {whole rest : List Char} {fraction : Option (List Char)}
    {numeral : Numeral} (hmantissa : Mantissa (whole ++ fractionChars fraction))
    (h : withExponent? whole fraction rest = some numeral) :
    Shape (whole ++ fractionChars fraction ++ rest) := by
  unfold withExponent? at h
  split at h
  next =>
    rw [List.append_nil]
    exact .plain hmantissa
  next =>
    obtain ⟨exponent, hread, -⟩ := Option.map_eq_some_iff.1 h
    exact .scaled hmantissa (scale_of_ofChars? hread)

theorem isDigit_of_mem_takeWhile {cs : List Char} {c : Char}
    (h : c ∈ cs.takeWhile Char.isDigit) : c.isDigit :=
  List.all_eq_true.1 List.all_takeWhile c h

theorem shape_of_ofChars? {cs : List Char} {numeral : Numeral} (h : ofChars? cs = some numeral) :
    Shape cs := by
  have hcs : cs.takeWhile Char.isDigit ++ cs.dropWhile Char.isDigit = cs :=
    List.takeWhile_append_dropWhile
  have hdigits : ∀ ds : List Char, ds.takeWhile Char.isDigit ≠ [] →
      Digits (ds.takeWhile Char.isDigit) :=
    fun _ hne => ⟨hne, fun _ => isDigit_of_mem_takeWhile⟩
  unfold ofChars? at h
  dsimp only at h
  split at h
  next rest hrest =>
    split at h
    next => cases h
    next hne =>
      have hmantissa : Mantissa
          (cs.takeWhile Char.isDigit ++ fractionChars (some (rest.takeWhile Char.isDigit))) := by
        by_cases hwhole : cs.takeWhile Char.isDigit = []
        · rw [hwhole]
          exact .fraction (hdigits rest fun hnil => hne ⟨hwhole, hnil⟩)
        · exact .point (hdigits cs hwhole) fun _ => isDigit_of_mem_takeWhile
      have hshape := shape_of_withExponent? hmantissa h
      rwa [fractionChars, List.append_assoc, List.cons_append, List.takeWhile_append_dropWhile,
        ← hrest, hcs] at hshape
  next =>
    split at h
    next => cases h
    next hwhole =>
      have hmantissa : Mantissa (cs.takeWhile Char.isDigit ++ fractionChars none) := by
        rw [fractionChars, List.append_nil]
        exact .whole (hdigits cs hwhole)
      have hshape := shape_of_withExponent? hmantissa h
      rwa [fractionChars, List.append_nil, hcs] at hshape

/-! ## What has the shape is taken apart -/

/-- A text that no digit begins. -/
def NoDigit (rest : List Char) : Prop :=
  ∀ c ∈ rest.head?, c.isDigit = false

theorem takeWhile_digits {digits rest : List Char} (h : ∀ c ∈ digits, c.isDigit)
    (hrest : NoDigit rest) : (digits ++ rest).takeWhile Char.isDigit = digits := by
  rw [List.takeWhile_append_of_pos h]
  cases rest with
  | nil => simp
  | cons c rest => simp [hrest c rfl]

theorem dropWhile_digits {digits rest : List Char} (h : ∀ c ∈ digits, c.isDigit)
    (hrest : NoDigit rest) : (digits ++ rest).dropWhile Char.isDigit = rest := by
  rw [List.dropWhile_append_of_pos h]
  cases rest with
  | nil => rfl
  | cons c rest => simp [hrest c rfl]

theorem isSome_ofSigned? {letter : Char} {sign : Option Char} {digits : List Char}
    (h : Digits digits) : (Exponent.ofSigned? letter sign digits).isSome := by
  have hdigits : digits ≠ [] ∧ digits.all Char.isDigit := ⟨h.1, List.all_eq_true.2 h.2⟩
  rw [Exponent.ofSigned?, if_pos hdigits, Option.isSome_some]

theorem Scale.isSome_ofChars? {cs : List Char} (h : Scale cs) :
    (Exponent.ofChars? cs).isSome := by
  cases h with
  | @intro letter sign digits hletter hsign hdigits =>
    unfold Exponent.ofChars?
    dsimp only
    rw [if_pos hletter]
    rcases hsign with rfl | rfl | rfl
    · -- the first digit is no sign
      split
      next hrest =>
        have hdigit := hdigits.2 '+' (by rw [List.nil_append] at hrest; simp [hrest])
        exact absurd hdigit (by decide)
      next hrest =>
        have hdigit := hdigits.2 '-' (by rw [List.nil_append] at hrest; simp [hrest])
        exact absurd hdigit (by decide)
      next => exact isSome_ofSigned? hdigits
    · exact isSome_ofSigned? hdigits
    · exact isSome_ofSigned? hdigits

/-- What may stand behind a mantissa: nothing, or an exponent. -/
def MayFollow (rest : List Char) : Prop :=
  rest = [] ∨ Scale rest

/-- An exponent begins with its letter, which is neither a digit nor a point. -/
theorem MayFollow.head {rest : List Char} (h : MayFollow rest) :
    NoDigit rest ∧ ∀ cs, rest ≠ '.' :: cs := by
  rcases h with rfl | hscale
  · refine ⟨fun c hc => ?_, fun cs hcs => ?_⟩
    · cases hc
    · cases hcs
  · cases hscale with
    | intro hletter =>
      refine ⟨fun c hc => ?_, fun cs hcs => ?_⟩
      · cases hc
        rcases hletter with rfl | rfl <;> decide
      · cases hcs
        exact absurd hletter (by decide)

theorem isSome_withExponent? {whole rest : List Char} {fraction : Option (List Char)}
    (h : MayFollow rest) : (withExponent? whole fraction rest).isSome := by
  unfold withExponent?
  split
  next => rfl
  next hne =>
    rcases h with hnil | hscale
    · exact absurd hnil hne
    · rw [Option.isSome_map]
      exact hscale.isSome_ofChars?

/-- Digits, a point and digits are taken apart, unless there is no digit at all. -/
theorem ofChars?_of_point {whole fraction rest : List Char}
    (hwhole : ∀ c ∈ whole, c.isDigit) (hfraction : ∀ c ∈ fraction, c.isDigit)
    (hne : ¬(whole = [] ∧ fraction = [])) (hrest : MayFollow rest) :
    ofChars? (whole ++ '.' :: (fraction ++ rest)) = withExponent? whole (some fraction) rest := by
  have hpoint : NoDigit ('.' :: (fraction ++ rest)) := by
    intro c hc
    cases hc
    decide
  unfold ofChars?
  rw [takeWhile_digits hwhole hpoint, dropWhile_digits hwhole hpoint]
  show (if whole = [] ∧ (fraction ++ rest).takeWhile Char.isDigit = [] then none
    else withExponent? whole (some ((fraction ++ rest).takeWhile Char.isDigit))
      ((fraction ++ rest).dropWhile Char.isDigit)) = _
  rw [takeWhile_digits hfraction hrest.head.1, dropWhile_digits hfraction hrest.head.1,
    if_neg hne]

theorem ofChars?_of_whole {whole rest : List Char} (hwhole : Digits whole)
    (hrest : MayFollow rest) : ofChars? (whole ++ rest) = withExponent? whole none rest := by
  unfold ofChars?
  rw [takeWhile_digits hwhole.2 hrest.head.1, dropWhile_digits hwhole.2 hrest.head.1]
  dsimp only
  split
  next cs => exact absurd rfl (hrest.head.2 cs)
  next => rw [if_neg hwhole.1]

theorem Mantissa.isSome_ofChars? {cs rest : List Char} (h : Mantissa cs)
    (hrest : MayFollow rest) : (ofChars? (cs ++ rest)).isSome := by
  have hexponent : ∀ whole fraction, (withExponent? whole fraction rest).isSome :=
    fun _ _ => isSome_withExponent? hrest
  cases h with
  | whole hdigits =>
    rw [ofChars?_of_whole hdigits hrest]
    exact hexponent _ _
  | point hdigits hfraction =>
    rw [List.append_assoc, List.cons_append,
      ofChars?_of_point hdigits.2 hfraction (fun hnil => hdigits.1 hnil.1) hrest]
    exact hexponent _ _
  | @fraction digits hdigits =>
    have hread : ofChars? ([] ++ '.' :: (digits ++ rest)) =
        withExponent? [] (some digits) rest :=
      ofChars?_of_point (fun _ hc => absurd hc List.not_mem_nil) hdigits.2
        (fun hnil => hdigits.1 hnil.2) hrest
    rw [List.nil_append] at hread
    rw [List.cons_append, hread]
    exact hexponent _ _

/-- A text is taken apart exactly if it has the shape of a numeral. -/
theorem isSome_ofChars?_iff {cs : List Char} : (ofChars? cs).isSome ↔ Shape cs := by
  constructor
  · intro h
    obtain ⟨numeral, hnumeral⟩ := Option.isSome_iff_exists.1 h
    exact shape_of_ofChars? hnumeral
  · intro h
    cases h with
    | plain hmantissa =>
      have hsome := hmantissa.isSome_ofChars? (.inl rfl)
      rwa [List.append_nil] at hsome
    | scaled hmantissa hscale => exact hmantissa.isSome_ofChars? (.inr hscale)

theorem ofChars?_eq_none_iff {cs : List Char} : ofChars? cs = none ↔ ¬Shape cs := by
  rw [← isSome_ofChars?_iff, Option.not_isSome_iff_eq_none]

/-! ## Numerals of digits alone -/

/-- Digits without a point and an exponent are a numeral of a natural value. -/
theorem Digits.ofChars?_eq {cs : List Char} (h : Digits cs) :
    ofChars? cs = some ⟨cs, none, none⟩ := by
  have hread := ofChars?_of_whole h (.inl rfl)
  rwa [List.append_nil] at hread

theorem parts_of_withExponent? {whole rest : List Char} {fraction : Option (List Char)}
    {numeral : Numeral} (h : withExponent? whole fraction rest = some numeral) :
    numeral.whole = whole ∧ numeral.fraction = fraction := by
  unfold withExponent? at h
  split at h
  next =>
    cases h
    exact ⟨rfl, rfl⟩
  next =>
    obtain ⟨exponent, -, rfl⟩ := Option.map_eq_some_iff.1 h
    exact ⟨rfl, rfl⟩

/-- Without a fraction there are digits before the exponent. -/
theorem digits_whole_of_ofChars? {cs : List Char} {numeral : Numeral}
    (h : ofChars? cs = some numeral) (hfraction : numeral.fraction = none) :
    Digits numeral.whole := by
  unfold ofChars? at h
  dsimp only at h
  split at h
  next =>
    split at h
    next => cases h
    next =>
      obtain ⟨-, hsome⟩ := parts_of_withExponent? h
      rw [hfraction] at hsome
      cases hsome
  next =>
    split at h
    next => cases h
    next hwhole =>
      obtain ⟨heq, -⟩ := parts_of_withExponent? h
      rw [heq]
      exact ⟨hwhole, fun _ => isDigit_of_mem_takeWhile⟩

/-- A numeral has a natural value exactly if it is digits alone, and it is the value of these. -/
theorem natural?_eq_some_iff {cs : List Char} {numeral : Numeral}
    (hread : ofChars? cs = some numeral) {n : Nat} :
    numeral.natural? = some n ↔ Digits cs ∧ Decimal.ofDigitChars cs = n := by
  constructor
  · intro h
    have hdigits := digits_whole_of_ofChars? hread
    have hchars := chars_of_ofChars? hread
    obtain ⟨whole, fraction, exponent⟩ := numeral
    unfold natural? at h
    split at h
    next hfraction hexponent =>
      -- neither point nor exponent: the text is the digits before them
      dsimp only at hfraction hexponent h
      subst hfraction hexponent
      have hcs : cs = whole := by simpa [chars, fractionChars] using hchars.symm
      cases h
      rw [hcs]
      exact ⟨hdigits rfl, rfl⟩
    next => cases h
  · rintro ⟨hdigits, rfl⟩
    rw [hdigits.ofChars?_eq] at hread
    cases hread
    rfl

end ResourceQuery.Numeral
