import ResourceQuery.Proofs.Token.Order

/-!
# The numbers that tokens denote

A token whose text decides for an integer or a float denotes one: the kind of a text is a number
only if the text is a numeral, and an integer only if its value is in range. An integer token
denotes the same number as an integer and as a count.
-/

namespace ResourceQuery

/-- Only numerals are numbers, and only those in range are integers. -/
theorem natural?_of_ofNumeral_integer {numeral : Numeral}
    (h : Kind.ofNumeral numeral = .integer) :
    ∃ n, numeral.natural? = some n ∧ n ≤ Kind.integerMax := by
  unfold Kind.ofNumeral at h
  split at h
  next n hn =>
    split at h
    next hle => exact ⟨n, hn, hle⟩
    next => cases h
  next => cases h

theorem ofWord_of_ofChars {cs : List Char} {kind : Kind} (h : Kind.ofChars cs = kind)
    (hkind : ∀ mark, kind ≠ .mark mark) : Kind.ofWord cs = kind := by
  unfold Kind.ofChars at h
  split at h
  next c =>
    split at h
    next mark _ => exact absurd h.symm (hkind mark)
    next => exact h
  next => exact h

/-- A text that is taken for a number is a numeral. -/
theorem ofChars?_of_ofWord {cs : List Char} {kind : Kind} (h : Kind.ofWord cs = kind)
    (hkind : kind = .integer ∨ kind = .float) :
    ∃ numeral, Numeral.ofChars? cs = some numeral ∧ Kind.ofNumeral numeral = kind := by
  unfold Kind.ofWord at h
  split at h
  next numeral hnumeral => exact ⟨numeral, hnumeral, h⟩
  next =>
    -- a keyword or a text is no number
    split at h
    next => rcases hkind with rfl | rfl <;> cases h
    next => rcases hkind with rfl | rfl <;> cases h

namespace Token

/-- A genuine token denotes the number that its kind promises. -/
theorem Genuine.readings {token : Token} (h : token.Genuine) :
    (token.kind = .integer → ∃ n, n ≤ Kind.integerMax ∧
      token.integer? = some (Int64.ofNat n) ∧ token.count? = some (UInt64.ofNat n)) ∧
    (token.kind = .float → ∃ x, token.float? = some x) := by
  unfold Genuine at h
  constructor
  · intro hkind
    rw [h] at hkind
    have hword := ofWord_of_ofChars hkind (by simp)
    obtain ⟨numeral, hnumeral, hinteger⟩ := ofChars?_of_ofWord hword (.inl rfl)
    obtain ⟨n, hn, hle⟩ := natural?_of_ofNumeral_integer hinteger
    have hlt : n < UInt64.size := Nat.lt_of_le_of_lt hle (by decide)
    refine ⟨n, hle, ?_, ?_⟩
    · simp [integer?, numeral?, hnumeral, hn, hle]
    · simp [count?, numeral?, hnumeral, hn, hlt]
  · intro hkind
    rw [h] at hkind
    have hword := ofWord_of_ofChars hkind (by simp)
    obtain ⟨numeral, hnumeral, -⟩ := ofChars?_of_ofWord hword (.inr rfl)
    exact ⟨_, by simp [float?, numeral?, hnumeral]; rfl⟩

end Token

end ResourceQuery
