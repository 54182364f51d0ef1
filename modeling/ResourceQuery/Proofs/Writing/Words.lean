import ResourceQuery.Proofs.Grammar.Basic
import ResourceQuery.Proofs.Number.Expansion
import ResourceQuery.Proofs.Token.Classification

/-!
# Words that are written

The words of a written query: keywords, texts that are neither numbers nor keywords, and numbers
in digits. Each is cut off as one token, and the token is what was meant.
-/

namespace ResourceQuery

open Grammar (Count Number)
open Lexer (Spells Word)

/-! ## Characters -/

theorem isBlank_of_isDigit {c : Char} (h : c.isDigit) : Text.isBlank c = false := by
  simp only [Char.isDigit, Bool.and_eq_true, decide_eq_true_eq] at h
  have hzero : 48 ≤ c.toNat := UInt32.le_iff_toNat_le.1 h.1
  have hnine : c.toNat ≤ 57 := UInt32.le_iff_toNat_le.1 h.2
  simp only [Text.isBlank, Text.blankRanges, List.any_cons, List.any_nil, Bool.or_eq_false_iff,
    Bool.and_eq_false_iff, decide_eq_false_iff_not, and_true]
  omega

/-- But for signs, the characters of a numeral are neither marks nor blank. -/
theorem solid_of_numeral {c : Char} (h : c.isDigit ∨ c = '.' ∨ c = 'e' ∨ c = 'E') :
    Mark.isMark c = false ∧ Text.isBlank c = false := by
  rcases h with hdigit | rfl | rfl | rfl
  · exact ⟨isMark_of_isDigit hdigit, isBlank_of_isDigit hdigit⟩
  · decide
  · decide
  · decide

/-- A text with neither marks nor blanks in it is a word. -/
theorem Lexer.Word.of_forall {cs : List Char} (hne : cs ≠ [])
    (h : ∀ c ∈ cs, Mark.isMark c = false ∧ Text.isBlank c = false) : Word cs where
  ne_nil := hne
  no_mark := fun c hc => (h c hc).1
  no_blank_first := fun c hc => (h c (List.mem_of_mem_head? hc)).2
  no_blank_last := fun c hc => (h c (List.mem_of_mem_getLast? hc)).2

/-! ## Keywords -/

theorem spells_keyword (op : Operation) :
    Spells op.word.toList fun spelt => ∃ token, spelt = [token] ∧ token.kind = .keyword op := by
  refine (Spells.word (word_keyword op)).mono ?_
  intro spelt hspelt
  obtain ⟨token, rfl, hkind, -⟩ := hspelt
  rw [(word_keyword op).kind, ofWord_keyword] at hkind
  exact ⟨token, rfl, hkind⟩

/-! ## Texts -/

/-- A text that stands for itself in a query: a word that is neither a number nor a keyword. -/
structure PlainText (text : String) : Prop where
  word : Word text.toList
  not_numeral : Numeral.ofChars? text.toList = none
  not_keyword : Operation.ofWord? text = none

instance (text : String) : Decidable (PlainText text) :=
  decidable_of_iff (Word text.toList ∧ Numeral.ofChars? text.toList = none ∧
      Operation.ofWord? text = none)
    ⟨fun ⟨hword, hnumeral, hkeyword⟩ => ⟨hword, hnumeral, hkeyword⟩,
      fun ⟨hword, hnumeral, hkeyword⟩ => ⟨hword, hnumeral, hkeyword⟩⟩

theorem spells_text {text : String} (h : PlainText text) :
    Spells text.toList fun spelt => ∃ token, spelt = [token] ∧ token.kind = .text ∧
      token.text = text := by
  have hkind : Kind.ofWord text.toList = .text := by
    simp only [Kind.ofWord, h.not_numeral, String.ofList_toList, h.not_keyword]
  refine (Spells.word h.word).mono ?_
  intro spelt hspelt
  obtain ⟨token, rfl, hkind', htext⟩ := hspelt
  rw [h.word.kind, hkind] at hkind'
  rw [String.ofList_toList] at htext
  exact ⟨token, rfl, hkind', htext⟩

/-! ## Numbers -/

theorem Numeral.Plain.word {numeral : Numeral} (h : numeral.Plain) : Word numeral.chars := by
  -- a plain numeral has no other characters than digits and a point
  obtain ⟨whole, fraction, exponent⟩ := numeral
  obtain ⟨hne, hwhole, hfraction, rfl⟩ := h
  refine Word.of_forall (by simpa [chars] using fun hnil => absurd hnil hne) ?_
  intro c hc
  apply solid_of_numeral
  simp only [chars, Option.map_none, Option.getD_none, List.append_nil, List.mem_append] at hc
  rcases hc with hc | hc
  · exact .inl (hwhole c hc)
  · cases fraction with
    | none => cases hc
    | some digits =>
      rcases List.mem_cons.1 hc with rfl | hc
      · exact .inr (.inl rfl)
      · exact .inl (hfraction digits rfl c hc)

/-- A numeral in digits is a number token that holds the numeral. -/
theorem spells_numeral {numeral : Numeral} (h : numeral.Plain) :
    Spells numeral.chars fun spelt => ∃ token : Token, spelt = [token] ∧
      token.kind = Kind.ofNumeral numeral ∧ token.numeral? = some numeral := by
  refine (Spells.word h.word).mono ?_
  intro spelt hspelt
  obtain ⟨token, rfl, hkind, htext⟩ := hspelt
  refine ⟨token, rfl, ?_, ?_⟩
  · rw [hkind, h.word.kind, Kind.ofWord, h.regular.ofChars?_chars]
  · rw [Token.numeral?, htext, String.toList_ofList, h.regular.ofChars?_chars]

/-- Digits in range are an integer and a count. -/
theorem spells_natural {n : Nat} (h : n ≤ Kind.integerMax) :
    Spells (Decimal.digitChars n) fun spelt => ∃ token, spelt = [token] ∧
      Number token (.integer (Int64.ofNat n)) ∧ Count token (UInt64.ofNat n) := by
  have hlt : n < UInt64.size := Nat.lt_of_le_of_lt h (by decide)
  rw [← Numeral.chars_ofNat]
  refine (spells_numeral (Numeral.plain_ofNat n)).mono ?_
  intro spelt hspelt
  obtain ⟨token, rfl, hkind, hnumeral⟩ := hspelt
  have hinteger : token.kind = .integer := by
    rw [hkind, Kind.ofNumeral, Numeral.natural?_ofNat]
    exact if_pos h
  refine ⟨token, rfl, .integer hinteger ?_, hinteger, ?_⟩
  · simp [Token.integer?, hnumeral, Numeral.natural?_ofNat, h]
  · simp [Token.count?, hnumeral, Numeral.natural?_ofNat, hlt]

/-- The expansion of a finite number is a float, the number without its sign. -/
theorem spells_expansion {x : Binary64} (h : x.isFinite) :
    Spells x.expansion.chars fun spelt => ∃ token, spelt = [token] ∧
      Number token (.float ⟨false, x.magnitude, x.magnitude_lt⟩) := by
  refine (spells_numeral x.plain_expansion).mono ?_
  intro spelt hspelt
  obtain ⟨token, rfl, hkind, hnumeral⟩ := hspelt
  refine ⟨token, rfl, .float hkind ?_⟩
  rw [Token.float?, hnumeral, Option.map_some, Binary64.ofDecimal_expansion h]

end ResourceQuery
