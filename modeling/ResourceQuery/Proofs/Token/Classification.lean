import ResourceQuery.Proofs.Number.Shape
import ResourceQuery.Proofs.Token.Spelling

/-!
# The kind of a text

What a text is decides its kind: a mark, a number in range, any other numeral, a keyword, or else
just a text. The kinds exclude each other, so every text has exactly one, and that is the kind of
its token.
-/

namespace ResourceQuery

open Lexer (Word)

/-! ## Marks, digits and keywords -/

theorem isMark_of_isDigit {c : Char} (h : c.isDigit) : Mark.isMark c = false := by
  rw [Bool.eq_false_iff]
  intro hmark
  obtain ⟨mark, rfl⟩ := Mark.isMark_iff.1 hmark
  cases mark <;> exact absurd h (by decide)

/-- A text that is no mark has the kind of a word. -/
theorem Kind.ofChars_eq_ofWord {cs : List Char} (h : ∀ mark : Mark, cs ≠ [mark.char]) :
    ofChars cs = ofWord cs := by
  unfold ofChars
  split
  next c =>
    cases hmark : Mark.ofChar? c with
    | none => rfl
    | some mark => exact absurd (by rw [Mark.char_of_ofChar? hmark]) (h mark)
  next => rfl

theorem Lexer.Word.ne_mark {cs : List Char} (h : Word cs) (mark : Mark) : cs ≠ [mark.char] := by
  rintro rfl
  have hmark := h.no_mark mark.char (List.mem_singleton.2 rfl)
  rw [Mark.isMark_iff.2 ⟨mark, rfl⟩] at hmark
  cases hmark

theorem Lexer.Word.kind {cs : List Char} (h : Word cs) : Kind.ofChars cs = Kind.ofWord cs :=
  Kind.ofChars_eq_ofWord h.ne_mark

theorem word_keyword (op : Operation) : Word op.word.toList := by
  rcases op with (_ | _) | (_ | _) | _ | _ | (_ | _) <;> decide

theorem ofWord_keyword (op : Operation) : Kind.ofWord op.word.toList = .keyword op := by
  have hnumeral : Numeral.ofChars? op.word.toList = none := by
    rcases op with (_ | _) | (_ | _) | _ | _ | (_ | _) <;> decide
  simp only [Kind.ofWord, hnumeral, String.ofList_toList, Operation.ofWord?_word]

/-! ## The kinds -/

/-- The kind that a text has by what it is. -/
inductive HasKind : List Char → Kind → Prop
  | mark (mark : Mark) : HasKind [mark.char] (.mark mark)
  /-- Digits alone, of a value in range. -/
  | integer {cs : List Char} (hdigits : Numeral.Digits cs)
      (hle : Decimal.ofDigitChars cs ≤ Kind.integerMax) : HasKind cs .integer
  /-- Any other numeral. -/
  | float {cs : List Char} (hshape : Numeral.Shape cs)
      (hother : ¬(Numeral.Digits cs ∧ Decimal.ofDigitChars cs ≤ Kind.integerMax)) :
      HasKind cs .float
  | keyword (op : Operation) : HasKind op.word.toList (.keyword op)
  /-- Any text that is none of the others. -/
  | text {cs : List Char} (hmark : ∀ mark : Mark, cs ≠ [mark.char]) (hshape : ¬Numeral.Shape cs)
      (hkeyword : ∀ op : Operation, cs ≠ op.word.toList) : HasKind cs .text

/-- What is just a text is none of the others. -/
theorem HasKind.of_text {cs : List Char} (h : HasKind cs .text) :
    (∀ mark : Mark, cs ≠ [mark.char]) ∧ ¬Numeral.Shape cs ∧
      ∀ op : Operation, cs ≠ op.word.toList := by
  cases h with
  | text hmark hshape hkeyword => exact ⟨hmark, hshape, hkeyword⟩

/-- A numeral is no mark. -/
theorem Numeral.Shape.ne_mark {cs : List Char} (h : Numeral.Shape cs) (mark : Mark) :
    cs ≠ [mark.char] := by
  rintro rfl
  have hnone : Numeral.ofChars? [mark.char] = none := by
    cases mark <;> decide
  exact Numeral.ofChars?_eq_none_iff.1 hnone h

theorem hasKind_of_numeral {cs : List Char} {numeral : Numeral}
    (h : Numeral.ofChars? cs = some numeral) : HasKind cs (Kind.ofNumeral numeral) := by
  have hshape : Numeral.Shape cs := Numeral.shape_of_ofChars? h
  unfold Kind.ofNumeral
  split
  next n hnatural =>
    obtain ⟨hdigits, hvalue⟩ := (Numeral.natural?_eq_some_iff h).1 hnatural
    by_cases hle : n ≤ Kind.integerMax
    · rw [if_pos hle]
      exact .integer hdigits (by rw [hvalue]; exact hle)
    · rw [if_neg hle]
      exact .float hshape fun hinteger => hle (by rw [← hvalue]; exact hinteger.2)
  next hnone =>
    -- digits alone would have a natural value
    refine .float hshape fun hinteger => ?_
    rw [(Numeral.natural?_eq_some_iff h).2 ⟨hinteger.1, rfl⟩] at hnone
    cases hnone

/-- Every text has the kind that its token gets. -/
theorem hasKind_ofChars (cs : List Char) : HasKind cs (Kind.ofChars cs) := by
  by_cases hmark : ∃ mark : Mark, cs = [mark.char]
  · obtain ⟨mark, rfl⟩ := hmark
    rw [Kind.ofChars, Mark.ofChar?_char]
    exact .mark mark
  · have hmark' : ∀ mark : Mark, cs ≠ [mark.char] := fun mark hcs => hmark ⟨mark, hcs⟩
    rw [Kind.ofChars_eq_ofWord hmark']
    unfold Kind.ofWord
    split
    next numeral hnumeral => exact hasKind_of_numeral hnumeral
    next hnumeral =>
      split
      next op hop =>
        have hcs : cs = op.word.toList := by
          rw [Operation.word_of_ofWord? hop, String.toList_ofList]
        rw [hcs]
        exact .keyword op
      next hop =>
        refine .text hmark' (Numeral.ofChars?_eq_none_iff.1 hnumeral) fun op hcs => ?_
        rw [hcs, String.ofList_toList, Operation.ofWord?_word] at hop
        cases hop

theorem HasKind.ofChars_eq {cs : List Char} {kind : Kind} (h : HasKind cs kind) :
    Kind.ofChars cs = kind := by
  cases h with
  | mark mark => rw [Kind.ofChars, Mark.ofChar?_char]
  | integer hdigits hle =>
    have hmark := (Numeral.Shape.plain (.whole hdigits)).ne_mark
    rw [Kind.ofChars_eq_ofWord hmark, Kind.ofWord, hdigits.ofChars?_eq]
    exact if_pos hle
  | float hshape hother =>
    obtain ⟨numeral, hread⟩ := Option.isSome_iff_exists.1 (Numeral.isSome_ofChars?_iff.2 hshape)
    rw [Kind.ofChars_eq_ofWord hshape.ne_mark, Kind.ofWord, hread]
    show Kind.ofNumeral numeral = .float
    unfold Kind.ofNumeral
    split
    next n hnatural =>
      obtain ⟨hdigits, rfl⟩ := (Numeral.natural?_eq_some_iff hread).1 hnatural
      exact if_neg fun hle => hother ⟨hdigits, hle⟩
    next => rfl
  | keyword op => rw [(word_keyword op).kind, ofWord_keyword]
  | text hmark hshape hkeyword =>
    rw [Kind.ofChars_eq_ofWord hmark, Kind.ofWord, Numeral.ofChars?_eq_none_iff.2 hshape]
    dsimp only
    split
    next op hop =>
      refine absurd ?_ (hkeyword op)
      rw [Operation.word_of_ofWord? hop, String.toList_ofList]
    next => rfl

/-- The kind of a text is decided by what it is. -/
theorem hasKind_iff {cs : List Char} {kind : Kind} : HasKind cs kind ↔ Kind.ofChars cs = kind := by
  constructor
  · exact HasKind.ofChars_eq
  · rintro rfl
    exact hasKind_ofChars cs

end ResourceQuery
