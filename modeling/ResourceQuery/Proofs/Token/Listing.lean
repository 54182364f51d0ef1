import ResourceQuery.Proofs.Number.Standard
import ResourceQuery.Proofs.Text.Lines
import ResourceQuery.Token.Listing

/-!
# Listings line by line

A listing shows a token in columns, and the token is read back from them. They stand on one line
unless the text of the token has a line break inside: it is shown as it is, and what stands behind
it is one more line, which shows no token.
-/

namespace ResourceQuery

open Numeral (NoDigit digits_digitChars dropWhile_digits isDigit_digitChars takeWhile_digits)
open Text (length_lines lines lines_flatMap lines_of_unbroken)

/-! ## Columns -/

/-- The blanks in front of a padded text are skipped. -/
theorem dropWhile_padLeft {text : List Char} (hne : text ≠ []) (h : ∀ c ∈ text, c ≠ ' ')
    (width : Nat) (rest : List Char) :
    (padLeft width text ++ rest).dropWhile (· = ' ') = text ++ rest := by
  obtain ⟨c, cs, rfl⟩ := List.exists_cons_of_ne_nil hne
  have hpad : ∀ d ∈ List.replicate (width - (c :: cs).length) ' ', decide (d = ' ') := by
    intro d hd
    exact decide_eq_true (List.eq_of_mem_replicate hd)
  have hc : c ≠ ' ' := h c List.mem_cons_self
  unfold padLeft
  rw [List.append_assoc, List.dropWhile_append_of_pos hpad, List.cons_append,
    List.dropWhile_cons, if_neg (by simpa using hc)]

/-- The blanks behind a padded text end it. -/
theorem takeWhile_padRight {text : List Char} (h : ∀ c ∈ text, c ≠ ' ') (width : Nat) :
    (padRight width text).takeWhile (· ≠ ' ') = text := by
  have htext : ∀ c ∈ text, decide (c ≠ ' ') := fun c hc => decide_eq_true (h c hc)
  unfold padRight
  rw [List.takeWhile_append_of_pos htext, List.takeWhile_replicate, if_neg (by decide),
    List.append_nil]

/-- A text fills the column that it is padded to. -/
theorem length_padRight {width : Nat} {text : List Char} (h : text.length ≤ width) :
    (padRight width text).length = width := by
  unfold padRight
  rw [List.length_append, List.length_replicate]
  omega

/-- Padding is all blanks. -/
theorem count_padLeft (width : Nat) (text : List Char) :
    (padLeft width text).count '\n' = text.count '\n' := by
  unfold padLeft
  rw [List.count_append, List.count_replicate, if_neg (by decide), Nat.zero_add]

theorem count_padRight (width : Nat) (text : List Char) :
    (padRight width text).count '\n' = text.count '\n' := by
  unfold padRight
  rw [List.count_append, List.count_replicate, if_neg (by decide), Nat.add_zero]

/-- The name of a kind is made of letters and fits its column. -/
theorem Kind.name_fits (kind : Kind) :
    kind.name.toList.length ≤ 14 ∧ ∀ c ∈ kind.name.toList, c.isAlpha := by
  rw [← List.all_eq_true]
  rcases kind with _ | _ | _ | m | op
  · decide
  · decide
  · decide
  · cases m <;> decide
  · rcases op with (_ | _) | (_ | _) | _ | _ | (_ | _) <;> decide

namespace Token

/-- The columns of a token: its position, the name of its kind and its text. -/
def columns (token : Token) : List Char :=
  padLeft 4 (Decimal.digitChars token.position) ++ [' ', ' ']
    ++ padRight 14 token.kind.name.toList ++ ' ' :: token.text.toList

/-- The token with given columns, if there is one. -/
def ofColumns? (cs : List Char) : Option Token :=
  let shown := cs.dropWhile (· = ' ')
  let behind := (shown.dropWhile Char.isDigit).drop 2
  (Kind.ofName? (String.ofList ((behind.take 14).takeWhile (· ≠ ' ')))).map fun kind =>
    ⟨kind, String.ofList (behind.drop 15), Decimal.ofDigitChars (shown.takeWhile Char.isDigit)⟩

theorem line_eq (token : Token) : token.line = token.columns ++ ['\n'] := by
  unfold line columns
  rw [List.append_assoc _ (' ' :: token.text.toList), List.cons_append]

/-- A token is read back from its columns. -/
theorem ofColumns?_columns (token : Token) : ofColumns? token.columns = some token := by
  obtain ⟨kind, text, position⟩ := token
  obtain ⟨hlength, halpha⟩ := kind.name_fits
  have hdigits := digits_digitChars position
  have hposition : ∀ c ∈ Decimal.digitChars position, c ≠ ' ' := by
    rintro c hc rfl
    exact absurd (isDigit_digitChars hc) (by decide)
  have hname : ∀ c ∈ kind.name.toList, c ≠ ' ' := by
    rintro c hc rfl
    exact absurd (halpha ' ' hc) (by decide)
  have hgap : ∀ rest, NoDigit (' ' :: rest) := by
    rintro rest _ ⟨⟩
    decide
  have hcolumns : columns ⟨kind, text, position⟩ = padLeft 4 (Decimal.digitChars position) ++
      ' ' :: ' ' :: (padRight 14 kind.name.toList ++ ' ' :: text.toList) := by
    unfold columns
    rw [List.append_assoc, List.append_assoc]
    rfl
  unfold ofColumns?
  rw [hcolumns, dropWhile_padLeft hdigits.1 hposition]
  dsimp only
  rw [takeWhile_digits hdigits.2 (hgap _), dropWhile_digits hdigits.2 (hgap _)]
  -- the name ends its column, and one more blank stands in front of the text
  have hwidth := length_padRight hlength
  have htext : (padRight 14 kind.name.toList ++ ' ' :: text.toList).drop 15 = text.toList := by
    rw [List.drop_append, hwidth, List.drop_of_length_le (by omega)]
    rfl
  rw [List.drop_succ_cons, List.drop_succ_cons, List.drop_zero, List.take_left' hwidth,
    takeWhile_padRight hname, htext, String.ofList_toList, String.ofList_toList,
    Kind.ofName?_name, Option.map_some, Decimal.ofDigitChars_digitChars]

/-- The line breaks in the columns of a token are those in its text. -/
theorem count_columns (token : Token) :
    token.columns.count '\n' = token.text.toList.count '\n' := by
  have hposition : '\n' ∉ Decimal.digitChars token.position := by
    intro hbreak
    exact absurd (isDigit_digitChars hbreak) (by decide)
  have hname : '\n' ∉ token.kind.name.toList := by
    intro hbreak
    exact absurd (token.kind.name_fits.2 '\n' hbreak) (by decide)
  unfold columns
  rw [List.count_append, List.count_append, List.count_append, count_padLeft, count_padRight,
    List.count_eq_zero_of_not_mem hposition, List.count_eq_zero_of_not_mem hname,
    List.count_cons_of_ne (by decide)]
  simp

/-- A token takes one line, and one more for each line break in its text. -/
theorem length_lines_line (token : Token) :
    (lines token.line).1.length = token.text.toList.count '\n' + 1 := by
  rw [length_lines, line_eq, List.count_append, count_columns]
  rfl

/-- Without a line break in its text, the columns of a token are its line. -/
theorem lines_line {token : Token} (h : '\n' ∉ token.text.toList) :
    lines token.line = ([token.columns], []) := by
  have hunbroken : '\n' ∉ token.columns := by
    rw [← List.count_eq_zero, count_columns, List.count_eq_zero]
    exact h
  rw [line_eq]
  exact lines_of_unbroken hunbroken []

end Token

/-! ## Lines -/

/-- The lines of a listing are those of its tokens, and the last one is ended as well. -/
theorem lines_tokenListing (text : String) :
    lines (tokenListing text).toList =
      ((tokenize text).flatMap fun token => (lines token.line).1, []) := by
  have hline : Token.line = fun token => token.columns ++ ['\n'] := funext Token.line_eq
  unfold tokenListing
  rw [String.toList_ofList, hline, lines_flatMap]

/-- Tokens take a line each, and one more for each line break in their texts. -/
theorem length_lines_flatMap (tokens : List Token) :
    (tokens.flatMap fun token => (lines token.line).1).length =
      tokens.length + (tokens.flatMap fun token => token.text.toList).count '\n' := by
  induction tokens with
  | nil => rfl
  | cons token tokens ih =>
    rw [List.flatMap_cons, List.flatMap_cons, List.length_append, List.count_append, ih,
      token.length_lines_line, List.length_cons]
    omega

/-- Tokens without line breaks in their texts are shown by their columns. -/
theorem flatMap_lines_line {tokens : List Token}
    (h : ∀ token ∈ tokens, '\n' ∉ token.text.toList) :
    (tokens.flatMap fun token => (lines token.line).1) = tokens.map Token.columns := by
  induction tokens with
  | nil => rfl
  | cons token tokens ih =>
    obtain ⟨htoken, htokens⟩ := List.forall_mem_cons.1 h
    rw [List.flatMap_cons, ih htokens, Token.lines_line htoken, List.map_cons,
      List.singleton_append]

/--
A listing consists of the ended lines of its tokens. There are as many as there are tokens and line
breaks in their texts. They show the tokens one for one, each with its position, its kind and its
whole text, exactly if no text of a token has a line break inside.
-/
theorem listing_line_by_line (text : String) :
    lines (tokenListing text).toList =
        ((tokenize text).flatMap fun token => (lines token.line).1, []) ∧
      (lines (tokenListing text).toList).1.length = (tokenize text).length +
        ((tokenize text).flatMap fun token => token.text.toList).count '\n' ∧
      ((lines (tokenListing text).toList).1.map Token.ofColumns? = (tokenize text).map some ↔
        ∀ token ∈ tokenize text, '\n' ∉ token.text.toList) := by
  have hlines := lines_tokenListing text
  have hlength : (lines (tokenListing text).toList).1.length = (tokenize text).length +
      ((tokenize text).flatMap fun token => token.text.toList).count '\n' := by
    rw [hlines]
    exact length_lines_flatMap (tokenize text)
  refine ⟨hlines, hlength, ?_, ?_⟩
  · -- a line break in a text makes one line too many
    intro hread token htoken hbreak
    have hcount := congrArg List.length hread
    rw [List.length_map, List.length_map, hlength] at hcount
    have hmem : '\n' ∈ (tokenize text).flatMap fun token => token.text.toList :=
      List.mem_flatMap.2 ⟨token, htoken, hbreak⟩
    have hpos := List.count_pos_iff.2 hmem
    omega
  · intro hunbroken
    have hread : (fun token => Token.ofColumns? token.columns) = some :=
      funext Token.ofColumns?_columns
    rw [hlines, flatMap_lines_line hunbroken, List.map_map, Function.comp_def, hread]

/-- A line break inside of a text is shown as it is, so that one token takes two lines. -/
theorem listing_of_broken_text :
    tokenize "a\nb" = [⟨.text, "a\nb", 0⟩] ∧
      lines (tokenListing "a\nb").toList =
        (["   0  StringLiteral  a".toList, "b".toList], []) := by
  decide +kernel

end ResourceQuery
