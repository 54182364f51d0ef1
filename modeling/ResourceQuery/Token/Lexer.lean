import ResourceQuery.Text.Blank
import ResourceQuery.Text.Bytes
import ResourceQuery.Token.Basic

/-!
# Cutting a query into tokens

A query is a sequence of marks and of runs, a run being as many characters as there are before
the next mark or the end. Each mark is a token; each run that is not blank is a token without
the blanks at its ends. Cutting never fails.
-/

namespace ResourceQuery

/-- A query that has been cut up to a position. -/
structure Lexer where
  /-- What is still to be cut. -/
  rest : List Char
  /-- The number of bytes before the rest. -/
  position : Nat
deriving DecidableEq

namespace Lexer

/-- The start of a query. -/
def ofString (query : String) : Lexer :=
  ⟨query.toList, 0⟩

/-- The length of the whole query in bytes. -/
def endPosition (lexer : Lexer) : Nat :=
  lexer.position + Text.byteLength lexer.rest

/-- The piece that begins with a character: the character if it is a mark, else the whole run. -/
def piece (c : Char) (cs : List Char) : List Char :=
  if Mark.isMark c then [c] else c :: cs.takeWhile fun d => !Mark.isMark d

/-- What follows the piece that begins with a character. -/
def afterPiece (c : Char) (cs : List Char) : List Char :=
  if Mark.isMark c then cs else cs.dropWhile fun d => !Mark.isMark d

/-- The next token and the query after it; none if only blanks are left. -/
def next? (lexer : Lexer) : Option (Token × Lexer) :=
  let start := lexer.position + Text.byteLength (lexer.rest.takeWhile Text.isBlank)
  match Text.trimStart lexer.rest with
  | [] => none
  | c :: cs =>
    let text := Text.trimEnd (piece c cs)
    some (⟨Kind.ofChars text, String.ofList text, start⟩,
      ⟨afterPiece c cs, start + Text.byteLength (piece c cs)⟩)

/-- The end of the query. -/
def atEnd (lexer : Lexer) : Lexer :=
  ⟨[], lexer.endPosition⟩

/-- The next token if there is one, with the query after it or at its end. -/
def advance (lexer : Lexer) : Option Token × Lexer :=
  match lexer.next? with
  | some (token, after) => (some token, after)
  | none => (none, lexer.atEnd)

/-! ## All tokens -/

theorem piece_append_afterPiece (c : Char) (cs : List Char) :
    piece c cs ++ afterPiece c cs = c :: cs := by
  unfold piece afterPiece
  split <;> simp

private theorem length_afterPiece_le (c : Char) (cs : List Char) :
    (afterPiece c cs).length ≤ cs.length := by
  unfold afterPiece
  split
  · exact Nat.le_refl _
  · exact (List.dropWhile_sublist _).length_le

/-- Each token shortens what is still to be cut. -/
theorem length_rest_of_next? {lexer after : Lexer} {token : Token}
    (h : lexer.next? = some (token, after)) : after.rest.length < lexer.rest.length := by
  unfold next? at h
  split at h
  · cases h
  next c cs hrest =>
    simp only [Option.some.injEq, Prod.mk.injEq] at h
    rw [← h.2]
    have hle : (c :: cs).length ≤ lexer.rest.length := by
      rw [← hrest]
      exact (List.dropWhile_sublist _).length_le
    have := length_afterPiece_le c cs
    simp only [List.length_cons] at hle ⊢
    omega

/-- The tokens that are still to come. -/
def tokens (lexer : Lexer) : List Token :=
  match _h : lexer.next? with
  | none => []
  | some (token, after) => token :: after.tokens
termination_by lexer.rest.length
decreasing_by exact length_rest_of_next? _h

theorem tokens_of_next?_none {lexer : Lexer} (h : lexer.next? = none) : lexer.tokens = [] := by
  rw [tokens]
  split
  · rfl
  next h' => rw [h] at h'; cases h'

theorem tokens_of_next?_some {lexer after : Lexer} {token : Token}
    (h : lexer.next? = some (token, after)) : lexer.tokens = token :: after.tokens := by
  rw [tokens]
  split
  next h' => rw [h] at h'; cases h'
  next h' =>
    rw [h] at h'
    cases h'
    rfl

end Lexer

/-- The tokens of a query. -/
def tokenize (query : String) : List Token :=
  (Lexer.ofString query).tokens

end ResourceQuery
