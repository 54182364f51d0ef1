import ResourceQuery.Token.Lexer

/-!
# The order of tokens

Cutting off a token goes forward in the text: each token begins behind the ones before it and
before the end of the text. So a position belongs to one token at most, and the end position to
none. The kind of a token is decided by its text.
-/

namespace ResourceQuery

open Text (byteLength byteLength_append byteLength_cons)

/-- The kind of a token is the one that its text has. -/
def Token.Genuine (token : Token) : Prop :=
  token.kind = Kind.ofChars token.text.toList

namespace Lexer

/-! ## One token -/

/-- The blanks before a piece, the piece and what follows it make up the text. -/
theorem next?_eq_some {lexer after : Lexer} {token : Token}
    (h : lexer.next? = some (token, after)) :
    ∃ c cs, Text.trimStart lexer.rest = c :: cs ∧
      token.kind = Kind.ofChars (Text.trimEnd (piece c cs)) ∧
      token.text = String.ofList (Text.trimEnd (piece c cs)) ∧
      token.position = lexer.position + byteLength (lexer.rest.takeWhile Text.isBlank) ∧
      after.rest = afterPiece c cs ∧
      after.position = token.position + byteLength (piece c cs) := by
  unfold next? at h
  split at h
  next => cases h
  next c cs hrest =>
    cases h
    exact ⟨c, cs, hrest, rfl, rfl, rfl, rfl, rfl⟩

theorem byteLength_trimStart (cs : List Char) :
    byteLength (cs.takeWhile Text.isBlank) + byteLength (Text.trimStart cs) = byteLength cs := by
  rw [← byteLength_append, Text.trimStart, List.takeWhile_append_dropWhile]

theorem byteLength_piece_pos (c : Char) (cs : List Char) : 0 < byteLength (piece c cs) := by
  have hc : 0 < c.utf8Size := Char.utf8Size_pos c
  unfold piece
  split
  · rw [byteLength_cons]
    omega
  · rw [byteLength_cons]
    omega

/-- A token begins at or behind the position of the lexer, which then stands behind the token. -/
theorem position_of_next? {lexer after : Lexer} {token : Token}
    (h : lexer.next? = some (token, after)) :
    lexer.position ≤ token.position ∧ token.position < after.position := by
  obtain ⟨c, cs, -, -, -, hposition, -, hafter⟩ := next?_eq_some h
  have hpiece := byteLength_piece_pos c cs
  omega

/-- Cutting off a token leaves the end of the text where it is. -/
theorem endPosition_of_next? {lexer after : Lexer} {token : Token}
    (h : lexer.next? = some (token, after)) : after.endPosition = lexer.endPosition := by
  obtain ⟨c, cs, hrest, -, -, hposition, hafter, hafter'⟩ := next?_eq_some h
  -- the bytes of the text are those of the blanks, of the piece and of what follows it
  have htext := byteLength_trimStart lexer.rest
  have hpiece : byteLength (piece c cs) + byteLength (afterPiece c cs) = byteLength (c :: cs) := by
    rw [← byteLength_append, piece_append_afterPiece]
  rw [hrest] at htext
  unfold endPosition
  rw [hafter, hafter', hposition]
  omega

theorem position_le_endPosition (lexer : Lexer) : lexer.position ≤ lexer.endPosition :=
  Nat.le_add_right _ _

/-! ## All tokens -/

theorem genuine_of_mem_tokens {lexer : Lexer} {token : Token} (h : token ∈ lexer.tokens) :
    token.Genuine := by
  induction lexer using tokens.induct with
  | case1 lexer hnext =>
    rw [tokens_of_next?_none hnext] at h
    cases h
  | case2 lexer first after hnext ih =>
    rw [tokens_of_next?_some hnext] at h
    rcases List.mem_cons.1 h with rfl | hrest
    · obtain ⟨c, cs, -, hkind, htext, -⟩ := next?_eq_some hnext
      rw [Token.Genuine, hkind, htext, String.toList_ofList]
    · exact ih hrest

/-- Every token begins between the position of the lexer and the end of the text. -/
theorem position_of_mem_tokens {lexer : Lexer} {token : Token} (h : token ∈ lexer.tokens) :
    lexer.position ≤ token.position ∧ token.position < lexer.endPosition := by
  induction lexer using tokens.induct with
  | case1 lexer hnext =>
    rw [tokens_of_next?_none hnext] at h
    cases h
  | case2 lexer first after hnext ih =>
    rw [tokens_of_next?_some hnext] at h
    have hposition := position_of_next? hnext
    have hend := endPosition_of_next? hnext
    have hafter := position_le_endPosition after
    rcases List.mem_cons.1 h with rfl | hrest
    · omega
    · have hbetween := ih hrest
      omega

/-- The tokens stand in the order of their positions. -/
theorem pairwise_position_tokens (lexer : Lexer) :
    lexer.tokens.Pairwise fun token later => token.position < later.position := by
  induction lexer using tokens.induct with
  | case1 lexer hnext =>
    rw [tokens_of_next?_none hnext]
    exact .nil
  | case2 lexer first after hnext ih =>
    rw [tokens_of_next?_some hnext]
    refine .cons ?_ ih
    -- later tokens begin at or behind where the lexer stands after the first
    intro later hlater
    have hfirst := position_of_next? hnext
    have hbetween := position_of_mem_tokens hlater
    omega

end Lexer

/-- At a position of a text stands one token, with other tokens before and behind it. -/
structure StandsAt (text : String) (position : Nat) (before : List Token) (token : Token)
    (after : List Token) : Prop where
  tokenize_eq : tokenize text = before ++ token :: after
  position_eq : token.position = position
  position_ne : ∀ other ∈ before ++ after, other.position ≠ position

/-- A position belongs to one token of a text at most. -/
theorem standsAt_of_tokenize {text : String} {before after : List Token} {token : Token}
    (h : tokenize text = before ++ token :: after) :
    StandsAt text token.position before token after := by
  have horder : (before ++ token :: after).Pairwise
      fun token later => token.position < later.position := by
    rw [← h]
    exact Lexer.pairwise_position_tokens (Lexer.ofString text)
  rw [List.pairwise_append, List.pairwise_cons] at horder
  obtain ⟨-, ⟨hafter, -⟩, hbefore⟩ := horder
  refine ⟨h, rfl, ?_⟩
  intro other hother
  rcases List.mem_append.1 hother with hmem | hmem
  · exact Nat.ne_of_lt (hbefore other hmem token List.mem_cons_self)
  · exact Nat.ne_of_gt (hafter other hmem)

/-- A token of a text is genuine, and so are the tokens before it. -/
theorem genuine_of_tokenize {text : String} {before after : List Token} {token : Token}
    (h : tokenize text = before ++ token :: after) :
    token.Genuine ∧ ∀ other ∈ before, other.Genuine := by
  have hall : ∀ other ∈ before ++ token :: after, other.Genuine := by
    intro other hmem
    rw [← h] at hmem
    exact Lexer.genuine_of_mem_tokens hmem
  rw [List.forall_mem_append, List.forall_mem_cons] at hall
  exact ⟨hall.2.1, hall.1⟩

end ResourceQuery
