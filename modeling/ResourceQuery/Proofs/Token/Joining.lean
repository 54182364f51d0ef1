import ResourceQuery.Proofs.Token.Cut

/-!
# Texts put together

A text that stands further on has the same tokens, each of them further on. Where two texts stand
one behind the other and no run goes across, the tokens of both are those of the first and then
those of the second; blanks between them do no more than move the second.
-/

namespace ResourceQuery

open Lexer (Blanks EndsWord endsWord_mark next?_mark)
open Text (byteLength byteLength_append byteLength_nil)

/-! ## Tokens at other positions -/

/-- A token in another place, which depends on the one that it has. -/
def Token.moved (f : Nat → Nat) (token : Token) : Token :=
  { token with position := f token.position }

@[simp]
theorem Token.kind_moved (f : Nat → Nat) (token : Token) : (token.moved f).kind = token.kind := rfl

@[simp]
theorem Token.text_moved (f : Nat → Nat) (token : Token) : (token.moved f).text = token.text := rfl

theorem Token.moved_of_eq {f : Nat → Nat} {token : Token} (h : f token.position = token.position) :
    token.moved f = token := by
  rw [moved, h]

theorem Separate.moved {tokens : List Token} (h : Separate tokens) (f : Nat → Nat) :
    Separate (tokens.map (Token.moved f)) where
  mark_or_word := List.forall_mem_map.2 h.mark_or_word
  apart := (List.isChain_map _).2 h.apart
  hasKind := List.forall_mem_map.2 h.hasKind

theorem Cut.moved {cs : List Char} {position : Nat} {tokens : List Token}
    (h : Cut cs position tokens) (n : Nat) :
    Cut cs (position + n) (tokens.map (Token.moved (· + n))) := by
  induction h with
  | nil h => exact .nil h
  | @cons before after position token tokens hbefore hposition _ ih =>
    have hstop : (token.moved (· + n)).stop = token.stop + n := by
      simp only [Token.stop, Token.moved]
      omega
    refine @Cut.cons before after _ (token.moved (· + n)) _ hbefore ?_ ?_
    · simp only [Token.moved]
      omega
    · rw [hstop]
      exact ih

/-- A text that stands further on has the same tokens further on. -/
theorem Lexer.tokens_moved (cs : List Char) (position n : Nat) :
    tokens ⟨cs, position + n⟩ = (tokens ⟨cs, position⟩).map (Token.moved (· + n)) :=
  tokens_eq_of_cut ((cut_tokens ⟨cs, position⟩).moved n) ((separate_tokens _).moved _)

theorem tokens_eq_tokenize (text : String) (position : Nat) :
    Lexer.tokens ⟨text.toList, position⟩ = (tokenize text).map (Token.moved (· + position)) := by
  have hmoved := Lexer.tokens_moved text.toList 0 position
  rwa [Nat.zero_add] at hmoved

/-! ## One text behind the other -/

theorem Cut.append {xs ys : List Char} {position : Nat} {tokens later : List Token}
    (h : Cut xs position tokens) (h' : Cut ys (position + byteLength xs) later) :
    Cut (xs ++ ys) position (tokens ++ later) := by
  induction h with
  | nil hblank => exact h'.blanks hblank
  | @cons before after position token tokens hbefore hposition hrest ih =>
    have hlength : position + byteLength (before ++ (token.text.toList ++ after)) =
        token.stop + byteLength after := by
      simp only [byteLength_append, Token.stop]
      omega
    rw [hlength] at h'
    have hwhole := Cut.cons hbefore hposition (ih h')
    simpa using hwhole

/-- Where one list of tokens ends or the other begins, there is a mark. -/
def Meet (tokens later : List Token) : Prop :=
  ∀ last ∈ tokens.getLast?, ∀ first ∈ later.head?, last.IsMark ∨ first.IsMark

theorem Separate.append {tokens later : List Token} (h : Separate tokens) (h' : Separate later)
    (hmeet : Meet tokens later) : Separate (tokens ++ later) where
  mark_or_word := List.forall_mem_append.2 ⟨h.mark_or_word, h'.mark_or_word⟩
  apart := List.isChain_append.2 ⟨h.apart, h'.apart, hmeet⟩
  hasKind := List.forall_mem_append.2 ⟨h.hasKind, h'.hasKind⟩

namespace Lexer

/-- If a mark stands where two texts meet, they are cut into tokens apart from each other. -/
theorem tokens_append {xs ys : List Char} {position : Nat}
    (h : Meet (tokens ⟨xs, position⟩) (tokens ⟨ys, position + byteLength xs⟩)) :
    tokens ⟨xs ++ ys, position⟩ =
      tokens ⟨xs, position⟩ ++ tokens ⟨ys, position + byteLength xs⟩ := by
  have hcut := (cut_tokens ⟨xs, position⟩).append (cut_tokens ⟨ys, position + byteLength xs⟩)
  exact tokens_eq_of_cut hcut ((separate_tokens _).append (separate_tokens _) h)

theorem tokens_nil (position : Nat) : tokens ⟨[], position⟩ = [] :=
  tokens_of_next?_none rfl

theorem meet_of_endsWord {ys : List Char} (h : EndsWord ys) (tokens' : List Token)
    (position : Nat) : Meet tokens' (tokens ⟨ys, position⟩) :=
  fun _ _ first hfirst => .inr (isMark_head_of_endsWord h first hfirst)

/-- Before a mark or the end a text has the tokens that it has alone, but for where they are. -/
theorem spells_tokenize (text : String) :
    Spells text.toList fun spelt => ∃ f, spelt = (tokenize text).map (Token.moved f) := by
  intro after position hafter
  rw [tokens_append (meet_of_endsWord hafter _ _), tokens_eq_tokenize]
  exact ⟨_, ⟨_, rfl⟩, rfl⟩

/-- A text that ends with a mark ends with the token of that mark. -/
theorem isMark_last_of_mark {cs : List Char} (mark : Mark) (position : Nat) :
    ∀ last ∈ (tokens ⟨cs ++ [mark.char], position⟩).getLast?, last.IsMark := by
  have hmark := tokens_of_next?_some (next?_mark mark [] (position + byteLength cs))
  rw [tokens_append (meet_of_endsWord (endsWord_mark mark []) _ _), hmark, tokens_nil,
    List.getLast?_concat]
  intro last hlast
  cases hlast
  exact ⟨mark, String.toList_ofList⟩

end Lexer

/-- No run goes across from one text to another: one is empty, or a mark stands where they meet. -/
def Seam (xs ys : List Char) : Prop :=
  xs = [] ∨ ys = [] ∨ (∃ mark : Mark, xs.getLast? = some mark.char) ∨
    ∃ mark : Mark, ys.head? = some mark.char

theorem Seam.meet {xs ys : List Char} (h : Seam xs ys) (position position' : Nat) :
    Meet (Lexer.tokens ⟨xs, position⟩) (Lexer.tokens ⟨ys, position'⟩) := by
  rcases h with rfl | rfl | ⟨mark, hlast⟩ | ⟨mark, hfirst⟩
  · rw [Lexer.tokens_nil]
    intro last hlast
    cases hlast
  · rw [Lexer.tokens_nil]
    intro _ _ first hfirst
    cases hfirst
  · obtain ⟨before, rfl⟩ := List.getLast?_eq_some_iff.1 hlast
    exact fun last hlast _ _ => .inl (Lexer.isMark_last_of_mark mark position last hlast)
  · obtain ⟨after, rfl⟩ := List.head?_eq_some_iff.1 hfirst
    exact Lexer.meet_of_endsWord (endsWord_mark mark after) _ _

theorem Meet.moved {tokens later : List Token} (h : Meet tokens later) (f : Nat → Nat) :
    Meet tokens (later.map (Token.moved f)) := by
  intro last hlast first hfirst
  rw [List.head?_map] at hfirst
  obtain ⟨first', hfirst', rfl⟩ := Option.map_eq_some_iff.1 hfirst
  exact h last hlast first' hfirst'

/-! ## Blanks between two texts -/

/-- A position of a text after so many bytes have been put in at another. -/
def pushed (start n position : Nat) : Nat :=
  if position < start then position else position + n

theorem pushed_of_lt {start n position : Nat} (h : position < start) :
    pushed start n position = position := if_pos h

theorem pushed_of_le {start n position : Nat} (h : start ≤ position) :
    pushed start n position = position + n := if_neg (Nat.not_lt.2 h)

namespace Lexer

/-- Blanks where two texts meet push the tokens of the second back, and do nothing else. -/
theorem tokens_append_blanks {xs blanks ys : List Char} (hblanks : Blanks blanks)
    (hseam : Seam xs ys) (position : Nat) :
    tokens ⟨xs ++ (blanks ++ ys), position⟩ = (tokens ⟨xs ++ ys, position⟩).map
      (Token.moved (pushed (position + byteLength xs) (byteLength blanks))) := by
  have hmeet := hseam.meet position (position + byteLength xs)
  rw [tokens_append hmeet, List.map_append]
  have hbefore : (tokens ⟨xs, position⟩).map
      (Token.moved (pushed (position + byteLength xs) (byteLength blanks))) =
      tokens ⟨xs, position⟩ := by
    refine (List.map_congr_left fun token htoken => ?_).trans (List.map_id _)
    have hlt := (position_of_mem_tokens htoken).2
    exact Token.moved_of_eq (pushed_of_lt hlt)
  have hbehind : (tokens ⟨ys, position + byteLength xs⟩).map
      (Token.moved (pushed (position + byteLength xs) (byteLength blanks))) =
      tokens ⟨ys, position + byteLength xs + byteLength blanks⟩ := by
    rw [tokens_moved ys (position + byteLength xs)]
    refine List.map_congr_left fun token htoken => ?_
    have hle := (position_of_mem_tokens htoken).1
    rw [Token.moved, pushed_of_le hle, Token.moved]
  rw [hbefore, hbehind, ← tokens_blanks hblanks]
  refine tokens_append ?_
  rw [tokens_blanks hblanks, tokens_moved]
  exact hmeet.moved _

end Lexer

end ResourceQuery
