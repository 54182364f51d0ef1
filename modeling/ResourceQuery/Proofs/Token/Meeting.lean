import Mathlib
import ResourceQuery.Proofs.Token.Joining

/-!
# Where two texts meet

Two texts put together have the tokens of the first and then those of the second, unless a word goes
across from one to the other. Blanks where the texts meet do not count: what decides is the last
character before them and the first one behind them.
-/

namespace ResourceQuery

open Lexer (Blanks isBlank_mark)
open Text (byteLength trimEnd trimStart)

/-! ## Blanks at the ends -/

theorem trimEnd_append_of_blanks {blanks : List Char} (h : Blanks blanks) (cs : List Char) :
    trimEnd (cs ++ blanks) = trimEnd cs := by
  rw [trimEnd, List.reverse_append,
    List.dropWhile_append_of_pos fun c hc => h c (List.mem_reverse.1 hc), trimEnd]

/-- A text that ends with a mark has no blanks to be trimmed behind it. -/
theorem trimEnd_mark (cs : List Char) (mark : Mark) :
    trimEnd (cs ++ [mark.char]) = cs ++ [mark.char] := by
  apply Lexer.trimEnd_of_last
  rw [List.getLast?_concat]
  rintro _ ⟨⟩
  exact isBlank_mark mark

namespace Lexer

theorem tokens_blanks_behind {blanks : List Char} (h : Blanks blanks) (cs : List Char)
    (position : Nat) : tokens ⟨cs ++ blanks, position⟩ = tokens ⟨cs, position⟩ := by
  have hnone := tokens_of_blanks h (position + byteLength cs)
  have hmeet : Meet (tokens ⟨cs, position⟩) (tokens ⟨blanks, position + byteLength cs⟩) := by
    rw [hnone]
    intro _ _ first hfirst
    cases hfirst
  rw [tokens_append hmeet, hnone, List.append_nil]

theorem tokens_trimEnd (cs : List Char) (position : Nat) :
    tokens ⟨trimEnd cs, position⟩ = tokens ⟨cs, position⟩ := by
  obtain ⟨blanks, hblanks, hcs⟩ := trimEnd_append_blanks cs
  rw [← tokens_blanks_behind hblanks, hcs]

theorem tokens_trimStart (cs : List Char) (position : Nat) :
    ∃ position', tokens ⟨cs, position⟩ = tokens ⟨trimStart cs, position'⟩ := by
  have hblanks : Blanks (cs.takeWhile Text.isBlank) := List.all_eq_true.1 List.all_takeWhile
  have htokens := tokens_blanks hblanks (cs.dropWhile Text.isBlank) position
  rw [List.takeWhile_append_dropWhile] at htokens
  exact ⟨_, htokens⟩

end Lexer

/-- If no run goes across once the blanks between two texts are gone, their tokens are apart. -/
theorem Seam.meet_of_trimmed {xs ys : List Char} (h : Seam (trimEnd xs) (trimStart ys))
    (position position' : Nat) :
    Meet (Lexer.tokens ⟨xs, position⟩) (Lexer.tokens ⟨ys, position'⟩) := by
  obtain ⟨position'', hys⟩ := Lexer.tokens_trimStart ys position'
  rw [← Lexer.tokens_trimEnd xs, hys]
  exact h.meet position position''

/-- A mark is no blank, so a seam stays one when the blanks at it are gone. -/
theorem Seam.trimmed {xs ys : List Char} (h : Seam xs ys) :
    Seam (trimEnd xs) (trimStart ys) := by
  rcases h with rfl | rfl | ⟨mark, hlast⟩ | ⟨mark, hfirst⟩
  · exact .inl rfl
  · exact .inr (.inl rfl)
  · obtain ⟨before, rfl⟩ := List.getLast?_eq_some_iff.1 hlast
    rw [trimEnd_mark]
    exact .inr (.inr (.inl ⟨mark, hlast⟩))
  · obtain ⟨after, rfl⟩ := List.head?_eq_some_iff.1 hfirst
    rw [Lexer.trimStart_of_head (isBlank_mark mark)]
    exact .inr (.inr (.inr ⟨mark, hfirst⟩))

/-! ## The tokens where two texts meet -/

/-- Behind its last token a text has nothing but blanks. -/
theorem Cut.last {cs : List Char} {position : Nat} {tokens : List Token} {last : Token}
    (h : Cut cs position tokens) (hlast : tokens.getLast? = some last) :
    ∃ before blanks, Blanks blanks ∧ cs = before ++ last.text.toList ++ blanks := by
  induction h with
  | nil => cases hlast
  | @cons before after position token tokens hbefore hposition hrest ih =>
    cases hrest with
    | nil hblanks =>
      cases hlast
      exact ⟨before, after, hblanks, by simp⟩
    | cons hbetween hposition' hrest' =>
      obtain ⟨middle, blanks, hblanks, hafter⟩ := ih hlast
      refine ⟨before ++ (token.text.toList ++ middle), blanks, hblanks, ?_⟩
      rw [hafter]
      simp

/-- Before its first token a text has nothing but blanks. -/
theorem Cut.first {cs : List Char} {position : Nat} {tokens : List Token} {first : Token}
    (h : Cut cs position tokens) (hfirst : tokens.head? = some first) :
    ∃ blanks after, Blanks blanks ∧ cs = blanks ++ (first.text.toList ++ after) := by
  cases h with
  | nil => cases hfirst
  | @cons before after _ token _ hbefore =>
    cases hfirst
    exact ⟨before, after, hbefore, rfl⟩

/-- If the tokens of two texts are apart, no run goes across, whatever blanks are between. -/
theorem Meet.seam {xs ys : List Char} {position position' : Nat}
    (h : Meet (Lexer.tokens ⟨xs, position⟩) (Lexer.tokens ⟨ys, position'⟩)) :
    Seam (trimEnd xs) (trimStart ys) := by
  have hxs := Lexer.cut_tokens ⟨xs, position⟩
  have hys := Lexer.cut_tokens ⟨ys, position'⟩
  cases hlast : (Lexer.tokens ⟨xs, position⟩).getLast? with
  | none =>
    rw [List.getLast?_eq_none_iff] at hlast
    rw [hlast] at hxs
    cases hxs with
    | nil hblanks => exact .inl (List.rdropWhile_eq_nil_iff.2 hblanks)
  | some last =>
    cases hfirst : (Lexer.tokens ⟨ys, position'⟩).head? with
    | none =>
      rw [List.head?_eq_none_iff] at hfirst
      rw [hfirst] at hys
      cases hys with
      | nil hblanks => exact .inr (.inl (List.dropWhile_eq_nil_iff.2 hblanks))
    | some first =>
      -- both texts have tokens, and the one of them that is a mark stands at the seam
      obtain ⟨before, blanks, hblanks, rfl⟩ := hxs.last hlast
      obtain ⟨blanks', after, hblanks', rfl⟩ := hys.first hfirst
      rw [trimEnd_append_of_blanks hblanks, Lexer.trimStart_blanks hblanks']
      rcases h last hlast first hfirst with ⟨mark, hmark⟩ | ⟨mark, hmark⟩
      · rw [hmark, trimEnd_mark, Seam, List.getLast?_concat]
        exact .inr (.inr (.inl ⟨mark, rfl⟩))
      · rw [hmark, List.singleton_append, Lexer.trimStart_of_head (isBlank_mark mark)]
        exact .inr (.inr (.inr ⟨mark, rfl⟩))

/--
Two texts put together have the tokens of the first and then those of the second exactly if no run
goes across once the blanks between them are gone.
-/
theorem tokenize_append_iff (a b : String) :
    tokenize (a ++ b) = tokenize a ++ (tokenize b).map (Token.moved (· + byteLength a.toList)) ↔
      Seam (trimEnd a.toList) (trimStart b.toList) := by
  have hbehind := tokens_eq_tokenize b (byteLength a.toList)
  constructor
  · intro htokens
    have hseparate : Separate (tokenize (a ++ b)) := Lexer.separate_tokens _
    rw [htokens, ← hbehind] at hseparate
    obtain ⟨-, -, hmeet⟩ := List.isChain_append.1 hseparate.apart
    exact Meet.seam hmeet
  · intro hseam
    have happend := Lexer.tokens_append (hseam.meet_of_trimmed 0 (0 + byteLength a.toList))
    rw [Nat.zero_add, hbehind] at happend
    rw [tokenize, Lexer.ofString, String.toList_append]
    exact happend

/--
Cutting distributes over texts put together at a mark: their tokens are those of the first text and
then those of the second, as many bytes further on as the first text has.
-/
theorem tokenize_append (a b : String) (hseam : Seam a.toList b.toList) :
    tokenize (a ++ b) = tokenize a ++ (tokenize b).map (Token.moved (· + byteLength a.toList)) :=
  (tokenize_append_iff a b).2 hseam.trimmed

/-- Blanks on both sides of a comma, and characters of two and of three bytes before it. -/
theorem tokens_met_at_comma :
    tokenize ("in(é\u3000" ++ ",[x y, 1 ])") =
      tokenize "in(é\u3000" ++ (tokenize ",[x y, 1 ])").map (Token.moved (· + 8)) ∧
    (tokenize ("in(é\u3000" ++ ",[x y, 1 ])")).map Token.position =
      [0, 2, 3, 8, 9, 10, 13, 15, 17, 18] := by
  have hseam : Seam "in(é\u3000".toList ",[x y, 1 ])".toList := .inr (.inr (.inr ⟨.comma, rfl⟩))
  have hlength : byteLength "in(é\u3000".toList = 8 := by cbv
  have happend := tokenize_append _ _ hseam
  rw [hlength] at happend
  refine ⟨happend, ?_⟩
  rw [happend]
  cbv

end ResourceQuery
