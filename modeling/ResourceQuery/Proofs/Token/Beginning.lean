import ResourceQuery.Proofs.Token.Cut

/-!
# The beginning of a text

A text that is cut short just before one of its tokens keeps the tokens before that one as they
are, and nothing else.
-/

namespace ResourceQuery

open Lexer (Blanks)
open Text (byteLength byteLength_append byteLength_cons)

namespace Text

/-- The characters of a text that begin before an offset in bytes. -/
def upTo : Nat → List Char → List Char
  | 0, _ => []
  | _, [] => []
  | n + 1, c :: cs => c :: upTo (n + 1 - c.utf8Size) cs

theorem upTo_byteLength (cs ds : List Char) : upTo (byteLength cs) (cs ++ ds) = cs := by
  induction cs with
  | nil => cases ds <;> rfl
  | cons c cs ih =>
    have hpos := Char.utf8Size_pos c
    obtain ⟨n, hn⟩ : ∃ n, byteLength (c :: cs) = n + 1 :=
      ⟨c.utf8Size + byteLength cs - 1, by rw [byteLength_cons]; omega⟩
    have hrest : n + 1 - c.utf8Size = byteLength cs := by
      rw [← hn, byteLength_cons]
      omega
    rw [hn, List.cons_append, upTo, hrest, ih]

end Text

/-- A text cut short at an offset in bytes. -/
def cutShort (text : String) (position : Nat) : String :=
  String.ofList (Text.upTo position text.toList)

/-- What a layout has before one of its tokens is a layout of the tokens before that one. -/
theorem Cut.beginning {cs : List Char} {position : Nat} {before after : List Token} {token : Token}
    (h : Cut cs position (before ++ token :: after)) :
    ∃ front back, cs = front ++ back ∧ token.position = position + byteLength front ∧
      Cut front position before := by
  induction before generalizing cs position with
  | nil =>
    cases h with
    | @cons blanks _ _ _ _ hblanks hposition _ => exact ⟨blanks, _, rfl, hposition, .nil hblanks⟩
  | cons first before ih =>
    cases h with
    | @cons blanks _ _ _ _ hblanks hposition hrest =>
      obtain ⟨front, back, rfl, htoken, hfront⟩ := ih hrest
      refine ⟨blanks ++ (first.text.toList ++ front), back, by simp, ?_,
        .cons hblanks hposition hfront⟩
      rw [htoken, Token.stop, hposition, byteLength_append, byteLength_append]
      omega

theorem Separate.beginning {before after : List Token} (h : Separate (before ++ after)) :
    Separate before where
  mark_or_word := (List.forall_mem_append.1 h.mark_or_word).1
  apart := (List.isChain_append.1 h.apart).1
  hasKind := (List.forall_mem_append.1 h.hasKind).1

/-- A text cut short before a token ends there, and its tokens are those before that token. -/
theorem tokenize_cutShort {text : String} {before after : List Token} {token : Token}
    (h : tokenize text = before ++ token :: after) :
    tokenize (cutShort text token.position) = before ∧
      byteLength (cutShort text token.position).toList = token.position := by
  have hcut : Cut text.toList 0 (before ++ token :: after) := by
    rw [← h]
    exact Lexer.cut_tokens (Lexer.ofString text)
  have hseparate : Separate (before ++ token :: after) := by
    rw [← h]
    exact Lexer.separate_tokens (Lexer.ofString text)
  obtain ⟨front, back, htext, hposition, hfront⟩ := hcut.beginning
  rw [Nat.zero_add] at hposition
  have hshort : (cutShort text token.position).toList = front := by
    rw [cutShort, String.toList_ofList, htext, hposition, Text.upTo_byteLength]
  rw [tokenize, Lexer.ofString, hshort]
  exact ⟨Lexer.tokens_eq_of_cut hfront hseparate.beginning, hposition.symm⟩

end ResourceQuery
