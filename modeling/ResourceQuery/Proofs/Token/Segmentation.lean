import ResourceQuery.Proofs.Token.Cut

/-!
# Segmentations

What it takes to be the tokens of a text, said of the list as a whole and not of how it is found:
nothing but blanks is left out, nothing overlaps, each mark is alone, and words are as long as they
can be. Exactly one list of tokens is so, and it is the one that cutting the text gives.
-/

namespace ResourceQuery

open Lexer (Blanks Word isBlank_mark)
open Text (byteLength byteLength_append byteLength_cons byteLength_nil)

/-- A token is a piece of a text that begins at a position, and says where it begins itself. -/
def Token.PlacedIn (token : Token) (cs : List Char) (start : Nat) : Prop :=
  ∃ before after, cs = before ++ (token.text.toList ++ after) ∧
    token.position = start + byteLength before

theorem byteLength_eq_utf8ByteSize (cs : List Char) :
    byteLength cs = (String.ofList cs).utf8ByteSize := by
  induction cs with
  | nil => rfl
  | cons c cs ih =>
    rw [byteLength_cons, String.ofList_cons, String.utf8ByteSize_append,
      String.utf8ByteSize_singleton, ih]

/-- In terms of strings, the position is the number of bytes of what stands before the token. -/
theorem Token.placedIn_iff {token : Token} {text : String} :
    token.PlacedIn text.toList 0 ↔ ∃ before after : String,
      text = before ++ (token.text ++ after) ∧ token.position = before.utf8ByteSize := by
  constructor
  · rintro ⟨before, after, htext, hposition⟩
    refine ⟨String.ofList before, String.ofList after, ?_, ?_⟩
    · rw [← String.toList_inj]
      simpa using htext
    · rw [hposition, byteLength_eq_utf8ByteSize, Nat.zero_add]
  · rintro ⟨before, after, rfl, hposition⟩
    refine ⟨before.toList, after.toList, by simp, ?_⟩
    rw [hposition, byteLength_eq_utf8ByteSize, String.ofList_toList, Nat.zero_add]

/-- Whether a byte lies within a token. -/
def Token.Covers (token : Token) (byte : Nat) : Prop :=
  token.position ≤ byte ∧ byte < token.stop

/--
The tokens of a text whose first byte is at a position. A character of the text is given by the
characters before it, whose bytes it stands behind.
-/
structure Segmentation (cs : List Char) (start : Nat) (tokens : List Token) : Prop where
  /-- Each token is what stands at its position, from one character boundary to another. -/
  placed : ∀ token ∈ tokens, token.PlacedIn cs start
  ne_nil : ∀ token ∈ tokens, token.text.toList ≠ []
  /-- The tokens come in order and do not overlap. -/
  ordered : tokens.Pairwise fun token later =>
    token.position < later.position ∧ token.stop ≤ later.position
  /-- What lies outside of all tokens is blank. -/
  blank_outside : ∀ before c after, cs = before ++ c :: after →
    (∀ token ∈ tokens, ¬token.Covers (start + byteLength before)) → Text.isBlank c = true
  /-- Each mark is a token. -/
  mark_alone : ∀ before after, ∀ mark : Mark, cs = before ++ mark.char :: after →
    ∃ token ∈ tokens, token.text.toList = [mark.char] ∧
      token.position = start + byteLength before
  /-- Any other token holds no mark, and neither begins nor ends with a blank. -/
  mark_or_word : ∀ token ∈ tokens, token.IsMark ∨ Word token.text.toList
  /-- Of two neighbours one at least is a mark. -/
  apart : tokens.IsChain fun token next => token.IsMark ∨ next.IsMark
  /-- The text of a token decides its kind. -/
  hasKind : ∀ token ∈ tokens, HasKind token.text.toList token.kind

theorem Segmentation.separate {cs : List Char} {start : Nat} {tokens : List Token}
    (h : Segmentation cs start tokens) : Separate tokens :=
  ⟨h.mark_or_word, h.apart, h.hasKind⟩

/-! ## A layout is a segmentation -/

theorem Separate.ne_nil {tokens : List Token} (h : Separate tokens) {token : Token}
    (htoken : token ∈ tokens) : token.text.toList ≠ [] := by
  rcases h.mark_or_word token htoken with ⟨mark, hmark⟩ | hword
  · rw [hmark]
    exact List.cons_ne_nil _ _
  · exact hword.ne_nil

theorem byteLength_pos {cs : List Char} (h : cs ≠ []) : 0 < byteLength cs := by
  cases cs with
  | nil => exact absurd rfl h
  | cons c cs =>
    have hc := Char.utf8Size_pos c
    rw [byteLength_cons]
    omega

theorem Cut.placedIn {cs : List Char} {start : Nat} {tokens : List Token}
    (h : Cut cs start tokens) : ∀ token ∈ tokens, token.PlacedIn cs start := by
  induction h with
  | nil => exact List.forall_mem_nil _
  | @cons before after position token tokens hbefore hposition hrest ih =>
    refine List.forall_mem_cons.2 ⟨⟨before, after, rfl, hposition⟩, fun later hlater => ?_⟩
    -- a later token is placed in what follows the first, hence in the whole
    obtain ⟨between, after', rfl, hlater⟩ := ih later hlater
    refine ⟨before ++ (token.text.toList ++ between), after', by simp, ?_⟩
    rw [hlater, Token.stop, hposition, byteLength_append, byteLength_append]
    omega

theorem Cut.start_le {cs : List Char} {start : Nat} {tokens : List Token}
    (h : Cut cs start tokens) : ∀ token ∈ tokens, start ≤ token.position := by
  intro token htoken
  obtain ⟨before, after, -, hposition⟩ := h.placedIn token htoken
  omega

theorem Cut.ordered {cs : List Char} {start : Nat} {tokens : List Token}
    (h : Cut cs start tokens) (hseparate : Separate tokens) :
    tokens.Pairwise fun token later =>
      token.position < later.position ∧ token.stop ≤ later.position := by
  induction h with
  | nil => exact .nil
  | @cons before after position token tokens hbefore hposition hrest ih =>
    refine .cons (fun later hlater => ?_) (ih hseparate.tail)
    have hstop := hrest.start_le later hlater
    have hpos := byteLength_pos (hseparate.ne_nil List.mem_cons_self)
    have hstop' : token.stop = token.position + byteLength token.text.toList := rfl
    omega

/-- An entry of two lists put together is one of the first or one of the second. -/
theorem split_append {α : Type} {xs ys before after : List α} {c : α}
    (h : xs ++ ys = before ++ c :: after) :
    (∃ back, xs = before ++ c :: back) ∨
      ∃ front, before = xs ++ front ∧ ys = front ++ c :: after := by
  rcases List.append_eq_append_iff.1 h with ⟨front, hbefore, hys⟩ | ⟨back, hxs, hcons⟩
  · exact .inr ⟨front, hbefore, hys⟩
  · cases back with
    | nil => exact .inr ⟨[], by simpa using hxs.symm, hcons.symm⟩
    | cons d back =>
      cases hcons
      exact .inl ⟨back, hxs⟩

/-- A character that is not blank is a character of some token. -/
theorem Cut.exists_token {cs : List Char} {start : Nat} {tokens : List Token}
    (h : Cut cs start tokens) {before after : List Char} {c : Char}
    (hcs : cs = before ++ c :: after) (hc : Text.isBlank c = false) :
    ∃ token ∈ tokens, ∃ front back, token.text.toList = front ++ c :: back ∧
      start + byteLength before = token.position + byteLength front := by
  have hnot : ∀ blanks front back, Blanks blanks → blanks ≠ front ++ c :: back := by
    rintro blanks front back hblanks rfl
    rw [hblanks c (by simp)] at hc
    cases hc
  induction h generalizing before with
  | nil hblanks => exact absurd hcs (hnot _ _ _ hblanks)
  | @cons blanks rest position token tokens hblanks hposition hrest ih =>
    -- the character stands in the blanks, in the token, or in what follows it
    rcases split_append hcs with ⟨back, hback⟩ | ⟨front, rfl, hfront⟩
    · exact absurd hback (hnot _ _ _ hblanks)
    rcases split_append hfront with ⟨back, hback⟩ | ⟨behind, rfl, hbehind⟩
    · refine ⟨token, List.mem_cons_self, front, back, hback, ?_⟩
      rw [hposition, byteLength_append, Nat.add_assoc]
    · obtain ⟨later, hlater, front, back, htext, hfront⟩ := ih hbehind
      refine ⟨later, List.mem_cons_of_mem _ hlater, front, back, htext, ?_⟩
      rw [← hfront, Token.stop, hposition, byteLength_append, byteLength_append]
      omega

theorem Cut.segmentation {cs : List Char} {start : Nat} {tokens : List Token}
    (h : Cut cs start tokens) (hseparate : Separate tokens) : Segmentation cs start tokens where
  placed := h.placedIn
  ne_nil := fun _ => hseparate.ne_nil
  ordered := h.ordered hseparate
  blank_outside := by
    intro before c after hcs houtside
    rw [← Bool.not_eq_false]
    intro hc
    obtain ⟨token, htoken, front, back, htext, hbefore⟩ := h.exists_token hcs hc
    refine houtside token htoken ?_
    have hpos := Char.utf8Size_pos c
    rw [Token.Covers, Token.stop, htext, hbefore, byteLength_append, byteLength_cons]
    omega
  mark_alone := by
    intro before after mark hcs
    obtain ⟨token, htoken, front, back, htext, hbefore⟩ := h.exists_token hcs (isBlank_mark mark)
    refine ⟨token, htoken, ?_⟩
    -- a token that holds a mark is no word, so it is the mark
    rcases hseparate.mark_or_word token htoken with ⟨mark', hmark'⟩ | hword
    · rw [hmark'] at htext ⊢
      cases front with
      | nil =>
        obtain ⟨hchar, -⟩ := List.cons.inj htext
        rw [hchar, hbefore]
        exact ⟨rfl, rfl⟩
      | cons d front => simp at htext
    · have hmark := hword.no_mark mark.char (by rw [htext]; simp)
      rw [Mark.isMark_iff.2 ⟨mark, rfl⟩] at hmark
      cases hmark
  mark_or_word := hseparate.mark_or_word
  apart := hseparate.apart
  hasKind := hseparate.hasKind

/-! ## A segmentation is a layout -/

/-- Of two beginnings of a text the one with fewer bytes begins the other. -/
theorem append_of_byteLength_le {before before' rest rest' : List Char}
    (h : before ++ rest = before' ++ rest') (hle : byteLength before ≤ byteLength before') :
    ∃ between, before' = before ++ between ∧ rest = between ++ rest' := by
  rcases List.append_eq_append_iff.1 h with ⟨between, hbefore', hrest⟩ | ⟨between, hbefore, hrest'⟩
  · exact ⟨between, hbefore', hrest⟩
  · have hnil : between = [] := by
      by_contra hne
      have hpos := byteLength_pos hne
      rw [hbefore, byteLength_append] at hle
      omega
    subst hnil
    exact ⟨[], by simpa using hbefore.symm, by simpa using hrest'.symm⟩

theorem cut_of_placed {cs : List Char} {start : Nat} {tokens : List Token}
    (hplaced : ∀ token ∈ tokens, token.PlacedIn cs start)
    (hordered : tokens.Pairwise fun token later =>
      token.position < later.position ∧ token.stop ≤ later.position)
    (hblank : ∀ before c after, cs = before ++ c :: after →
      (∀ token ∈ tokens, ¬token.Covers (start + byteLength before)) → Text.isBlank c = true) :
    Cut cs start tokens := by
  induction tokens generalizing cs start with
  | nil =>
    refine .nil fun c hc => ?_
    obtain ⟨before, after, rfl⟩ := List.append_of_mem hc
    exact hblank before c after rfl (List.forall_mem_nil _)
  | cons token tokens ih =>
    obtain ⟨hlater, hordered⟩ := List.pairwise_cons.1 hordered
    obtain ⟨⟨before, after, rfl, hposition⟩, hplaced⟩ := List.forall_mem_cons.1 hplaced
    have hfirst : ∀ other ∈ token :: tokens, token.position ≤ other.position := by
      refine List.forall_mem_cons.2 ⟨Nat.le_refl _, fun later hmem => ?_⟩
      exact Nat.le_of_lt (hlater later hmem).1
    refine .cons (fun c hc => ?_) hposition (ih (fun later hmem => ?_) hordered ?_)
    · -- a character before the first token is before all of them
      obtain ⟨front, back, rfl⟩ := List.append_of_mem hc
      refine hblank front c (back ++ (token.text.toList ++ after)) (by simp) fun other hmem => ?_
      have hle := hfirst other hmem
      have hpos := Char.utf8Size_pos c
      rw [byteLength_append, byteLength_cons] at hposition
      rintro ⟨hcovers, -⟩
      omega
    · obtain ⟨before', after', happend, hposition'⟩ := hplaced later hmem
      have hstop := (hlater later hmem).2
      rw [← List.append_assoc] at happend
      obtain ⟨between, rfl, hafter⟩ := append_of_byteLength_le happend (by
        rw [Token.stop] at hstop
        rw [byteLength_append]
        omega)
      refine ⟨between, after', hafter, ?_⟩
      rw [hposition', Token.stop, hposition, byteLength_append, byteLength_append]
      omega
    · intro before' c after' hafter houtside
      have hbyte : start + byteLength (before ++ (token.text.toList ++ before')) =
          token.stop + byteLength before' := by
        rw [Token.stop, hposition, byteLength_append, byteLength_append]
        omega
      refine hblank (before ++ (token.text.toList ++ before')) c after' (by simp [hafter]) ?_
      rw [hbyte]
      refine List.forall_mem_cons.2 ⟨?_, houtside⟩
      rintro ⟨-, hcovers⟩
      omega

theorem segmentation_tokens (lexer : Lexer) :
    Segmentation lexer.rest lexer.position lexer.tokens :=
  (Lexer.cut_tokens lexer).segmentation (Lexer.separate_tokens lexer)

theorem Segmentation.tokens_eq {lexer : Lexer} {tokens : List Token}
    (h : Segmentation lexer.rest lexer.position tokens) : lexer.tokens = tokens :=
  Lexer.tokens_eq_of_cut (cut_of_placed h.placed h.ordered h.blank_outside) h.separate

/-- A text has one segmentation, its tokens. -/
theorem eq_tokenize_iff_segmentation (text : String) (tokens : List Token) :
    tokens = tokenize text ↔ Segmentation text.toList 0 tokens := by
  constructor
  · rintro rfl
    exact segmentation_tokens (Lexer.ofString text)
  · intro h
    exact (Segmentation.tokens_eq h).symm

end ResourceQuery
