import Mathlib.Data.List.Chain
import ResourceQuery.Proofs.Token.Classification
import ResourceQuery.Proofs.Token.Order

/-!
# Where a text is cut

A text is its tokens with blanks around them: `Cut` lays them out from the left to the right. The
tokens of a text are such a layout of it, made of marks and words of which no two words are
neighbours, and any layout of that form is the one that cutting the text gives.
-/

namespace ResourceQuery

open Lexer (Blanks EndsWord Word)
open Text (byteLength byteLength_append)

/-- A token that is a mark. -/
def Token.IsMark (token : Token) : Prop :=
  ∃ mark : Mark, token.text.toList = [mark.char]

/-- The position behind a token. -/
def Token.stop (token : Token) : Nat :=
  token.position + byteLength token.text.toList

/-- A text at a position is its tokens in their order, with blanks around them. -/
inductive Cut : List Char → Nat → List Token → Prop
  | nil {cs : List Char} {position : Nat} (h : Blanks cs) : Cut cs position []
  | cons {before after : List Char} {position : Nat} {token : Token} {tokens : List Token}
      (hbefore : Blanks before) (hposition : token.position = position + byteLength before)
      (hrest : Cut after token.stop tokens) :
      Cut (before ++ (token.text.toList ++ after)) position (token :: tokens)

/--
Tokens as a text is cut into them: each is a mark or a word, of two neighbours one at least is a
mark, and the kind of each is the one that its text has.
-/
structure Separate (tokens : List Token) : Prop where
  mark_or_word : ∀ token ∈ tokens, token.IsMark ∨ Word token.text.toList
  apart : tokens.IsChain fun token next => token.IsMark ∨ next.IsMark
  hasKind : ∀ token ∈ tokens, HasKind token.text.toList token.kind

theorem Separate.tail {token : Token} {tokens : List Token} (h : Separate (token :: tokens)) :
    Separate tokens where
  mark_or_word := fun other hother => h.mark_or_word other (List.mem_cons_of_mem _ hother)
  apart := h.apart.tail
  hasKind := fun other hother => h.hasKind other (List.mem_cons_of_mem _ hother)

theorem Separate.cons {token : Token} {tokens : List Token}
    (hform : token.IsMark ∨ Word token.text.toList)
    (hnext : ∀ next ∈ tokens.head?, token.IsMark ∨ next.IsMark)
    (hkind : HasKind token.text.toList token.kind) (hrest : Separate tokens) :
    Separate (token :: tokens) where
  mark_or_word := List.forall_mem_cons.2 ⟨hform, hrest.mark_or_word⟩
  apart := hrest.apart.cons hnext
  hasKind := List.forall_mem_cons.2 ⟨hkind, hrest.hasKind⟩

/-! ## Blanks in front -/

/-- Blanks in front of a layout belong to it. -/
theorem Cut.blanks {blanks cs : List Char} {position : Nat} {tokens : List Token}
    (hblanks : Blanks blanks) (h : Cut cs (position + byteLength blanks) tokens) :
    Cut (blanks ++ cs) position tokens := by
  cases h with
  | nil h => exact .nil (hblanks.append h)
  | cons hbefore hposition hrest =>
    rw [← List.append_assoc]
    refine .cons (hblanks.append hbefore) ?_ hrest
    rw [hposition, byteLength_append, Nat.add_assoc]

namespace Lexer

theorem trimStart_blanks {blanks : List Char} (h : Blanks blanks) (cs : List Char) :
    Text.trimStart (blanks ++ cs) = Text.trimStart cs :=
  List.dropWhile_append_of_pos h

theorem next?_blanks {blanks : List Char} (h : Blanks blanks) (cs : List Char) (position : Nat) :
    next? ⟨blanks ++ cs, position⟩ = next? ⟨cs, position + byteLength blanks⟩ := by
  unfold next?
  rw [trimStart_blanks h, List.takeWhile_append_of_pos h, byteLength_append, Nat.add_assoc]

/-- Blanks in front of a text move its tokens and change nothing else. -/
theorem tokens_blanks {blanks : List Char} (h : Blanks blanks) (cs : List Char) (position : Nat) :
    tokens ⟨blanks ++ cs, position⟩ = tokens ⟨cs, position + byteLength blanks⟩ := by
  have hnext := next?_blanks h cs position
  cases hcut : next? ⟨cs, position + byteLength blanks⟩ with
  | none =>
    rw [hcut] at hnext
    rw [tokens_of_next?_none hcut, tokens_of_next?_none hnext]
  | some first =>
    rw [hcut] at hnext
    rw [tokens_of_next?_some hcut, tokens_of_next?_some hnext]

theorem tokens_of_blanks {cs : List Char} (h : Blanks cs) (position : Nat) :
    tokens ⟨cs, position⟩ = [] := by
  have htrim : Text.trimStart cs = [] := List.dropWhile_eq_nil_iff.2 h
  apply tokens_of_next?_none
  unfold next?
  rw [htrim]

/-! ## The tokens of a text are a layout of it -/

/-- What trimming drops at the end of a text is blank. -/
theorem trimEnd_append_blanks (cs : List Char) :
    ∃ blanks, Blanks blanks ∧ Text.trimEnd cs ++ blanks = cs :=
  ⟨cs.rtakeWhile Text.isBlank, fun _ => List.mem_rtakeWhile_imp,
    List.rdropWhile_append_rtakeWhile⟩

theorem blanks_of_next?_none {lexer : Lexer} (h : lexer.next? = none) : Blanks lexer.rest := by
  unfold next? at h
  split at h
  next hrest => exact List.dropWhile_eq_nil_iff.1 hrest
  next => cases h

theorem cut_tokens (lexer : Lexer) : Cut lexer.rest lexer.position lexer.tokens := by
  induction lexer using tokens.induct with
  | case1 lexer hnext =>
    rw [tokens_of_next?_none hnext]
    exact .nil (blanks_of_next?_none hnext)
  | case2 lexer token after hnext ih =>
    rw [tokens_of_next?_some hnext]
    obtain ⟨c, cs, hrest, -, htext, hposition, hafter, hafter'⟩ := next?_eq_some hnext
    obtain ⟨blanks, hblanks, hpiece⟩ := trimEnd_append_blanks (piece c cs)
    have htext' : token.text.toList = Text.trimEnd (piece c cs) := by
      rw [htext, String.toList_ofList]
    -- the blanks behind the token belong to the layout of what follows
    have hbehind : Cut (blanks ++ after.rest) token.stop after.tokens := by
      refine Cut.blanks hblanks ?_
      rw [Token.stop, htext', Nat.add_assoc, ← byteLength_append, hpiece, ← hafter']
      exact ih
    have hwhole : lexer.rest = lexer.rest.takeWhile Text.isBlank ++
        (token.text.toList ++ (blanks ++ after.rest)) := by
      rw [htext', ← List.append_assoc (Text.trimEnd _), hpiece, hafter, piece_append_afterPiece,
        ← hrest]
      exact List.takeWhile_append_dropWhile.symm
    rw [hwhole]
    refine .cons (fun c hc => ?_) hposition hbehind
    exact List.all_eq_true.1 List.all_takeWhile c hc

/-! ## The tokens of a text are marks and words -/

/-- A run that does not begin with a blank is a word without the blanks at its end. -/
theorem word_trimEnd {c : Char} {cs : List Char} (hblank : Text.isBlank c = false)
    (hmark : ∀ d ∈ c :: cs, Mark.isMark d = false) : Word (Text.trimEnd (c :: cs)) := by
  obtain ⟨blanks, hblanks, happend⟩ := trimEnd_append_blanks (c :: cs)
  have hne : Text.trimEnd (c :: cs) ≠ [] := by
    intro hnil
    have hall := List.rdropWhile_eq_nil_iff.1 hnil c List.mem_cons_self
    rw [hblank] at hall
    cases hall
  refine ⟨hne, ?_, ?_, ?_⟩
  · intro d hd
    exact hmark d (by rw [← happend]; exact List.mem_append_left _ hd)
  · intro d hd
    have hhead : (c :: cs).head? = some d := by
      rw [← happend, List.head?_append_of_ne_nil _ hne]
      exact hd
    cases hhead
    exact hblank
  · intro d hd
    have hlast := List.rdropWhile_last_not Text.isBlank (c :: cs) hne
    rw [List.getLast?_eq_getLast_of_ne_nil hne] at hd
    cases hd
    exact Bool.eq_false_iff.2 hlast

theorem head_dropWhile {p : Char → Bool} {cs : List Char} :
    ∀ c ∈ (cs.dropWhile p).head?, p c = false := by
  intro c hc
  have hhead := List.head?_dropWhile_not p cs
  rw [hc] at hhead
  exact hhead

/-- A token is a mark, or a word that a mark or the end follows but for blanks. -/
theorem mark_or_word_of_next? {lexer after : Lexer} {token : Token}
    (h : lexer.next? = some (token, after)) :
    token.IsMark ∨ Word token.text.toList ∧ EndsWord after.rest := by
  obtain ⟨c, cs, hrest, -, htext, -, hafter, -⟩ := next?_eq_some h
  have hblank : Text.isBlank c = false := head_dropWhile c (congrArg List.head? hrest)
  rw [Token.IsMark, htext, String.toList_ofList, hafter]
  unfold piece afterPiece
  by_cases hmark : Mark.isMark c = true
  · obtain ⟨mark, rfl⟩ := Mark.isMark_iff.1 hmark
    rw [if_pos hmark]
    exact .inl ⟨mark, by cases mark <;> decide⟩
  · rw [if_neg hmark, if_neg hmark]
    refine .inr ⟨word_trimEnd hblank ?_, fun d hd => ?_⟩
    · refine List.forall_mem_cons.2 ⟨Bool.eq_false_iff.2 hmark, fun d hd => ?_⟩
      simpa using List.all_eq_true.1 List.all_takeWhile d hd
    · simpa using head_dropWhile d hd

/-- Where no word can go on, the first token is a mark. -/
theorem isMark_head_of_endsWord {cs : List Char} {position : Nat} (h : EndsWord cs) :
    ∀ token ∈ (tokens ⟨cs, position⟩).head?, token.IsMark := by
  cases cs with
  | nil =>
    rw [tokens_of_next?_none rfl]
    intro token htoken
    cases htoken
  | cons c cs =>
    obtain ⟨mark, rfl⟩ := Mark.isMark_iff.1 (h c rfl)
    rw [tokens_of_next?_some (next?_mark mark cs position)]
    intro token htoken
    cases htoken
    exact ⟨mark, String.toList_ofList⟩

theorem separate_tokens (lexer : Lexer) : Separate lexer.tokens := by
  induction lexer using tokens.induct with
  | case1 lexer hnext =>
    rw [tokens_of_next?_none hnext]
    exact ⟨List.forall_mem_nil _, .nil, List.forall_mem_nil _⟩
  | case2 lexer token after hnext ih =>
    have hmem : token ∈ lexer.tokens := by
      rw [tokens_of_next?_some hnext]
      exact List.mem_cons_self
    have hkind : HasKind token.text.toList token.kind :=
      hasKind_iff.2 (genuine_of_mem_tokens hmem).symm
    rw [tokens_of_next?_some hnext]
    rcases mark_or_word_of_next? hnext with hmark | ⟨hword, hends⟩
    · exact ih.cons (.inl hmark) (fun _ _ => .inl hmark) hkind
    · exact ih.cons (.inr hword) (fun next h => .inr (isMark_head_of_endsWord hends next h)) hkind

/-! ## A layout of marks and words gives the tokens -/

/-- Behind a word a layout goes on with blanks, and then with a mark or the end. -/
theorem endsWord_of_cut {cs : List Char} {position : Nat} {tokens : List Token}
    (h : Cut cs position tokens) (hhead : ∀ token ∈ tokens.head?, token.IsMark) :
    ∃ blanks after, Blanks blanks ∧ EndsWord after ∧ cs = blanks ++ after := by
  cases h with
  | nil h => exact ⟨cs, [], h, endsWord_nil, (List.append_nil cs).symm⟩
  | @cons before after _ token tokens hbefore =>
    obtain ⟨mark, hmark⟩ := hhead token rfl
    refine ⟨before, _, hbefore, ?_, rfl⟩
    rw [hmark]
    exact endsWord_mark mark after

theorem token_eq {token : Token} {cs : List Char} (htext : token.text.toList = cs)
    (hkind : HasKind cs token.kind) :
    (⟨Kind.ofChars cs, String.ofList cs, token.position⟩ : Token) = token := by
  rw [hkind.ofChars_eq, ← htext, String.ofList_toList]

/-- A layout of marks and words is the one that cutting the text gives. -/
theorem tokens_eq_of_cut {cs : List Char} {position : Nat} {laid : List Token}
    (hcut : Cut cs position laid) (hseparate : Separate laid) :
    tokens ⟨cs, position⟩ = laid := by
  -- along the layout: its first token is the next one, and what is left is laid out in the same way
  induction hcut with
  | nil h => exact tokens_of_blanks h _
  | @cons before after position token laid hbefore hposition hrest ih =>
    have hlaid := ih hseparate.tail
    have hkind := hseparate.hasKind token List.mem_cons_self
    obtain ⟨hneighbour, -⟩ := List.isChain_cons.1 hseparate.apart
    rw [tokens_blanks hbefore, ← hposition]
    rcases hseparate.mark_or_word token List.mem_cons_self with ⟨mark, hmark⟩ | hword
    · have hnext := next?_mark mark after token.position
      rw [hmark] at hkind
      rw [← (HasKind.mark mark).ofChars_eq, token_eq hmark hkind] at hnext
      rw [hmark]
      rw [Token.stop, hmark] at hlaid
      exact (tokens_of_next?_some hnext).trans (congrArg (token :: ·) hlaid)
    · have hhead : ∀ next ∈ laid.head?, next.IsMark := by
        intro next hnext
        refine (hneighbour next hnext).resolve_left ?_
        rintro ⟨mark, hmark⟩
        exact hword.ne_mark mark hmark
      obtain ⟨blanks, rest, hblanks, hends, rfl⟩ := endsWord_of_cut hrest hhead
      have hnext := next?_word hword hblanks hends token.position
      rw [token_eq rfl hkind, byteLength_append, ← Nat.add_assoc] at hnext
      rw [tokens_blanks hblanks] at hlaid
      exact (tokens_of_next?_some hnext).trans (congrArg (token :: ·) hlaid)

end Lexer

end ResourceQuery
