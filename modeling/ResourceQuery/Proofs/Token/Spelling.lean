import Mathlib.Data.List.DropRight
import ResourceQuery.Token.Lexer

/-!
# Spelling tokens

A word without marks in it and without blanks at its ends is cut off as one token wherever a mark
or the end of the text follows, and a mark is a token wherever it stands. So a text put together
from words with marks between them is cut into just these.
-/

namespace ResourceQuery

open Text (byteLength byteLength_append byteLength_cons byteLength_nil)

theorem Mark.isMark_iff {c : Char} : isMark c = true ↔ ∃ mark : Mark, c = mark.char := by
  constructor
  · intro h
    obtain ⟨mark, hmark⟩ := Option.isSome_iff_exists.1 h
    exact ⟨mark, (char_of_ofChar? hmark).symm⟩
  · rintro ⟨mark, rfl⟩
    rw [isMark, ofChar?_char, Option.isSome_some]

namespace Lexer

/-- A text that is cut off as a whole. -/
structure Word (cs : List Char) : Prop where
  ne_nil : cs ≠ []
  no_mark : ∀ c ∈ cs, Mark.isMark c = false
  no_blank_first : ∀ c ∈ cs.head?, Text.isBlank c = false
  no_blank_last : ∀ c ∈ cs.getLast?, Text.isBlank c = false

theorem word_iff {cs : List Char} :
    Word cs ↔ cs ≠ [] ∧ cs.all (fun c => !Mark.isMark c) ∧
      cs.head?.all (fun c => !Text.isBlank c) ∧ cs.getLast?.all fun c => !Text.isBlank c := by
  simp only [List.all_eq_true, Option.all_eq_true, Bool.not_eq_true']
  constructor
  · rintro ⟨hne, hmark, hfirst, hlast⟩
    exact ⟨hne, hmark, hfirst, hlast⟩
  · rintro ⟨hne, hmark, hfirst, hlast⟩
    exact ⟨hne, hmark, hfirst, hlast⟩

instance (cs : List Char) : Decidable (Word cs) :=
  decidable_of_iff _ word_iff.symm

/-- What a word may stand before: the end of the text or a mark. -/
def EndsWord (after : List Char) : Prop :=
  ∀ c ∈ after.head?, Mark.isMark c = true

theorem endsWord_nil : EndsWord [] := by
  intro c hc
  cases hc

theorem endsWord_mark (mark : Mark) (cs : List Char) : EndsWord (mark.char :: cs) := by
  intro c hc
  cases hc
  cases mark <;> decide

/-! ## Blanks -/

/-- A text of blanks. -/
def Blanks (cs : List Char) : Prop :=
  ∀ c ∈ cs, Text.isBlank c = true

instance (cs : List Char) : Decidable (Blanks cs) :=
  List.decidableBAll (fun c => Text.isBlank c = true) cs

theorem blanks_nil : Blanks [] :=
  List.forall_mem_nil _

theorem Blanks.append {cs ds : List Char} (h : Blanks cs) (h' : Blanks ds) :
    Blanks (cs ++ ds) :=
  List.forall_mem_append.2 ⟨h, h'⟩

theorem isBlank_mark (mark : Mark) : Text.isBlank mark.char = false := by
  cases mark <;> decide

theorem isMark_of_isBlank {c : Char} (h : Text.isBlank c = true) : Mark.isMark c = false := by
  rw [Bool.eq_false_iff]
  intro hmark
  obtain ⟨mark, rfl⟩ := Mark.isMark_iff.1 hmark
  rw [isBlank_mark] at h
  cases h

/-! ## One token -/

theorem trimStart_of_head {c : Char} (hc : Text.isBlank c = false) (cs : List Char) :
    Text.trimStart (c :: cs) = c :: cs :=
  List.dropWhile_cons_of_neg (by simp [hc])

theorem trimEnd_of_last {cs : List Char} (h : ∀ c ∈ cs.getLast?, Text.isBlank c = false) :
    Text.trimEnd cs = cs := by
  refine List.rdropWhile_eq_self_iff.2 fun hne => ?_
  rw [h _ (List.getLast_mem_getLast? hne)]
  exact Bool.false_ne_true

/-- A mark is cut off alone. -/
theorem next?_mark (mark : Mark) (cs : List Char) (position : Nat) :
    next? ⟨mark.char :: cs, position⟩ =
      some (⟨.mark mark, String.ofList [mark.char], position⟩,
        ⟨cs, position + mark.char.utf8Size⟩) := by
  cases mark <;> rfl

theorem piece_of_run {c : Char} {cs after : List Char}
    (hrun : ∀ d ∈ c :: cs, Mark.isMark d = false) (hafter : EndsWord after) :
    piece c (cs ++ after) = c :: cs ∧ afterPiece c (cs ++ after) = after := by
  obtain ⟨hmark, hrest⟩ := List.forall_mem_cons.1 hrun
  have hrest' : ∀ d ∈ cs, (!Mark.isMark d) = true := by
    intro d hd
    rw [hrest d hd]
    rfl
  unfold piece afterPiece
  rw [hmark, if_neg Bool.false_ne_true, if_neg Bool.false_ne_true,
    List.takeWhile_append_of_pos hrest', List.dropWhile_append_of_pos hrest']
  -- the run goes on through the text and stops at what stands behind it
  cases after with
  | nil => simp
  | cons d rest =>
    have hd : Mark.isMark d = true := hafter d rfl
    simp [hd]

theorem trimEnd_word {cs blanks : List Char} (h : Word cs) (hblanks : Blanks blanks) :
    Text.trimEnd (cs ++ blanks) = cs := by
  rw [Text.trimEnd, List.reverse_append, List.dropWhile_append_of_pos]
  · exact trimEnd_of_last h.no_blank_last
  · intro c hc
    exact hblanks c (List.mem_reverse.1 hc)

/-- A word is cut off without the blanks behind it, up to a mark or the end. -/
theorem next?_word {cs blanks after : List Char} (h : Word cs) (hblanks : Blanks blanks)
    (hafter : EndsWord after) (position : Nat) :
    next? ⟨cs ++ (blanks ++ after), position⟩ =
      some (⟨Kind.ofChars cs, String.ofList cs, position⟩,
        ⟨after, position + byteLength (cs ++ blanks)⟩) := by
  cases cs with
  | nil => exact absurd rfl h.ne_nil
  | cons c cs =>
    have hc : Text.isBlank c = false := h.no_blank_first c rfl
    have happend : c :: cs ++ (blanks ++ after) = c :: (cs ++ blanks ++ after) := by simp
    have hnone : (c :: (cs ++ blanks ++ after)).takeWhile Text.isBlank = [] :=
      List.takeWhile_cons_of_neg (by simp [hc])
    have hrun : ∀ d ∈ c :: (cs ++ blanks), Mark.isMark d = false := by
      rw [← List.cons_append]
      refine List.forall_mem_append.2 ⟨h.no_mark, fun d hd => ?_⟩
      exact isMark_of_isBlank (hblanks d hd)
    obtain ⟨hpiece, hrest⟩ := piece_of_run hrun hafter
    have htrim : Text.trimEnd (c :: (cs ++ blanks)) = c :: cs := trimEnd_word h hblanks
    unfold next?
    simp only [happend, trimStart_of_head hc, hnone, hpiece, hrest, htrim, byteLength_nil,
      Nat.add_zero, List.cons_append]

/-! ## Several tokens -/

/-- A text is cut into tokens of a given form, wherever a mark or the end of the text follows. -/
def Spells (cs : List Char) (form : List Token → Prop) : Prop :=
  ∀ after position, EndsWord after → ∃ spelt, form spelt ∧
    tokens ⟨cs ++ after, position⟩ = spelt ++ tokens ⟨after, position + byteLength cs⟩

theorem Spells.mono {cs : List Char} {form form' : List Token → Prop} (h : Spells cs form)
    (himp : ∀ spelt, form spelt → form' spelt) : Spells cs form' := by
  intro after position hafter
  obtain ⟨spelt, hform, htokens⟩ := h after position hafter
  exact ⟨spelt, himp spelt hform, htokens⟩

theorem Spells.nil : Spells [] fun spelt => spelt = [] := by
  intro after position _
  exact ⟨[], rfl, rfl⟩

theorem Spells.word {cs : List Char} (h : Word cs) :
    Spells cs fun spelt => ∃ token : Token, spelt = [token] ∧ token.kind = Kind.ofChars cs ∧
      token.text = String.ofList cs := by
  intro after position hafter
  have hnext := next?_word h blanks_nil hafter position
  rw [List.nil_append, List.append_nil] at hnext
  exact ⟨_, ⟨_, rfl, rfl, rfl⟩, tokens_of_next?_some hnext⟩

/-- Two texts are cut apart by a mark between them. -/
theorem Spells.append {cs ds : List Char} {form form' : List Token → Prop} (h : Spells cs form)
    (mark : Mark) (h' : Spells ds form') :
    Spells (cs ++ mark.char :: ds) fun spelt => ∃ before token behind, form before ∧
      token.kind = .mark mark ∧ form' behind ∧ spelt = before ++ token :: behind := by
  intro after position hafter
  -- the mark ends the last word of the first text, and the second begins behind the mark
  have hmark := tokens_of_next?_some (next?_mark mark (ds ++ after) (position + byteLength cs))
  obtain ⟨before, hbefore, htokens⟩ :=
    h (mark.char :: (ds ++ after)) position (endsWord_mark mark _)
  obtain ⟨behind, hbehind, htokens'⟩ :=
    h' after (position + byteLength cs + mark.char.utf8Size) hafter
  rw [hmark, htokens'] at htokens
  refine ⟨before ++ ⟨.mark mark, String.ofList [mark.char], position + byteLength cs⟩ :: behind,
    ⟨before, _, behind, hbefore, rfl, hbehind, rfl⟩, ?_⟩
  rw [List.append_assoc, List.cons_append, htokens, List.append_assoc, List.cons_append,
    byteLength_append, byteLength_cons, Nat.add_assoc, Nat.add_assoc]

/-- A mark in front of a text. -/
theorem Spells.cons {cs : List Char} {form : List Token → Prop} (mark : Mark)
    (h : Spells cs form) :
    Spells (mark.char :: cs) fun spelt => ∃ token behind,
      token.kind = .mark mark ∧ form behind ∧ spelt = token :: behind := by
  refine (Spells.nil.append mark h).mono ?_
  intro spelt hspelt
  obtain ⟨_, token, behind, rfl, htoken, hbehind, rfl⟩ := hspelt
  exact ⟨token, behind, htoken, hbehind, rfl⟩

/-- A mark behind a text. -/
theorem Spells.concat {cs : List Char} {form : List Token → Prop} (h : Spells cs form)
    (mark : Mark) :
    Spells (cs ++ [mark.char]) fun spelt => ∃ before token, form before ∧
      token.kind = .mark mark ∧ spelt = before ++ [token] := by
  refine (h.append mark .nil).mono ?_
  intro spelt hspelt
  obtain ⟨before, token, _, hbefore, htoken, rfl, rfl⟩ := hspelt
  exact ⟨before, token, hbefore, htoken, rfl⟩

/-- The tokens of a text that is spelt out to its end. -/
theorem Spells.tokenize {cs : List Char} {form : List Token → Prop} (h : Spells cs form) :
    form (tokenize (String.ofList cs)) := by
  obtain ⟨spelt, hform, htokens⟩ := h [] 0 endsWord_nil
  -- behind the text nothing is left to be cut
  have hend : tokens ⟨[], 0 + byteLength cs⟩ = [] := tokens_of_next?_none rfl
  rw [List.append_nil, hend, List.append_nil] at htokens
  rw [ResourceQuery.tokenize, ofString, String.toList_ofList, htokens]
  exact hform

end Lexer

end ResourceQuery
