import Mathlib.Tactic.SplitIfs
import ResourceQuery.Json.Quoted

/-!
# Strings taken out of quotation marks

How a string of a document is read: up to the closing quotation mark, each escape as the character
that it stands for. All escapes of the format are understood, also those that are never written.
What has been quoted is read back in front of any text.
-/

namespace ResourceQuery.Json

/-! ## Escapes -/

/-- The character that a letter behind a backslash stands for. -/
def unescape? (letter : Char) : Option Char :=
  if letter = '"' ∨ letter = '\\' ∨ letter = '/' then some letter
  else if letter = 'b' then some '\x08'
  else if letter = 'f' then some '\x0c'
  else if letter = 'n' then some '\n'
  else if letter = 'r' then some '\r'
  else if letter = 't' then some '\t'
  else none

/-- The value of a hexadecimal digit, with a small letter or a capital. -/
def hexValue? (c : Char) : Option Nat :=
  if c.isDigit then some (c.toNat - '0'.toNat)
  else if 'a' ≤ c ∧ c ≤ 'f' then some (c.toNat - 'a'.toNat + 10)
  else if 'A' ≤ c ∧ c ≤ 'F' then some (c.toNat - 'A'.toNat + 10)
  else none

/-- The number of four hexadecimal digits, and the text behind them. -/
def unit? : List Char → Option (Nat × List Char)
  | a :: b :: c :: d :: rest =>
    match hexValue? a, hexValue? b, hexValue? c, hexValue? d with
    | some a, some b, some c, some d => some (((a * 16 + b) * 16 + c) * 16 + d, rest)
    | _, _, _, _ => none
  | _ => none

/-- The character of two units that make up a pair: the first is a high one, the second a low. -/
def ofPair? (high low : Nat) : Option Char :=
  if (0xD800 ≤ high ∧ high < 0xDC00) ∧ (0xDC00 ≤ low ∧ low < 0xE000) then
    some (Char.ofNat (0x10000 + (high - 0xD800) * 0x400 + (low - 0xDC00)))
  else none

/-- The character that a code stands for, and the text behind it. -/
def coded? (cs : List Char) : Option (Char × List Char) :=
  match unit? cs with
  | none => none
  | some (unit, rest) =>
    if unit.isValidChar then some (Char.ofNat unit, rest)
    else
      match rest with
      | '\\' :: 'u' :: behind =>
        match unit? behind with
        | none => none
        | some (low, after) => (ofPair? unit low).map fun c => (c, after)
      | _ => none

/-- The character of an escape, and the text behind it. -/
def escaped? : List Char → Option (Char × List Char)
  | [] => none
  | letter :: rest =>
    if letter = 'u' then coded? rest else (unescape? letter).map fun c => (c, rest)

/-- The first character inside a string, and the text behind it. -/
def character? : List Char → Option (Char × List Char)
  | [] => none
  | c :: rest =>
    if c = '\\' then escaped? rest
    else if c = '"' ∨ c.toNat < 0x20 then none
    else some (c, rest)

theorem length_of_unit? {cs rest : List Char} {unit : Nat} (h : unit? cs = some (unit, rest)) :
    rest.length < cs.length := by
  unfold unit? at h
  split at h
  next =>
    split at h
    next =>
      cases h
      simp only [List.length_cons]
      omega
    next => cases h
  next => cases h

theorem length_of_coded? {cs rest : List Char} {c : Char} (h : coded? cs = some (c, rest)) :
    rest.length < cs.length := by
  unfold coded? at h
  split at h
  next => cases h
  next unit behind hunit =>
    have hfirst := length_of_unit? hunit
    split at h
    next =>
      cases h
      exact hfirst
    next =>
      split at h
      next second =>
        split at h
        next => cases h
        next low after hlow =>
          have hsecond := length_of_unit? hlow
          obtain ⟨_, -, hpair⟩ := Option.map_eq_some_iff.1 h
          cases hpair
          simp only [List.length_cons] at hfirst
          omega
      next => cases h

/-- Every character takes up a part of the text. -/
theorem length_of_character? {cs rest : List Char} {c : Char}
    (h : character? cs = some (c, rest)) : rest.length < cs.length := by
  unfold character? at h
  split at h
  next => cases h
  next first behind =>
    split at h
    next =>
      unfold escaped? at h
      split at h
      next => cases h
      next letter after =>
        simp only [List.length_cons]
        split at h
        next =>
          have hcoded := length_of_coded? h
          omega
        next =>
          obtain ⟨_, -, hpair⟩ := Option.map_eq_some_iff.1 h
          cases hpair
          omega
    next =>
      split at h
      next => cases h
      next =>
        cases h
        exact Nat.lt_succ_self _

/-! ## Strings -/

/-- The characters of a string up to its closing quotation mark, and the text behind that. -/
def unquote? (cs : List Char) : Option (List Char × List Char) :=
  if cs.head? = some '"' then some ([], cs.tail)
  else
    match _h : character? cs with
    | none => none
    | some (c, rest) =>
      (unquote? rest).map fun (text, after) => (c :: text, after)
termination_by cs.length
decreasing_by exact length_of_character? _h

theorem unquote?_mark (rest : List Char) : unquote? ('"' :: rest) = some ([], rest) := by
  unfold unquote?
  exact if_pos rfl

theorem unquote?_character {cs rest : List Char} {c : Char}
    (h : character? cs = some (c, rest)) :
    unquote? cs = (unquote? rest).map fun (text, after) => (c :: text, after) := by
  have hmark : cs.head? ≠ some '"' := by
    intro hmark
    obtain ⟨behind, rfl⟩ := List.head?_eq_some_iff.1 hmark
    cases h
  rw [unquote?, if_neg hmark]
  split
  next hnone =>
    rw [h] at hnone
    cases hnone
  next c' rest' hsome =>
    rw [h] at hsome
    cases hsome
    rfl

theorem length_of_unquote? {cs text rest : List Char} (h : unquote? cs = some (text, rest)) :
    rest.length < cs.length := by
  fun_induction unquote? cs generalizing text rest with
  | case1 cs hmark =>
    obtain ⟨behind, rfl⟩ := List.head?_eq_some_iff.1 hmark
    cases h
    exact Nat.lt_succ_self _
  | case2 => cases h
  | case3 cs _ c behind hcharacter ih =>
    obtain ⟨⟨text', after⟩, hunquote, hpair⟩ := Option.map_eq_some_iff.1 h
    cases hpair
    have hafter := ih hunquote
    have hbehind := length_of_character? hcharacter
    omega

/-! ## What has been quoted -/

theorem hexValue?_digitChar : ∀ n < 16, hexValue? (Nat.digitChar n) = some n := by
  decide

/-- The four digits of a control character stand for it. -/
theorem coded?_control {c : Char} (h : c.toNat < 0x20) (rest : List Char) :
    coded? ('0' :: '0' :: hexDigit (c.toNat / 16) :: hexDigit c.toNat :: rest) =
      some (c, rest) := by
  have hzero : hexValue? '0' = some 0 := rfl
  have hhigh : hexValue? (hexDigit (c.toNat / 16)) = some (c.toNat / 16 % 16) :=
    hexValue?_digitChar _ (Nat.mod_lt _ (by decide))
  have hlow : hexValue? (hexDigit c.toNat) = some (c.toNat % 16) :=
    hexValue?_digitChar _ (Nat.mod_lt _ (by decide))
  have hvalue : ((0 * 16 + 0) * 16 + c.toNat / 16 % 16) * 16 + c.toNat % 16 = c.toNat := by omega
  have hvalid : c.toNat.isValidChar := c.valid
  unfold coded? unit?
  simp only [hzero, hhigh, hlow, hvalue]
  rw [if_pos hvalid, Char.ofNat_toNat]

/-- What a character is written as is read as the character. -/
theorem character?_escape (c : Char) (rest : List Char) :
    character? (escape c ++ rest) = some (c, rest) := by
  unfold escape
  split_ifs with hquote hbackslash _ _ _ _ _ hcontrol
  -- seven characters have an escape of their own
  any_goals
    subst c
    rfl
  · exact coded?_control hcontrol rest
  · show (if c = '\\' then escaped? rest else if c = '"' ∨ c.toNat < 0x20 then none
      else some (c, rest)) = _
    rw [if_neg hbackslash, if_neg (not_or.2 ⟨hquote, hcontrol⟩)]

/-- A quoted text is read back. -/
theorem unquote?_escapes (text rest : List Char) :
    unquote? (text.flatMap escape ++ '"' :: rest) = some (text, rest) := by
  induction text with
  | nil => exact unquote?_mark rest
  | cons c text ih =>
    rw [List.flatMap_cons, List.append_assoc,
      unquote?_character (character?_escape c _), ih, Option.map_some]

end ResourceQuery.Json
