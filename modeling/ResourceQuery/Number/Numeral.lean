import ResourceQuery.Number.Decimal

/-!
# Numerals

A numeral is digits with an optional fraction, or a point and digits, in both cases with an
optional exponent: `12`, `12.`, `1.5`, `.5`, `1e9`, `2.5E-3`. It bears no sign of its own.
-/

namespace ResourceQuery

/-- The exponent of a numeral: the letter, the sign if one is written, and at least one digit. -/
structure Numeral.Exponent where
  letter : Char
  sign : Option Char
  digits : List Char
deriving DecidableEq

/-- A text of the numeral shape, taken apart. -/
structure Numeral where
  /-- The digits before the point. -/
  whole : List Char
  /-- The digits after the point, if there is a point. -/
  fraction : Option (List Char)
  exponent : Option Numeral.Exponent
deriving DecidableEq

namespace Numeral

/-- Takes apart what follows the letter of an exponent. -/
def Exponent.ofSigned? (letter : Char) (sign : Option Char) (digits : List Char) :
    Option Exponent :=
  if digits ≠ [] ∧ digits.all Char.isDigit then some ⟨letter, sign, digits⟩ else none

/-- Reads an exponent that makes up the whole text. -/
def Exponent.ofChars? : List Char → Option Exponent
  | [] => none
  | letter :: rest =>
    if letter = 'e' ∨ letter = 'E' then
      match rest with
      | '+' :: digits => ofSigned? letter (some '+') digits
      | '-' :: digits => ofSigned? letter (some '-') digits
      | digits => ofSigned? letter none digits
    else none

/-- Completes a numeral whose digits and point have been read by what follows them. -/
def withExponent? (whole : List Char) (fraction : Option (List Char)) :
    List Char → Option Numeral
  | [] => some ⟨whole, fraction, none⟩
  | rest => (Exponent.ofChars? rest).map fun exponent => ⟨whole, fraction, some exponent⟩

/-- Reads a text of the numeral shape; any other text is none. -/
def ofChars? (cs : List Char) : Option Numeral :=
  let whole := cs.takeWhile Char.isDigit
  match cs.dropWhile Char.isDigit with
  | '.' :: rest =>
    let fraction := rest.takeWhile Char.isDigit
    if whole = [] ∧ fraction = [] then none
    else withExponent? whole (some fraction) (rest.dropWhile Char.isDigit)
  | rest => if whole = [] then none else withExponent? whole none rest

/-! ## The text of a numeral -/

/-- The text of an exponent. -/
def Exponent.chars (exponent : Exponent) : List Char :=
  exponent.letter :: (exponent.sign.toList ++ exponent.digits)

/-- The point and the digits of a fraction, if there is one. -/
def fractionChars : Option (List Char) → List Char
  | some digits => '.' :: digits
  | none => []

/-- The text of a numeral. -/
def chars (numeral : Numeral) : List Char :=
  numeral.whole ++ fractionChars numeral.fraction
    ++ (numeral.exponent.map Exponent.chars).getD []

private theorem chars_of_ofSigned? {letter : Char} {sign : Option Char} {digits : List Char}
    {exponent : Exponent} (h : Exponent.ofSigned? letter sign digits = some exponent) :
    exponent.chars = letter :: (sign.toList ++ digits) := by
  unfold Exponent.ofSigned? at h
  split at h
  · cases h
    rfl
  · cases h

/-- An exponent is read from its own text. -/
theorem Exponent.chars_of_ofChars? {cs : List Char} {exponent : Exponent}
    (h : Exponent.ofChars? cs = some exponent) : exponent.chars = cs := by
  unfold Exponent.ofChars? at h
  split at h
  · cases h
  split at h
  · split at h <;> simpa using chars_of_ofSigned? h
  · cases h

private theorem chars_of_withExponent? {whole rest : List Char} {fraction : Option (List Char)}
    {numeral : Numeral} (h : withExponent? whole fraction rest = some numeral) :
    numeral.chars = whole ++ fractionChars fraction ++ rest := by
  unfold withExponent? at h
  split at h
  · cases h
    simp [chars]
  · obtain ⟨exponent, hread, rfl⟩ := Option.map_eq_some_iff.1 h
    simp [chars, Exponent.chars_of_ofChars? hread]

/-- A numeral is read from its own text. -/
theorem chars_of_ofChars? {cs : List Char} {numeral : Numeral} (h : ofChars? cs = some numeral) :
    numeral.chars = cs := by
  have hcs : cs.takeWhile Char.isDigit ++ cs.dropWhile Char.isDigit = cs :=
    List.takeWhile_append_dropWhile
  unfold ofChars? at h
  dsimp only at h
  split at h
  next rest hrest =>
    split at h
    · cases h
    rw [chars_of_withExponent? h, fractionChars, List.append_assoc, List.cons_append,
      List.takeWhile_append_dropWhile, ← hrest, hcs]
  · split at h
    · cases h
    rw [chars_of_withExponent? h, fractionChars, List.append_nil, hcs]

/-! ## The value of a numeral -/

/-- The value of a numeral without point and exponent. -/
def natural? (numeral : Numeral) : Option Nat :=
  match numeral.fraction, numeral.exponent with
  | none, none => some (Decimal.ofDigitChars numeral.whole)
  | _, _ => none

/-- The bound past which an exponent stops growing. -/
def exponentCap : Nat := 65536

/--
The size of an exponent. Once it has reached `exponentCap`, further digits count no more: by
then only the order of magnitude of a numeral of reasonable length is decided.
-/
def Exponent.size (exponent : Exponent) : Nat :=
  exponent.digits.foldl
    (fun size digit => if size < exponentCap then 10 * size + (digit.toNat - '0'.toNat) else size) 0

/-- The exponent with its sign. -/
def Exponent.value (exponent : Exponent) : Int :=
  if exponent.sign = some '-' then -(exponent.size : Int) else exponent.size

/-- The decimal that a numeral denotes. -/
def decimal (numeral : Numeral) : Decimal :=
  let fraction := numeral.fraction.getD []
  let shift := (numeral.exponent.map Exponent.value).getD 0
  ⟨Decimal.ofDigitChars (numeral.whole ++ fraction), shift - fraction.length⟩

end Numeral

end ResourceQuery
