import ResourceQuery.Json.Writer
import ResourceQuery.Proofs.Json.Unquoted
import ResourceQuery.Proofs.Number.Standard

/-!
# Lexemes of documents

The text of a document cut into lexemes: signs, strings, numbers and null, with blanks between
them. Truth values are left out, since no document here has any. A written document is cut into
the lexemes of its parts, whatever its spacing: a number ends where its characters do, and every
other lexeme tells its own end.
-/

namespace ResourceQuery

/-- Whether a numeral has digits on all sides and no needless zero in front. -/
def Numeral.isStandard (numeral : Numeral) : Bool :=
  numeral.whole ≠ [] && (numeral.whole = ['0'] || numeral.whole.head? ≠ some '0') &&
    numeral.fraction ≠ some []

theorem Numeral.Standard.isStandard {numeral : Numeral} (h : numeral.Standard) :
    numeral.isStandard := by
  have hwhole := h.whole.1
  have hfraction := h.fraction_ne_nil
  have hfirst := h.no_zero_first
  simp only [Numeral.isStandard, ne_eq, hwhole, hfraction, not_false_eq_true, decide_true,
    Bool.true_and, Bool.and_true, Bool.or_eq_true, decide_eq_true_eq]
  exact hfirst

namespace Json

/-- The signs between the other lexemes. -/
inductive Sign
  | openArray
  | closeArray
  | openObject
  | closeObject
  | colon
  | comma
deriving DecidableEq

namespace Sign

def char : Sign → Char
  | openArray => '['
  | closeArray => ']'
  | openObject => '\x7b'
  | closeObject => '\x7d'
  | colon => ':'
  | comma => ','

def all : List Sign :=
  [openArray, closeArray, openObject, closeObject, colon, comma]

/-- The sign that a character is. -/
def ofChar? (c : Char) : Option Sign :=
  all.find? fun sign => sign.char = c

theorem char_of_ofChar? {c : Char} {sign : Sign} (h : ofChar? c = some sign) : sign.char = c := by
  simpa using List.find?_some h

end Sign

/-- A lexeme of a document. -/
inductive Lexeme
  | null
  | number (written : List Char)
  | string (value : String)
  | sign (sign : Sign)
deriving DecidableEq

/-! ## Cutting -/

def isBlank (c : Char) : Bool :=
  c = ' ' || c = '\n' || c = '\r' || c = '\t'

/-- The characters that numbers consist of. -/
def isNumeric (c : Char) : Bool :=
  c.isDigit || c = '-' || c = '+' || c = '.' || c = 'e' || c = 'E'

/-- Whether a text is a number without a sign. -/
def isUnsigned (cs : List Char) : Bool :=
  (Numeral.ofChars? cs).any Numeral.isStandard

/-- Whether a text is a number, with a minus or without. -/
def isNumber (written : List Char) : Bool :=
  if written.head? = some '-' then isUnsigned written.tail else isUnsigned written

/-- The first lexeme of a text that begins with one, and the text behind it. -/
def next? : List Char → Option (Lexeme × List Char)
  | [] => none
  | c :: rest =>
    if c = '"' then (unquote? rest).map fun (text, after) => (.string (String.ofList text), after)
    else if c = 'n' then
      if rest.take 3 = ['u', 'l', 'l'] then some (.null, rest.drop 3) else none
    else
      match Sign.ofChar? c with
      | some sign => some (.sign sign, rest)
      | none =>
        if isNumber ((c :: rest).takeWhile isNumeric) then
          some (.number ((c :: rest).takeWhile isNumeric), (c :: rest).dropWhile isNumeric)
        else none

theorem length_of_next? {cs rest : List Char} {lexeme : Lexeme}
    (h : next? cs = some (lexeme, rest)) : rest.length < cs.length := by
  unfold next? at h
  split at h
  next => cases h
  next c behind =>
    simp only [List.length_cons]
    split at h
    next =>
      obtain ⟨⟨text, after⟩, hunquote, hpair⟩ := Option.map_eq_some_iff.1 h
      cases hpair
      have hafter := length_of_unquote? hunquote
      omega
    next =>
      split at h
      next =>
        split at h
        next =>
          cases h
          rw [List.length_drop]
          omega
        next => cases h
      next =>
        split at h
        next =>
          cases h
          omega
        next =>
          split at h
          next hnumber =>
            cases h
            -- a number has a first character, so that something is dropped
            have hnumeric : isNumeric c := by
              by_contra hnot
              rw [List.takeWhile_cons_of_neg hnot] at hnumber
              exact absurd hnumber (by decide)
            have hle := (List.dropWhile_sublist isNumeric (l := behind)).length_le
            rw [List.dropWhile_cons_of_pos hnumeric]
            omega
          next => cases h

/-- The lexemes of a text, which may have blanks between them. -/
def lexemes? (cs : List Char) : Option (List Lexeme) :=
  match cs with
  | [] => some []
  | c :: rest =>
    if isBlank c then lexemes? rest
    else
      match _h : next? (c :: rest) with
      | none => none
      | some (lexeme, after) => (lexemes? after).map (lexeme :: ·)
termination_by cs.length
decreasing_by
  · exact Nat.lt_succ_self _
  · exact length_of_next? _h

theorem lexemes?_nil : lexemes? [] = some [] := by
  rw [lexemes?]

/-- No lexeme begins with a blank. -/
theorem next?_of_isBlank {c : Char} (h : isBlank c) (rest : List Char) :
    next? (c :: rest) = none := by
  simp only [isBlank, Bool.or_eq_true, decide_eq_true_eq] at h
  rcases h with ((rfl | rfl) | rfl) | rfl <;> rfl

theorem lexemes?_of_isBlank {c : Char} (h : isBlank c) (rest : List Char) :
    lexemes? (c :: rest) = lexemes? rest := by
  rw [lexemes?, if_pos h]

theorem lexemes?_blanks {blanks : List Char} (h : ∀ c ∈ blanks, isBlank c) (rest : List Char) :
    lexemes? (blanks ++ rest) = lexemes? rest := by
  induction blanks with
  | nil => rfl
  | cons c blanks ih =>
    obtain ⟨hc, hblanks⟩ := List.forall_mem_cons.1 h
    rw [List.cons_append, lexemes?_of_isBlank hc, ih hblanks]

theorem lexemes?_of_next? {cs after : List Char} {lexeme : Lexeme}
    (h : next? cs = some (lexeme, after)) : lexemes? cs = (lexemes? after).map (lexeme :: ·) := by
  cases cs with
  | nil => cases h
  | cons c rest =>
    have hblank : ¬isBlank c := by
      intro hblank
      rw [next?_of_isBlank hblank] at h
      cases h
    rw [lexemes?, if_neg hblank]
    split
    next hnone =>
      rw [h] at hnone
      cases hnone
    next lexeme' after' hsome =>
      rw [h] at hsome
      cases hsome
      rfl

/-! ## One lexeme in front of a text -/

theorem lexemes?_null (rest : List Char) :
    lexemes? (['n', 'u', 'l', 'l'] ++ rest) = (lexemes? rest).map (.null :: ·) :=
  lexemes?_of_next? rfl

theorem lexemes?_sign (sign : Sign) (rest : List Char) :
    lexemes? (sign.char :: rest) = (lexemes? rest).map (.sign sign :: ·) := by
  refine lexemes?_of_next? ?_
  cases sign <;> rfl

theorem lexemes?_openArray (rest : List Char) :
    lexemes? ('[' :: rest) = (lexemes? rest).map (.sign .openArray :: ·) :=
  lexemes?_sign .openArray rest

theorem lexemes?_closeArray (rest : List Char) :
    lexemes? (']' :: rest) = (lexemes? rest).map (.sign .closeArray :: ·) :=
  lexemes?_sign .closeArray rest

theorem lexemes?_openObject (rest : List Char) :
    lexemes? ('\x7b' :: rest) = (lexemes? rest).map (.sign .openObject :: ·) :=
  lexemes?_sign .openObject rest

theorem lexemes?_closeObject (rest : List Char) :
    lexemes? ('\x7d' :: rest) = (lexemes? rest).map (.sign .closeObject :: ·) :=
  lexemes?_sign .closeObject rest

theorem lexemes?_colon (rest : List Char) :
    lexemes? (':' :: rest) = (lexemes? rest).map (.sign .colon :: ·) :=
  lexemes?_sign .colon rest

theorem lexemes?_comma (rest : List Char) :
    lexemes? (',' :: rest) = (lexemes? rest).map (.sign .comma :: ·) :=
  lexemes?_sign .comma rest

theorem lexemes?_quote (text : String) (rest : List Char) :
    lexemes? (quote text ++ rest) = (lexemes? rest).map (.string text :: ·) := by
  have hunquote := unquote?_escapes text.toList rest
  refine lexemes?_of_next? ?_
  rw [quote, List.append_assoc, List.singleton_append, List.cons_append]
  show (unquote? (text.toList.flatMap escape ++ '"' :: rest)).map _ = _
  rw [hunquote, Option.map_some]
  dsimp only
  rw [String.ofList_toList]

theorem isNumeric_of_isDigit {c : Char} (h : c.isDigit) : isNumeric c := by
  simp [isNumeric, h]

/-- A numeral consists of the characters of numbers. -/
theorem isNumeric_of_shape {cs : List Char} (h : Numeral.Shape cs) : ∀ c ∈ cs, isNumeric c := by
  have hdigits : ∀ digits : List Char, (∀ c ∈ digits, c.isDigit) → ∀ c ∈ digits, isNumeric c :=
    fun _ hall c hc => isNumeric_of_isDigit (hall c hc)
  have hmantissa : ∀ cs : List Char, Numeral.Mantissa cs → ∀ c ∈ cs, isNumeric c := by
    intro cs hcs
    cases hcs with
    | whole hwhole => exact hdigits _ hwhole.2
    | point hwhole hfraction =>
      exact List.forall_mem_append.2
        ⟨hdigits _ hwhole.2, List.forall_mem_cons.2 ⟨by decide, hdigits _ hfraction⟩⟩
    | fraction hfraction =>
      exact List.forall_mem_cons.2 ⟨by decide, hdigits _ hfraction.2⟩
  have hscale : ∀ cs : List Char, Numeral.Scale cs → ∀ c ∈ cs, isNumeric c := by
    intro cs hcs
    cases hcs with
    | intro hletter hsign hexponent =>
      refine List.forall_mem_cons.2 ⟨?_, List.forall_mem_append.2 ⟨?_, hdigits _ hexponent.2⟩⟩
      · rcases hletter with rfl | rfl <;> decide
      · rcases hsign with rfl | rfl | rfl
        · exact List.forall_mem_nil _
        · exact List.forall_mem_singleton.2 (by decide)
        · exact List.forall_mem_singleton.2 (by decide)
  cases h with
  | plain h => exact hmantissa _ h
  | scaled h hexponent => exact List.forall_mem_append.2 ⟨hmantissa _ h, hscale _ hexponent⟩

theorem isNumeric_of_isUnsigned {cs : List Char} (h : isUnsigned cs) : ∀ c ∈ cs, isNumeric c := by
  obtain ⟨numeral, hnumeral, -⟩ := (Option.any_eq_true _ _).1 h
  exact isNumeric_of_shape (Numeral.shape_of_ofChars? hnumeral)

theorem isNumeric_of_isNumber {written : List Char} (h : isNumber written) :
    ∀ c ∈ written, isNumeric c := by
  unfold isNumber at h
  split at h
  next hminus =>
    obtain ⟨cs, rfl⟩ := List.head?_eq_some_iff.1 hminus
    exact List.forall_mem_cons.2 ⟨by decide, isNumeric_of_isUnsigned h⟩
  next => exact isNumeric_of_isUnsigned h

/-- A text that no character of a number begins. -/
def EndsNumber (rest : List Char) : Prop :=
  ∀ c ∈ rest.head?, isNumeric c = false

theorem endsNumber_cons {c : Char} (h : isNumeric c = false) (rest : List Char) :
    EndsNumber (c :: rest) := by
  intro c' hc'
  cases hc'
  exact h

theorem next?_number {written rest : List Char} (h : isNumber written) (hrest : EndsNumber rest) :
    next? (written ++ rest) = some (.number written, rest) := by
  have hall := isNumeric_of_isNumber h
  have htake : (written ++ rest).takeWhile isNumeric = written := by
    rw [List.takeWhile_append_of_pos hall]
    cases rest with
    | nil => simp
    | cons c rest => simp [hrest c rfl]
  have hdrop : (written ++ rest).dropWhile isNumeric = rest := by
    rw [List.dropWhile_append_of_pos hall]
    cases rest with
    | nil => rfl
    | cons c rest => simp [hrest c rfl]
  cases written with
  | nil => exact absurd h (by decide)
  | cons c cs =>
    have hnumeric := hall c List.mem_cons_self
    -- a character of a number begins no other lexeme
    have hquote : c ≠ '"' := by
      rintro rfl
      exact absurd hnumeric (by decide)
    have hnull : c ≠ 'n' := by
      rintro rfl
      exact absurd hnumeric (by decide)
    have hsign : Sign.ofChar? c = none := by
      rw [Option.eq_none_iff_forall_ne_some]
      intro sign hsome
      rw [← Sign.char_of_ofChar? hsome] at hnumeric
      cases sign <;> exact absurd hnumeric (by decide)
    rw [List.cons_append] at htake hdrop ⊢
    unfold next?
    dsimp only
    rw [if_neg hquote, if_neg hnull, hsign]
    dsimp only
    rw [htake, hdrop, if_pos h]

/-! ## The lexemes of a document -/

mutual

/-- A document whose numbers are numbers of the format. -/
def Readable : Json → Prop
  | null => True
  | number written => isNumber written
  | string _ => True
  | array items => ItemsReadable items
  | object members => MembersReadable members

def ItemsReadable : List Json → Prop
  | [] => True
  | item :: items => item.Readable ∧ ItemsReadable items

def MembersReadable : List (String × Json) → Prop
  | [] => True
  | (_, value) :: members => value.Readable ∧ MembersReadable members

end

mutual

/-- The lexemes of a document, in front of given ones. -/
def lexemesBefore : Json → List Lexeme → List Lexeme
  | null, after => .null :: after
  | number written, after => .number written :: after
  | string value, after => .string value :: after
  | array [], after => .sign .openArray :: .sign .closeArray :: after
  | array (item :: items), after =>
    .sign .openArray :: item.lexemesBefore (itemLexemes items (.sign .closeArray :: after))
  | object [], after => .sign .openObject :: .sign .closeObject :: after
  | object ((key, value) :: members), after =>
    .sign .openObject :: .string key :: .sign .colon ::
      value.lexemesBefore (memberLexemes members (.sign .closeObject :: after))

/-- The lexemes of the items of a list after its first. -/
def itemLexemes : List Json → List Lexeme → List Lexeme
  | [], after => after
  | item :: items, after => .sign .comma :: item.lexemesBefore (itemLexemes items after)

/-- The lexemes of the members of a record after its first. -/
def memberLexemes : List (String × Json) → List Lexeme → List Lexeme
  | [], after => after
  | (key, value) :: members, after =>
    .sign .comma :: .string key :: .sign .colon ::
      value.lexemesBefore (memberLexemes members after)

end

/-! ## A written document is cut into its lexemes -/

section

variable (spacing : Spacing) (level : Nat)

theorem lexemes?_lineBreak (rest : List Char) :
    lexemes? (spacing.lineBreak level ++ rest) = lexemes? rest := by
  refine lexemes?_blanks ?_ rest
  cases spacing with
  | compact => exact List.forall_mem_nil _
  | indented =>
    refine List.forall_mem_cons.2 ⟨by decide, fun c hc => ?_⟩
    rw [List.eq_of_mem_replicate hc]
    decide

theorem lexemes?_afterColon (rest : List Char) :
    lexemes? (spacing.afterColon ++ rest) = lexemes? rest := by
  refine lexemes?_blanks ?_ rest
  cases spacing with
  | compact => exact List.forall_mem_nil _
  | indented => exact List.forall_mem_singleton.2 (by decide)

theorem endsNumber_lineBreak {c : Char} (h : isNumeric c = false) (rest : List Char) :
    EndsNumber (spacing.lineBreak level ++ c :: rest) := by
  cases spacing with
  | compact => exact endsNumber_cons h rest
  | indented => exact endsNumber_cons (by decide) _

theorem endsNumber_writeItems (items : List Json) {rest : List Char} (h : EndsNumber rest) :
    EndsNumber (writeItems spacing level items rest) := by
  cases items with
  | nil => exact h
  | cons item items => exact endsNumber_cons (by decide) _

theorem endsNumber_writeMembers (members : List (String × Json)) {rest : List Char}
    (h : EndsNumber rest) : EndsNumber (writeMembers spacing level members rest) := by
  cases members with
  | nil => exact h
  | cons member members => exact endsNumber_cons (by decide) _

end

mutual

/-- A document is cut into its lexemes in front of any text that ends a number. -/
theorem lexemes?_writeBefore (spacing : Spacing) (level : Nat) :
    ∀ (json : Json) (after : List Char), json.Readable → EndsNumber after →
      lexemes? (json.writeBefore spacing level after) = (lexemes? after).map json.lexemesBefore
  | null, after, _, _ => lexemes?_null after
  | number written, after, hreadable, hafter =>
    lexemes?_of_next? (next?_number hreadable hafter)
  | string value, after, _, _ => lexemes?_quote value after
  | array [], after, _, _ => by
    rw [writeBefore, lexemes?_openArray, lexemes?_closeArray, Option.map_map]
    rfl
  | array (item :: items), after, ⟨hitem, hitems⟩, _ => by
    have hclose := endsNumber_lineBreak spacing level (c := ']') (by decide) after
    rw [writeBefore, lexemes?_openArray, lexemes?_lineBreak,
      lexemes?_writeBefore spacing (level + 1) item _ hitem
        (endsNumber_writeItems spacing (level + 1) items hclose),
      lexemes?_writeItems spacing (level + 1) items _ hitems hclose, lexemes?_lineBreak,
      lexemes?_closeArray, Option.map_map, Option.map_map, Option.map_map]
    rfl
  | object [], after, _, _ => by
    rw [writeBefore, lexemes?_openObject, lexemes?_closeObject, Option.map_map]
    rfl
  | object ((key, value) :: members), after, ⟨hvalue, hmembers⟩, _ => by
    have hclose := endsNumber_lineBreak spacing level (c := '\x7d') (by decide) after
    rw [writeBefore, lexemes?_openObject, lexemes?_lineBreak, lexemes?_quote,
      lexemes?_colon, lexemes?_afterColon,
      lexemes?_writeBefore spacing (level + 1) value _ hvalue
        (endsNumber_writeMembers spacing (level + 1) members hclose),
      lexemes?_writeMembers spacing (level + 1) members _ hmembers hclose, lexemes?_lineBreak,
      lexemes?_closeObject]
    simp only [Option.map_map]
    rfl

theorem lexemes?_writeItems (spacing : Spacing) (level : Nat) :
    ∀ (items : List Json) (after : List Char), ItemsReadable items → EndsNumber after →
      lexemes? (writeItems spacing level items after) = (lexemes? after).map (itemLexemes items)
  | [], after, _, _ => Option.map_id'.symm
  | item :: items, after, ⟨hitem, hitems⟩, hafter => by
    rw [writeItems, lexemes?_comma, lexemes?_lineBreak,
      lexemes?_writeBefore spacing level item _ hitem
        (endsNumber_writeItems spacing level items hafter),
      lexemes?_writeItems spacing level items after hitems hafter]
    simp only [Option.map_map]
    rfl

theorem lexemes?_writeMembers (spacing : Spacing) (level : Nat) :
    ∀ (members : List (String × Json)) (after : List Char), MembersReadable members →
      EndsNumber after → lexemes? (writeMembers spacing level members after) =
        (lexemes? after).map (memberLexemes members)
  | [], after, _, _ => Option.map_id'.symm
  | (key, value) :: members, after, ⟨hvalue, hmembers⟩, hafter => by
    rw [writeMembers, lexemes?_comma, lexemes?_lineBreak, lexemes?_quote,
      lexemes?_colon, lexemes?_afterColon,
      lexemes?_writeBefore spacing level value _ hvalue
        (endsNumber_writeMembers spacing level members hafter),
      lexemes?_writeMembers spacing level members after hmembers hafter]
    simp only [Option.map_map]
    rfl

end

/-- A written document is cut into its lexemes. -/
theorem lexemes?_write {json : Json} (h : json.Readable) (spacing : Spacing) :
    lexemes? (json.write spacing).toList = some (json.lexemesBefore []) := by
  have hend : EndsNumber [] := by
    intro c hc
    cases hc
  rw [write, String.toList_ofList, lexemes?_writeBefore spacing 0 json [] h hend, lexemes?_nil,
    Option.map_some]

end Json

end ResourceQuery
