import Mathlib.Tactic.SplitIfs
import ResourceQuery.Proofs.Json.Lexeme

/-!
# The spacing of a document

A written document consists of pieces, with spacing between them. Whatever keeps the pieces and
drops the spacing turns the text into the compact one. Two uses are made of this: the compact text
is what is left of the indented one when the spaces and line breaks outside of its strings are
deleted, and no character of it is a control character.
-/

namespace ResourceQuery.Json

/-! ## Deleting what stands outside of strings -/

/-- Where in a document a scan of its text stands. -/
inductive Scan
  | outside
  | inside
  /-- Inside a string, behind a backslash. -/
  | escaped
deriving DecidableEq

namespace Scan

/-- Where a scan stands behind a character: only quotation marks and backslashes count. -/
def next : Scan → Char → Scan
  | outside, c => if c = '"' then inside else outside
  | inside, c => if c = '"' then outside else if c = '\\' then escaped else inside
  | escaped, _ => inside

/-- Whether a character is a space or a line break outside of strings. -/
def isSpacing (scan : Scan) (c : Char) : Bool :=
  scan = outside && (c = ' ' || c = '\n')

/-- A text without the spaces and line breaks outside of its strings. -/
def unspaced : Scan → List Char → List Char
  | _, [] => []
  | scan, c :: cs =>
    if scan.isSpacing c then unspaced (scan.next c) cs else c :: unspaced (scan.next c) cs

/-- Where a scan stands behind a text. -/
def behind (scan : Scan) (cs : List Char) : Scan :=
  cs.foldl next scan

theorem unspaced_append (scan : Scan) (cs ds : List Char) :
    scan.unspaced (cs ++ ds) = scan.unspaced cs ++ (scan.behind cs).unspaced ds := by
  induction cs generalizing scan with
  | nil => rfl
  | cons c cs ih =>
    have hrest := ih (scan.next c)
    by_cases hspacing : scan.isSpacing c
    · simp only [List.cons_append, unspaced, hspacing, if_true]
      exact hrest
    · simp only [List.cons_append, unspaced, hspacing, if_false, Bool.false_eq_true]
      rw [hrest]
      rfl

/-- A text that a scan keeps as it is and that leads it to some place. -/
structure Keeps (scan : Scan) (cs : List Char) (last : Scan) : Prop where
  unspaced_eq : scan.unspaced cs = cs
  behind_eq : scan.behind cs = last

theorem Keeps.nil (scan : Scan) : scan.Keeps [] scan :=
  ⟨rfl, rfl⟩

theorem Keeps.append {scan middle last : Scan} {cs ds : List Char} (h : scan.Keeps cs middle)
    (h' : middle.Keeps ds last) : scan.Keeps (cs ++ ds) last where
  unspaced_eq := by rw [unspaced_append, h.behind_eq, h.unspaced_eq, h'.unspaced_eq]
  behind_eq := by
    show (cs ++ ds).foldl next scan = last
    rw [List.foldl_append]
    exact (congrArg (·.behind ds) h.behind_eq).trans h'.behind_eq

theorem Keeps.unspaced_append {scan last : Scan} {cs : List Char} (h : scan.Keeps cs last)
    (rest : List Char) : scan.unspaced (cs ++ rest) = cs ++ last.unspaced rest := by
  rw [Scan.unspaced_append, h.unspaced_eq, h.behind_eq]

/-- A text is kept if it neither is spacing anywhere nor leads the scan to another place. -/
theorem keeps_of_forall {scan : Scan} {cs : List Char}
    (h : ∀ c ∈ cs, scan.isSpacing c = false ∧ scan.next c = scan) : scan.Keeps cs scan := by
  induction cs with
  | nil => exact .nil scan
  | cons c cs ih =>
    obtain ⟨⟨hspacing, hnext⟩, hcs⟩ := List.forall_mem_cons.1 h
    have hfirst : scan.Keeps [c] scan := by
      refine ⟨?_, hnext⟩
      show (if scan.isSpacing c then [] else [c]) = [c]
      rw [hspacing, if_neg Bool.false_ne_true]
    exact hfirst.append (ih hcs)

theorem next_hexDigit (n : Nat) : inside.next (hexDigit n) = inside := by
  have hall : ∀ n < 16, inside.next (Nat.digitChar n) = inside := by decide
  exact hall (n % 16) (Nat.mod_lt n (by decide))

/-- An escape is kept inside a string, and behind it the string goes on. -/
theorem keeps_escape (c : Char) : inside.Keeps (escape c) inside := by
  have hpair : ∀ letter : Char, inside.Keeps ['\\', letter] inside := fun _ => ⟨rfl, rfl⟩
  unfold escape
  split_ifs with hquote hbackslash
  any_goals exact hpair _
  · have hdigits : inside.Keeps ['0', '0', hexDigit (c.toNat / 16), hexDigit c.toNat] inside := by
      have hdigit : ∀ n,
          inside.isSpacing (hexDigit n) = false ∧ inside.next (hexDigit n) = inside :=
        fun n => ⟨rfl, next_hexDigit n⟩
      have hzero : inside.isSpacing '0' = false ∧ inside.next '0' = inside := ⟨rfl, rfl⟩
      apply keeps_of_forall
      simp [hdigit, hzero]
    exact (hpair 'u').append hdigits
  · -- a character that stands for itself is neither a quotation mark nor a backslash
    apply keeps_of_forall
    simp [isSpacing, next, hquote, hbackslash]

theorem keeps_escapes (text : List Char) : inside.Keeps (text.flatMap escape) inside := by
  induction text with
  | nil => exact .nil inside
  | cons c text ih =>
    rw [List.flatMap_cons]
    exact (keeps_escape c).append ih

theorem keeps_quote (text : String) : outside.Keeps (quote text) outside := by
  have hopen : outside.Keeps ['"'] inside := ⟨rfl, rfl⟩
  have hclose : inside.Keeps ['"'] outside := ⟨rfl, rfl⟩
  exact hopen.append ((keeps_escapes text.toList).append hclose)

end Scan

/-- A text without the spaces and line breaks outside of its strings. -/
def unspaced (text : String) : String :=
  String.ofList (Scan.outside.unspaced text.toList)

/-! ## Pieces -/

/-- What a written document consists of besides its spacing. -/
inductive Piece : List Char → Prop
  | null : Piece ['n', 'u', 'l', 'l']
  | number {written : List Char} (h : isNumber written) : Piece written
  | quote (text : String) : Piece (quote text)
  | sign (sign : Sign) : Piece [sign.char]

/-- A function of texts that keeps pieces and drops the spacing between them. -/
structure Condenses (f : List Char → List Char) (spacing : Spacing) : Prop where
  piece : ∀ {cs : List Char}, Piece cs → ∀ rest, f (cs ++ rest) = cs ++ f rest
  lineBreak : ∀ level rest, f (spacing.lineBreak level ++ rest) = f rest
  afterColon : ∀ rest, f (spacing.afterColon ++ rest) = f rest

section

variable {f : List Char → List Char} {spacing : Spacing} (h : Condenses f spacing)
include h

theorem Condenses.sign (c : Char) (hc : (Sign.ofChar? c).isSome) (rest : List Char) :
    f (c :: rest) = c :: f rest := by
  obtain ⟨sign, hsign⟩ := Option.isSome_iff_exists.1 hc
  rw [← Sign.char_of_ofChar? hsign]
  exact h.piece (.sign sign) rest

mutual

/-- A document is condensed to its compact text, in front of any text. -/
theorem Condenses.writeBefore (level : Nat) :
    ∀ (json : Json) (after : List Char), json.Readable →
      f (json.writeBefore spacing level after) = json.writeBefore .compact level (f after)
  | null, after, _ => h.piece .null after
  | number written, after, hnumber => h.piece (.number hnumber) after
  | string value, after, _ => h.piece (.quote value) after
  | array [], after, _ => by
    show f ('[' :: ']' :: after) = '[' :: ']' :: f after
    rw [h.sign '[' rfl, h.sign ']' rfl]
  | array (item :: items), after, ⟨hitem, hitems⟩ => by
    rw [Json.writeBefore, h.sign '[' rfl, h.lineBreak,
      Condenses.writeBefore (level + 1) item _ hitem,
      Condenses.writeItems (level + 1) items _ hitems, h.lineBreak, h.sign ']' rfl]
    rfl
  | object [], after, _ => by
    show f ('\x7b' :: '\x7d' :: after) = '\x7b' :: '\x7d' :: f after
    rw [h.sign '\x7b' rfl, h.sign '\x7d' rfl]
  | object ((key, value) :: members), after, ⟨hvalue, hmembers⟩ => by
    rw [Json.writeBefore, h.sign '\x7b' rfl, h.lineBreak, h.piece (.quote key), h.sign ':' rfl,
      h.afterColon, Condenses.writeBefore (level + 1) value _ hvalue,
      Condenses.writeMembers (level + 1) members _ hmembers, h.lineBreak, h.sign '\x7d' rfl]
    rfl

theorem Condenses.writeItems (level : Nat) : ∀ (items : List Json) (after : List Char),
    ItemsReadable items →
      f (writeItems spacing level items after) = Json.writeItems .compact level items (f after)
  | [], _, _ => rfl
  | item :: items, after, ⟨hitem, hitems⟩ => by
    rw [Json.writeItems, h.sign ',' rfl, h.lineBreak, Condenses.writeBefore level item _ hitem,
      Condenses.writeItems level items after hitems]
    rfl

theorem Condenses.writeMembers (level : Nat) :
    ∀ (members : List (String × Json)) (after : List Char), MembersReadable members →
      f (writeMembers spacing level members after) =
        Json.writeMembers .compact level members (f after)
  | [], _, _ => rfl
  | (key, value) :: members, after, ⟨hvalue, hmembers⟩ => by
    rw [Json.writeMembers, h.sign ',' rfl, h.lineBreak, h.piece (.quote key), h.sign ':' rfl,
      h.afterColon, Condenses.writeBefore level value _ hvalue,
      Condenses.writeMembers level members after hmembers]
    rfl

end

end

/-! ## The indented text without its spacing -/

theorem Piece.keeps {cs : List Char} (h : Piece cs) : Scan.outside.Keeps cs .outside := by
  cases h with
  | null => exact ⟨rfl, rfl⟩
  | number hnumber =>
    apply Scan.keeps_of_forall
    intro c hc
    have hnumeric := isNumeric_of_isNumber hnumber c hc
    -- no character of a number is a space, a line break or a quotation mark
    have hother : ∀ d : Char, isNumeric d = false → c ≠ d := by
      rintro d hd rfl
      rw [hd] at hnumeric
      cases hnumeric
    have hspace := hother ' ' (by decide)
    have hbreak := hother '\n' (by decide)
    have hquote := hother '"' (by decide)
    simp [Scan.isSpacing, Scan.next, hspace, hbreak, hquote]
  | quote text => exact Scan.keeps_quote text
  | sign sign => cases sign <;> exact ⟨rfl, rfl⟩

theorem unspaced_spaces (n : Nat) (rest : List Char) :
    Scan.outside.unspaced (List.replicate n ' ' ++ rest) = Scan.outside.unspaced rest := by
  induction n with
  | zero => rfl
  | succ n ih =>
    rw [List.replicate_succ, List.cons_append]
    exact ih

theorem condenses_unspaced (spacing : Spacing) : Condenses Scan.outside.unspaced spacing where
  piece := fun h rest => h.keeps.unspaced_append rest
  lineBreak := by
    intro level rest
    cases spacing with
    | compact => rfl
    | indented => exact unspaced_spaces (2 * level) rest
  afterColon := by
    intro rest
    cases spacing with
    | compact => rfl
    | indented => rfl

/-- A document without its spacing is compact, however it is spaced. -/
theorem unspaced_write {json : Json} (h : json.Readable) (spacing : Spacing) :
    unspaced (json.write spacing) = json.write .compact := by
  have hcondensed := (condenses_unspaced spacing).writeBefore 0 json [] h
  unfold unspaced write
  rw [String.toList_ofList, hcondensed]
  rfl

/-! ## Control characters -/

/-- Whether a character is no control character, those behind `U+001F` apart. -/
def isPrintable (c : Char) : Bool :=
  0x20 ≤ c.toNat

theorem isPrintable_hexDigit (n : Nat) : isPrintable (hexDigit n) := by
  have hall : ∀ n < 16, isPrintable (Nat.digitChar n) := by decide
  exact hall (n % 16) (Nat.mod_lt n (by decide))

theorem isPrintable_escape (c : Char) : ∀ d ∈ escape c, isPrintable d := by
  unfold escape
  split_ifs with _ _ _ _ _ _ _ hcontrol
  -- seven characters have an escape of their own
  any_goals (apply List.all_eq_true.1; decide)
  · have hcode : ∀ d ∈ ['\\', 'u', '0', '0'], isPrintable d := List.all_eq_true.1 (by decide)
    have hdigits : ∀ d ∈ [hexDigit (c.toNat / 16), hexDigit c.toNat], isPrintable d := by
      simp [isPrintable_hexDigit]
    exact List.forall_mem_append.2 ⟨hcode, hdigits⟩
  · have hself : isPrintable c := by
      apply decide_eq_true
      omega
    exact List.forall_mem_singleton.2 hself

theorem isPrintable_quote (text : String) : ∀ c ∈ quote text, isPrintable c := by
  have hmark : ∀ c ∈ ['"'], isPrintable c := List.forall_mem_singleton.2 (by decide)
  have hescapes : ∀ c ∈ text.toList.flatMap escape, isPrintable c := by
    intro c hc
    obtain ⟨d, -, hd⟩ := List.mem_flatMap.1 hc
    exact isPrintable_escape d c hd
  exact List.forall_mem_append.2 ⟨List.forall_mem_append.2 ⟨hmark, hescapes⟩, hmark⟩

theorem isPrintable_of_isNumeric {c : Char} (h : isNumeric c) : isPrintable c := by
  simp only [isNumeric, Bool.or_eq_true, decide_eq_true_eq] at h
  rcases h with ((((hdigit | rfl) | rfl) | rfl) | rfl) | rfl
  · apply decide_eq_true
    have hzero : 48 ≤ c.toNat := (Char.isDigit_iff_toNat.1 hdigit).1
    omega
  all_goals decide

theorem Piece.isPrintable {cs : List Char} (h : Piece cs) : ∀ c ∈ cs, isPrintable c := by
  cases h with
  | null => exact List.all_eq_true.1 (by decide)
  | number hnumber =>
    intro c hc
    exact isPrintable_of_isNumeric (isNumeric_of_isNumber hnumber c hc)
  | quote text => exact isPrintable_quote text
  | sign sign => cases sign <;> exact List.forall_mem_singleton.2 (by decide)

theorem condenses_filter : Condenses (List.filter isPrintable) .compact where
  piece := by
    intro cs h rest
    rw [List.filter_append, List.filter_eq_self.2 h.isPrintable]
  lineBreak := fun _ _ => rfl
  afterColon := fun _ => rfl

/-- A compact document has no control characters. -/
theorem isPrintable_write_compact {json : Json} (h : json.Readable) :
    ∀ c ∈ (json.write .compact).toList, isPrintable c := by
  have hfilter := condenses_filter.writeBefore 0 json [] h
  rw [write, String.toList_ofList]
  exact List.filter_eq_self.1 hfilter

end ResourceQuery.Json
