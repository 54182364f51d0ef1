import ResourceQuery.Proofs.Grammar.Acceptance
import ResourceQuery.Proofs.Writing.Words

/-!
# Writing queries

A query is written as its keyword and its arguments in parentheses, with commas between them, and
nothing is left out that has a default. Read again, the text gives back the same query, down to
the sign of a zero. The query must be one that can be written: its names and texts must stand for
themselves, and its numbers must have a numeral.
-/

namespace ResourceQuery

open Grammar (Arguments Closed Field Joined Value)
open Lexer (Spells)

/-! ## The text of a query -/

/-- The sign in front of what it negates. -/
def signed (negative : Bool) (cs : List Char) : List Char :=
  if negative then '-' :: cs else cs

/-- A value: digits for an integer, the whole expansion for a float, a text as it is. -/
def Literal.write : Literal → List Char
  | integer n => signed (n.toInt < 0) (Decimal.digitChars n.toInt.natAbs)
  | float x => signed x.negative x.expansion.chars
  | text s => s.toList

/-- A sort field, with a sign if it sorts downwards. -/
def SortField.write (field : SortField) : List Char :=
  signed (field.direction = .desc) field.property.toList

/-- Texts with commas between them. -/
def commas (items : List (List Char)) : List Char :=
  [Mark.comma.char].intercalate items

/-- An operation with its arguments. -/
def call (op : Operation) (arguments : List (List Char)) : List Char :=
  op.word.toList ++ Mark.openParen.char :: (commas arguments ++ [Mark.closeParen.char])

/-- Values in brackets. -/
def bracketed (values : List Literal) : List Char :=
  Mark.openBracket.char :: (commas (values.map Literal.write) ++ [Mark.closeBracket.char])

namespace Query

mutual

/-- A query in the language. -/
def write : Query → List Char
  | comparison op property value => call (.comparison op) [property.toList, value.write]
  | combination op operands => call (.combination op) (writeAll operands)
  | sort fields => call .sort (fields.map SortField.write)
  | limit count skip =>
    call .limit [Decimal.digitChars count.toNat, Decimal.digitChars skip.toNat]
  | membership op property values =>
    call (.membership op) [property.toList, bracketed values]

/-- Some queries, each in the language. -/
def writeAll : List Query → List (List Char)
  | [] => []
  | query :: queries => query.write :: writeAll queries

end

theorem writeAll_eq_map (queries : List Query) : writeAll queries = queries.map write := by
  induction queries with
  | nil => rfl
  | cons query queries ih => rw [writeAll, ih, List.map_cons]

/-- The text that a query is written as. -/
def text (query : Query) : String :=
  String.ofList query.write

end Query

/-! ## What can be written -/

/--
A value that can be written. The least integer cannot: without its sign it is out of range. What
is infinite or not a number has no digits.
-/
def Literal.Writable : Literal → Prop
  | integer n => n ≠ Int64.minValue
  | float x => x.isFinite
  | text s => PlainText s

instance (value : Literal) : Decidable value.Writable :=
  match value with
  | .integer n => inferInstanceAs (Decidable (n ≠ Int64.minValue))
  | .float x => inferInstanceAs (Decidable (x.isFinite = true))
  | .text s => inferInstanceAs (Decidable (PlainText s))

/-- A query that can be written. -/
inductive Query.Writable : Query → Prop
  | comparison {op : Comparison} {property : String} {value : Literal}
      (hproperty : PlainText property) (hvalue : value.Writable) :
      Writable (.comparison op property value)
  | combination {op : Combinator} {operands : List Query} (hne : operands ≠ [])
      (hoperands : ∀ operand ∈ operands, Writable operand) :
      Writable (.combination op operands)
  | sort {fields : List SortField} (hne : fields ≠ [])
      (hfields : ∀ field ∈ fields, PlainText field.property) : Writable (.sort fields)
  | limit {count skip : UInt64} (hcount : count.toNat ≤ Kind.integerMax)
      (hskip : skip.toNat ≤ Kind.integerMax) : Writable (.limit count skip)
  | membership {op : Membership} {property : String} {values : List Literal}
      (hproperty : PlainText property) (hvalues : ∀ value ∈ values, value.Writable) :
      Writable (.membership op property values)

/-! ## Values and fields -/

/-- An integer is what its sign makes of its size, and but for one the size is in range. -/
theorem integer_of_natAbs {n : Int64} (h : n ≠ Int64.minValue) :
    n.toInt.natAbs ≤ Kind.integerMax ∧
      n = if n.toInt < 0 then -Int64.ofNat n.toInt.natAbs else Int64.ofNat n.toInt.natAbs := by
  have hlow : -2 ^ 63 ≤ n.toInt := n.le_toInt
  have hhigh : n.toInt < 2 ^ 63 := n.toInt_lt
  have hne : n.toInt ≠ -2 ^ 63 := by
    intro hmin
    apply h
    rw [← Int64.toInt_inj, hmin]
    rfl
  -- without the least integer, the range is the same on both sides of zero
  refine ⟨by unfold Kind.integerMax; omega, ?_⟩
  rw [← Int64.ofInt_eq_ofNat]
  by_cases hneg : n.toInt < 0
  · rw [if_pos hneg, ← Int64.ofInt_neg, Int.ofNat_natAbs_of_nonpos (by omega), Int.neg_neg,
      Int64.ofInt_toInt]
  · rw [if_neg hneg, Int.natAbs_of_nonneg (by omega), Int64.ofInt_toInt]

/-- A number with a sign denotes the negated number. -/
theorem spells_signed {cs : List Char} {value : Literal} (negative : Bool)
    (h : Spells cs fun spelt => ∃ token, spelt = [token] ∧ Grammar.Number token value) :
    Spells (signed negative cs) fun spelt =>
      Value spelt (if negative then value.negated else value) := by
  cases negative with
  | false =>
    refine h.mono ?_
    intro spelt hspelt
    obtain ⟨token, rfl, hnumber⟩ := hspelt
    exact .number hnumber
  | true =>
    refine (h.cons .minus).mono ?_
    intro spelt hspelt
    obtain ⟨sign, behind, hsign, ⟨token, rfl, hnumber⟩, rfl⟩ := hspelt
    exact .minus hsign hnumber

theorem spells_value {value : Literal} (h : value.Writable) :
    Spells value.write fun spelt => Value spelt value := by
  cases value with
  | integer n =>
    -- the digits are those of the size, and negating is what the sign is for
    obtain ⟨hle, hn⟩ := integer_of_natAbs h
    have hnumber : Spells (Decimal.digitChars n.toInt.natAbs) fun spelt => ∃ token,
        spelt = [token] ∧ Grammar.Number token (.integer (Int64.ofNat n.toInt.natAbs)) := by
      refine (spells_natural hle).mono ?_
      intro spelt hspelt
      obtain ⟨token, rfl, hnumber, -⟩ := hspelt
      exact ⟨token, rfl, hnumber⟩
    have hvalue : Literal.integer n =
        if decide (n.toInt < 0) then (Literal.integer (Int64.ofNat n.toInt.natAbs)).negated
        else .integer (Int64.ofNat n.toInt.natAbs) := by
      by_cases hneg : n.toInt < 0
      · rw [if_pos hneg] at hn
        rw [if_pos (decide_eq_true hneg), Literal.negated, ← hn]
      · rw [if_neg hneg] at hn
        rw [if_neg (by simpa using hneg), ← hn]
    have hspells := spells_signed (decide (n.toInt < 0)) hnumber
    rw [← hvalue] at hspells
    exact hspells
  | float x =>
    have hvalue : Literal.float x =
        if x.negative then (Literal.float ⟨false, x.magnitude, x.magnitude_lt⟩).negated
        else .float ⟨false, x.magnitude, x.magnitude_lt⟩ := by
      obtain ⟨negative, magnitude, hlt⟩ := x
      cases negative <;> rfl
    have hspells := spells_signed x.negative (spells_expansion h)
    rw [← hvalue] at hspells
    exact hspells
  | text s =>
    refine (spells_text h).mono ?_
    intro spelt hspelt
    obtain ⟨token, rfl, hkind, rfl⟩ := hspelt
    exact .text hkind

theorem spells_field {field : SortField} (h : PlainText field.property) :
    Spells field.write fun spelt => Field spelt field := by
  obtain ⟨property, direction⟩ := field
  have hname := spells_text h
  cases direction with
  | asc =>
    refine hname.mono ?_
    intro spelt hspelt
    obtain ⟨name, rfl, hkind, rfl⟩ := hspelt
    exact .bare hkind
  | desc =>
    refine (hname.cons .minus).mono ?_
    intro spelt hspelt
    obtain ⟨sign, behind, hsign, ⟨name, rfl, hkind, rfl⟩, rfl⟩ := hspelt
    exact .minus hsign hkind

/-! ## Arguments -/

theorem commas_cons (first second : List Char) (items : List (List Char)) :
    commas (first :: second :: items) =
      first ++ Mark.comma.char :: commas (second :: items) := by
  rw [commas, List.intercalate_cons_cons, List.append_assoc]
  rfl

/-- Items that are spelt, with commas between them, spell the list of them. -/
theorem spells_commas {α : Type} {item : List Token → α → Prop} {write : α → List Char}
    {xs : List α} (hne : xs ≠ [])
    (h : ∀ x ∈ xs, Spells (write x) fun spelt => item spelt x) :
    Spells (commas (xs.map write)) fun spelt => Joined item spelt xs := by
  -- by induction from the last item to the first, since each comma has its items behind it
  induction xs with
  | nil => exact absurd rfl hne
  | cons x xs ih =>
    have hfirst := h x List.mem_cons_self
    cases xs with
    | nil =>
      have hone : commas [write x] = write x := List.intercalate_singleton
      rw [List.map_singleton, hone]
      exact hfirst.mono fun _ => .one
    | cons y ys =>
      have hrest := ih (List.cons_ne_nil _ _) fun z hz => h z (List.mem_cons_of_mem _ hz)
      rw [List.map_cons, List.map_cons, commas_cons]
      refine (hfirst.append .comma hrest).mono ?_
      intro spelt hspelt
      obtain ⟨before, comma, behind, hbefore, hcomma, hbehind, rfl⟩ := hspelt
      exact hbehind.cons hbefore hcomma

/-- Two arguments, spelt one by one. -/
theorem spells_pair {cs ds : List Char} {form form' : List Token → Prop} (h : Spells cs form)
    (h' : Spells ds form') :
    Spells (commas [cs, ds]) fun spelt => ∃ before comma behind, form before ∧
      comma.kind = .mark .comma ∧ form' behind ∧ spelt = before ++ comma :: behind := by
  have hpair : commas [cs, ds] = cs ++ Mark.comma.char :: ds := by
    rw [commas_cons, commas, List.intercalate_singleton]
  rw [hpair]
  exact h.append .comma h'

theorem spells_bracketed {values : List Literal} (h : ∀ value ∈ values, value.Writable) :
    Spells (bracketed values) fun spelt => ∃ opening tokens closing,
      opening.kind = .mark .openBracket ∧ closing.kind = .mark .closeBracket ∧
        (tokens = [] ∧ values = [] ∨ Joined Value tokens values) ∧
        spelt = opening :: (tokens ++ [closing]) := by
  have hvalues : Spells (commas (values.map Literal.write)) fun spelt =>
      spelt = [] ∧ values = [] ∨ Joined Value spelt values := by
    by_cases hnil : values = []
    · rw [hnil]
      exact Spells.nil.mono fun _ hspelt => .inl ⟨hspelt, rfl⟩
    · have hitems : ∀ value ∈ values, Spells value.write fun spelt => Value spelt value :=
        fun value hvalue => spells_value (h value hvalue)
      exact (spells_commas hnil hitems).mono fun _ => .inr
  refine ((hvalues.concat .closeBracket).cons .openBracket).mono ?_
  intro spelt hspelt
  obtain ⟨opening, _, hopening, ⟨tokens, closing, htokens, hclosing, rfl⟩, rfl⟩ := hspelt
  exact ⟨opening, tokens, closing, hopening, hclosing, htokens, rfl⟩

/-- An operation whose arguments are spelt is a closed query. -/
theorem spells_call {op : Operation} {query : Query} {arguments : List (List Char)}
    (hop : query.operation = op)
    (h : Spells (commas arguments) fun spelt => Arguments Closed spelt query) :
    Spells (call op arguments) fun spelt => Closed spelt query := by
  rw [← hop]
  have hkeyword := spells_keyword query.operation
  refine (hkeyword.append .openParen (h.concat .closeParen)).mono ?_
  intro spelt hspelt
  obtain ⟨_, opening, _, ⟨keyword, rfl, hkind⟩, hopening,
    ⟨tokens, closing, harguments, hclosing, rfl⟩, rfl⟩ := hspelt
  exact .intro hkind hopening harguments hclosing

/-! ## Queries -/

theorem spells_query {query : Query} (h : query.Writable) :
    Spells query.write fun spelt => Closed spelt query := by
  -- along the tree: the operands of a combination are spelt by induction
  induction h with
  | comparison hproperty hvalue =>
    rw [Query.write]
    refine spells_call rfl ((spells_pair (spells_text hproperty) (spells_value hvalue)).mono ?_)
    intro spelt hspelt
    obtain ⟨_, comma, behind, ⟨name, rfl, hname, rfl⟩, hcomma, hbehind, rfl⟩ := hspelt
    exact .comparison hname hcomma hbehind
  | combination hne hoperands ih =>
    rw [Query.write, Query.writeAll_eq_map]
    exact spells_call rfl ((spells_commas hne ih).mono fun _ => .combination)
  | sort hne hfields =>
    rw [Query.write]
    have hitems := spells_commas hne fun field hfield => spells_field (hfields field hfield)
    exact spells_call rfl (hitems.mono fun _ => .sort)
  | @limit count skip hcount hskip =>
    rw [Query.write]
    refine spells_call rfl ((spells_pair (spells_natural hcount) (spells_natural hskip)).mono ?_)
    intro spelt hspelt
    obtain ⟨_, comma, _, ⟨token, rfl, -, hread⟩, hcomma, ⟨token', rfl, -, hread'⟩, rfl⟩ := hspelt
    rw [UInt64.ofNat_toNat] at hread hread'
    exact .limitSkip hread hcomma hread'
  | membership hproperty hvalues =>
    rw [Query.write]
    refine spells_call rfl
      ((spells_pair (spells_text hproperty) (spells_bracketed hvalues)).mono ?_)
    intro spelt hspelt
    obtain ⟨_, comma, _, ⟨name, rfl, hname, rfl⟩, hcomma,
      ⟨opening, tokens, closing, hopening, hclosing, htokens, rfl⟩, rfl⟩ := hspelt
    rcases htokens with ⟨rfl, rfl⟩ | hjoined
    · exact .noMembers hname hcomma hopening hclosing
    · exact .members hname hcomma hopening hjoined hclosing

/-- A query that can be written is what its text denotes. -/
theorem parse_text_of_writable {query : Query} (h : query.Writable) :
    parse query.text = .ok query :=
  parse_eq_ok_iff_derives.2 (.closed (spells_query h).tokenize)

/-- Inner spaces, wide characters, what looks like a number or a keyword, and a negative zero. -/
theorem nested_query_read_back :
    parse ("and(eq(Straße 7 a,-12),or(gt(price,-1.5),out(tag,[1e,In,-0.0]))," ++
        "sort(-in stock),limit(9,0))") =
      .ok (.combination .and
        [.comparison .eq "Straße 7 a" (.integer (-12)),
          .combination .or
            [.comparison .gt "price" (.float ⟨true, 0x3FF8000000000000, by decide⟩),
              .membership .outside "tag" [.text "1e", .text "In", .float ⟨true, 0, by decide⟩]],
          .sort [⟨"in stock", .desc⟩],
          .limit 9 0]) := by
  refine (congrArg parse ?text).trans (parse_text_of_writable ?writable)
  case text => decide +kernel
  case writable =>
    refine .combination (List.cons_ne_nil _ _) ?operands
    simp only [List.forall_mem_cons]
    refine ⟨.comparison (by decide +kernel) (by decide), ?or, .sort (by decide) (by decide +kernel),
      .limit (by decide) (by decide), List.forall_mem_nil _⟩
    case or =>
      refine .combination (List.cons_ne_nil _ _) ?alternatives
      simp only [List.forall_mem_cons]
      exact ⟨.comparison (by decide +kernel) (by decide),
        .membership (by decide +kernel) (by decide +kernel), List.forall_mem_nil _⟩

end ResourceQuery
