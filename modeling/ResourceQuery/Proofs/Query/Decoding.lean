import Mathlib
import ResourceQuery.Proofs.Json.Reader
import ResourceQuery.Proofs.Number.Expansion
import ResourceQuery.Proofs.Number.Written
import ResourceQuery.Proofs.Query.Literals

/-!
# Decoding queries

A query is got back from its JSON text: the text is read as a document, and the document as a
query, along the member `node` that names the kind. Members are looked up by their names. Numbers
with a fraction or an exponent are floats, the others integers.

How a value is read from its document is a parameter of the decoder, so that what the documents of
two queries have in common can be told also where not every value is got back.
-/

namespace ResourceQuery

/-! ## Numbers -/

namespace Json

/-- A numeral with a minus in front if the number is negative. -/
def signed (negative : Bool) (numeral : Numeral) : List Char :=
  if negative then '-' :: numeral.chars else numeral.chars

end Json

/-- A numeral begins with a digit. -/
theorem Numeral.Regular.head_ne_minus {numeral : Numeral} (h : numeral.Regular) :
    numeral.chars.head? ≠ some '-' := by
  obtain ⟨first, rest, hwhole⟩ := List.exists_cons_of_ne_nil h.whole.1
  have hdigit : first.isDigit := h.whole.2 first (hwhole ▸ List.mem_cons_self)
  unfold Numeral.chars
  rw [hwhole]
  intro hhead
  cases hhead
  exact absurd hdigit (by decide)

/-- The value that a numeral denotes, behind a minus or not. -/
def Literal.ofNumeral? (negative : Bool) (numeral : Numeral) : Option Literal :=
  match numeral.natural? with
  | some n =>
    let value : Int := if negative then -n else n
    if -2 ^ 63 ≤ value ∧ value < 2 ^ 63 then some (integer (Int64.ofInt value)) else none
  | none =>
    let size := Binary64.ofDecimal numeral.decimal
    some (float (if negative then -size else size))

/-- The value that a number of a document denotes. -/
def Literal.ofNumber? (written : List Char) : Option Literal :=
  if written.head? = some '-' then
    (Numeral.ofChars? written.tail).bind (Literal.ofNumeral? true)
  else (Numeral.ofChars? written).bind (Literal.ofNumeral? false)

theorem Json.isNumber_signed {numeral : Numeral} (h : numeral.Standard) (negative : Bool) :
    Json.isNumber (Json.signed negative numeral) := by
  have hunsigned : Json.isUnsigned numeral.chars := by
    unfold Json.isUnsigned
    rw [h.ofChars?_chars]
    exact h.isStandard
  cases negative with
  | false =>
    show (if numeral.chars.head? = some '-' then _ else _) = true
    rw [if_neg h.head_ne_minus]
    exact hunsigned
  | true => exact hunsigned

theorem Literal.ofNumber?_signed {numeral : Numeral} (h : numeral.Standard) (negative : Bool) :
    Literal.ofNumber? (Json.signed negative numeral) = Literal.ofNumeral? negative numeral := by
  have hread := h.ofChars?_chars
  cases negative with
  | false =>
    show (if numeral.chars.head? = some '-' then _
      else (Numeral.ofChars? numeral.chars).bind _) = _
    rw [if_neg h.head_ne_minus, hread, Option.bind_some]
  | true =>
    show (Numeral.ofChars? numeral.chars).bind _ = _
    rw [hread, Option.bind_some]

theorem Json.ofNat_eq_signed (n : Nat) :
    Json.ofNat n = .number (Json.signed false (Numeral.ofNat n)) := by
  simp [Json.ofNat, Json.signed, Numeral.chars_ofNat]

theorem Json.ofInt_eq_signed (n : Int) :
    Json.ofInt n = .number (Json.signed (n < 0) (Numeral.ofNat n.natAbs)) := by
  simp [Json.ofInt, Json.signed, Numeral.chars_ofNat]

/-! ## The decoder -/

namespace Json

def text? : Json → Option String
  | string value => some value
  | _ => none

/-- The text of a named member. -/
def textOf? (members : List (String × Json)) (key : String) : Option String :=
  (members.lookup key).bind text?

/-- The operation that the member `operator` names. -/
def operationOf? (members : List (String × Json)) : Option Operation :=
  (textOf? members "operator").bind Operation.ofWord?

/-- A natural number of sixty-four bits, written in digits alone. -/
def count? : Json → Option UInt64
  | number written =>
    match (Numeral.ofChars? written).bind Numeral.natural? with
    | some n => if n < 2 ^ 64 then some (UInt64.ofNat n) else none
    | none => none
  | _ => none

/-- The items of a list, each read in one way. -/
def items? {α : Type} (read : Json → Option α) : Json → Option (List α)
  | array items => items.mapM read
  | _ => none

end Json

open Json (textOf? operationOf? count? items?)

/-- The order that a word names. -/
def Direction.ofWord? (text : String) : Option Direction :=
  [asc, desc].find? fun direction => direction.word = text

theorem Direction.ofWord?_word (direction : Direction) : ofWord? direction.word = some direction := by
  cases direction <;> decide

def SortField.ofDocument? : Json → Option SortField
  | .object members =>
    match textOf? members "property", (textOf? members "direction").bind Direction.ofWord? with
    | some property, some direction => some ⟨property, direction⟩
    | _, _ => none
  | _ => none

/-- The value of a document: null, lists and records are no values. -/
def Literal.ofDocument? : Json → Option Literal
  | .string value => some (text value)
  | .number written => ofNumber? written
  | _ => none

namespace Query

section

variable (read : Json → Option Literal)

/-- The query of a record, of which the operands have been read. -/
def ofMembers? (members : List (String × Json)) (operands : Option (List Query)) :
    Option Query :=
  match textOf? members "node" with
  | none => none
  | some node =>
    if node = "comparison" then
      match operationOf? members, textOf? members "property",
        (members.lookup "value").bind read with
      | some (.comparison op), some property, some value => some (comparison op property value)
      | _, _, _ => none
    else if node = "boolean_combinator" then
      match operationOf? members, operands with
      | some (.combination op), some operands => some (combination op operands)
      | _, _ => none
    else if node = "sort" then
      ((members.lookup "fields").bind (items? SortField.ofDocument?)).map sort
    else if node = "limit" then
      match (members.lookup "limit").bind count?, (members.lookup "skip").bind count? with
      | some count, some skip => some (limit count skip)
      | _, _ => none
    else if node = "set_membership" then
      match operationOf? members, textOf? members "property",
        (members.lookup "values").bind (items? read) with
      | some (.membership op), some property, some values =>
        some (membership op property values)
      | _, _, _ => none
    else none

mutual

/-- The query of a document. -/
def ofDocument? : Json → Option Query
  | .object members => ofMembers? read members (operandsIn? members)
  | _ => none

/-- The queries of the member `operands`, if it is a list of queries. -/
def operandsIn? : List (String × Json) → Option (List Query)
  | [] => none
  | (key, .array items) :: members =>
    if key = "operands" then ofDocuments? items else operandsIn? members
  | (key, _) :: members => if key = "operands" then none else operandsIn? members

/-- The queries of some documents. -/
def ofDocuments? : List Json → Option (List Query)
  | [] => some []
  | item :: items =>
    match ofDocument? item, ofDocuments? items with
    | some query, some queries => some (query :: queries)
    | _, _ => none

end

end

/-- The query of a JSON text. -/
def ofJson? (text : String) : Option Query :=
  (Json.read? text).bind (ofDocument? Literal.ofDocument?)

end Query

/-! ## Documents of queries are readable -/

theorem Json.readable_ofNat (n : Nat) : (Json.ofNat n).Readable := by
  rw [Json.ofNat_eq_signed]
  exact Json.isNumber_signed (Numeral.standard_ofNat n) false

theorem Literal.readable_document (value : Literal) : value.document.Readable := by
  cases value with
  | integer n =>
    rw [document, Json.ofInt_eq_signed]
    exact Json.isNumber_signed (Numeral.standard_ofNat _) _
  | float x =>
    by_cases hfinite : x.isFinite
    · have hnumber := Json.isNumber_signed (Json.standard_floatNumeral hfinite) x.negative
      rw [document, if_pos hfinite, Json.write_eq_floatNumeral]
      exact hnumber
    · rw [document, if_neg hfinite]
      trivial
  | text s => trivial

theorem Json.itemsReadable_map {α : Type} {document : α → Json} {parts : List α}
    (h : ∀ part ∈ parts, (document part).Readable) : Json.ItemsReadable (parts.map document) := by
  induction parts with
  | nil => trivial
  | cons part parts ih =>
    obtain ⟨hpart, hparts⟩ := List.forall_mem_cons.1 h
    exact ⟨hpart, ih hparts⟩

theorem Query.documents_eq_map (queries : List Query) :
    Query.documents queries = queries.map Query.document := by
  induction queries with
  | nil => rfl
  | cons query queries ih => rw [Query.documents, ih, List.map_cons]

theorem Query.readable_document (query : Query) : query.document.Readable := by
  induction query using Query.induction with
  | comparison op property value =>
    exact ⟨trivial, trivial, trivial, value.readable_document, trivial⟩
  | combination op operands ih =>
    have hoperands : Json.ItemsReadable (documents operands) := by
      rw [documents_eq_map]
      exact Json.itemsReadable_map ih
    exact ⟨trivial, trivial, hoperands, trivial⟩
  | sort fields =>
    have hfields : Json.ItemsReadable (fields.map SortField.document) :=
      Json.itemsReadable_map fun _ _ => ⟨trivial, trivial, trivial⟩
    exact ⟨trivial, hfields, trivial⟩
  | limit count skip =>
    exact ⟨trivial, Json.readable_ofNat _, Json.readable_ofNat _, trivial⟩
  | membership op property values =>
    have hvalues : Json.ItemsReadable (values.map Literal.document) :=
      Json.itemsReadable_map fun value _ => value.readable_document
    exact ⟨trivial, trivial, trivial, hvalues, trivial⟩

/-! ## Parts are got back -/

theorem Json.count?_ofNat (count : UInt64) : Json.count? (.ofNat count.toNat) = some count := by
  have hread := (Numeral.standard_ofNat count.toNat).ofChars?_chars
  rw [Numeral.chars_ofNat] at hread
  unfold Json.count? Json.ofNat
  dsimp only
  rw [hread, Option.bind_some, Numeral.natural?_ofNat]
  dsimp only
  rw [if_pos count.toNat_lt, UInt64.ofNat_toNat]

theorem SortField.ofDocument?_document (field : SortField) :
    ofDocument? field.document = some field := by
  have hdirection := Direction.ofWord?_word field.direction
  show (match some field.property, (some field.direction.word).bind Direction.ofWord? with
    | some property, some direction => some (⟨property, direction⟩ : SortField)
    | _, _ => none) = _
  rw [Option.bind_some, hdirection]

/-- What each part is read as, a list of parts is read as. -/
theorem Json.mapM_map {α β : Type} {read : Json → Option β} {document : α → Json} {f : α → β}
    {parts : List α} (h : ∀ part ∈ parts, read (document part) = some (f part)) :
    (parts.map document).mapM read = some (parts.map f) := by
  induction parts with
  | nil => rfl
  | cons part parts ih =>
    obtain ⟨hpart, hparts⟩ := List.forall_mem_cons.1 h
    rw [List.map_cons, List.mapM_cons, hpart, ih hparts]
    rfl

/-- A value is got back from its document, unless it is a float that is not finite. -/
theorem Literal.ofDocument?_document {value : Literal} (h : value.Finite) :
    ofDocument? value.document = some value := by
  cases value with
  | integer n =>
    have hread := Literal.ofNumber?_signed (Numeral.standard_ofNat n.toInt.natAbs) (n.toInt < 0)
    have hvalue : (if n.toInt < 0 then -(n.toInt.natAbs : Int) else n.toInt.natAbs) = n.toInt := by
      omega
    rw [document, Json.ofInt_eq_signed]
    show ofNumber? _ = _
    rw [hread]
    unfold ofNumeral?
    rw [Numeral.natural?_ofNat]
    simp only [decide_eq_true_eq, hvalue]
    rw [if_pos ⟨n.le_toInt, n.toInt_lt⟩, Int64.ofInt_toInt]
  | float x =>
    have hfinite : x.isFinite := h
    have hread := Literal.ofNumber?_signed (Json.standard_floatNumeral hfinite) x.negative
    rw [document, if_pos hfinite, Json.write_eq_floatNumeral]
    show ofNumber? (Json.signed x.negative (Json.floatNumeral x)) = _
    rw [hread]
    unfold ofNumeral?
    rw [Json.natural?_floatNumeral]
    dsimp only
    rw [Json.ofDecimal_floatNumeral hfinite]
    -- the sign stands in front of the numeral
    obtain ⟨negative, magnitude, hlt⟩ := x
    cases negative <;> rfl
  | text s => rfl

namespace Query

section

variable {read : Json → Option Literal} {f : Literal → Literal}

theorem ofDocuments?_eq_mapM (items : List Json) :
    ofDocuments? read items = items.mapM (ofDocument? read) := by
  induction items with
  | nil => rfl
  | cons item items ih =>
    rw [ofDocuments?, ih, List.mapM_cons]
    cases ofDocument? read item <;> cases items.mapM (ofDocument? read) <;> rfl

/-- If each value is read from its document in one way, a tree is read with all values so read. -/
theorem ofDocument?_document {query : Query}
    (h : ∀ value ∈ query.literals, read value.document = some (f value)) :
    ofDocument? read query.document = some (query.mapLiterals f) := by
  induction query using Query.induction with
  | comparison op property value =>
    have hop : Operation.ofWord? op.word = some (.comparison op) :=
      Operation.ofWord?_word (.comparison op)
    rw [literals_comparison, List.forall_mem_singleton] at h
    simp [document, ofDocument?, ofMembers?, textOf?, operationOf?, Json.text?, List.lookup,
      mapLiterals, hop, h]
  | combination op operands ih =>
    have hop : Operation.ofWord? op.word = some (.combination op) :=
      Operation.ofWord?_word (.combination op)
    have hoperands : ofDocuments? read (documents operands) =
        some (mapLiteralsOfAll f operands) := by
      rw [ofDocuments?_eq_mapM, documents_eq_map, mapLiteralsOfAll_eq_map]
      refine Json.mapM_map fun operand hoperand => ih operand hoperand fun value hvalue => ?_
      exact h value (mem_literals_combination.2 ⟨operand, hoperand, hvalue⟩)
    simp [document, ofDocument?, operandsIn?, ofMembers?, textOf?, operationOf?, Json.text?,
      List.lookup, mapLiterals, hop, hoperands]
  | sort fields =>
    have hfields : (fields.map SortField.document).mapM SortField.ofDocument? =
        some (fields.map id) :=
      Json.mapM_map fun field _ => field.ofDocument?_document
    simp [document, ofDocument?, ofMembers?, textOf?, Json.text?, items?, List.lookup, mapLiterals,
      hfields]
  | limit count skip =>
    have hcount := Json.count?_ofNat count
    have hskip := Json.count?_ofNat skip
    simp [document, ofDocument?, ofMembers?, textOf?, Json.text?, List.lookup, mapLiterals, hcount,
      hskip]
  | membership op property values =>
    have hop : Operation.ofWord? op.word = some (.membership op) :=
      Operation.ofWord?_word (.membership op)
    rw [literals_membership] at h
    have hvalues := Json.mapM_map h
    simp [document, ofDocument?, ofMembers?, textOf?, operationOf?, Json.text?, items?, List.lookup,
      mapLiterals, hop, hvalues]

end

/-! ## Queries are got back -/

/-- The document of any query is read from its text. -/
theorem read?_toJson (query : Query) (spacing : Json.Spacing) :
    Json.read? (query.toJson spacing) = some query.document :=
  Json.read?_write query.readable_document spacing

theorem ofJson?_of_finite {query : Query} (h : query.Finite) (spacing : Json.Spacing) :
    ofJson? (query.toJson spacing) = some query := by
  have hself : query.mapLiterals id = query := mapLiterals_eq_self fun _ _ => rfl
  have hdocument : ofDocument? Literal.ofDocument? query.document = some (query.mapLiterals id) :=
    ofDocument?_document fun value hvalue => Literal.ofDocument?_document (h value hvalue)
  rw [ofJson?, read?_toJson, Option.bind_some, hdocument, hself]

/--
A query with finite floats, be it one that no query text denotes, is got back from its JSON text,
whatever the spacing; and no other such query has this text.
-/
theorem ofJson?_toJson {query : Query} (h : query.Finite) (spacing : Json.Spacing) :
    ofJson? (query.toJson spacing) = some query ∧
      ∀ (other : Query) (spacing' : Json.Spacing), other.Finite →
        other.toJson spacing' = query.toJson spacing → other = query := by
  have hquery := ofJson?_of_finite h spacing
  refine ⟨hquery, fun other spacing' hother htext => ?_⟩
  have hsame := ofJson?_of_finite hother spacing'
  rw [htext, hquery] at hsame
  exact (Option.some.inj hsame).symm

/-- Nothing combined, no name, texts that look like numbers or are escaped, and a negative zero. -/
theorem json_of_unwritable_query :
    ∃ query : Query,
      query.toJson .compact =
        "\x7b\"node\":\"boolean_combinator\",\"operator\":\"or\",\"operands\":[" ++
        "\x7b\"node\":\"boolean_combinator\",\"operator\":\"and\",\"operands\":[]\x7d," ++
        "\x7b\"node\":\"set_membership\",\"operator\":\"out\",\"property\":\"\"," ++
        "\"values\":[-9223372036854775808,-0.0,0,\"0\",\"\\\"\\\\\\u0001\u00e9\"]\x7d]\x7d" ∧
      ofJson? (query.toJson .compact) = some query := by
  let values : List Literal :=
    [.integer (-9223372036854775808), .float ⟨true, 0, by decide⟩, .integer 0, .text "0",
      .text "\"\\\x01\u00e9"]
  let query : Query := .combination .or [.combination .and [], .membership .outside "" values]
  have hfinite : query.Finite := by decide
  exact ⟨query, by cbv, (ofJson?_toJson hfinite .compact).1⟩

end Query

end ResourceQuery
