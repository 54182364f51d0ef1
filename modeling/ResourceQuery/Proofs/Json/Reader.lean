import ResourceQuery.Proofs.Json.Lexeme

/-!
# Reading documents

The lexemes of a document are read one by one, with the lists and records that are still open on a
stack. What one lexeme does is fixed by the place and the innermost open part alone. A written
document is read back, in either spacing, so that no two documents have the same text.
-/

namespace ResourceQuery.Json

/-! ## The reader -/

/-- A list or a record that is still open, with its parts so far. -/
inductive Frame
  | array (items : List Json)
  | object (members : List (String × Json)) (key : String)

/-- Where the reader stands. -/
inductive Place
  /-- A document must begin; behind an opening bracket the list may also end. -/
  | value
  /-- The name of a member must stand; behind an opening brace the record may also end. -/
  | key (members : List (String × Json))
  | colon (members : List (String × Json)) (key : String)
  /-- A document has been read. -/
  | behind (json : Json)

structure Situation where
  stack : List Frame
  place : Place

namespace Situation

/-- A comma goes on with the innermost open part. -/
def comma (json : Json) : List Frame → Option Situation
  | .array items :: outer => some ⟨.array (items ++ [json]) :: outer, .value⟩
  | .object members key :: outer => some ⟨outer, .key (members ++ [(key, json)])⟩
  | [] => none

/-- Where the reader stands behind a lexeme, unless the lexeme does not fit. -/
def step : Situation → Lexeme → Option Situation
  | ⟨stack, .value⟩, .null => some ⟨stack, .behind .null⟩
  | ⟨stack, .value⟩, .number written => some ⟨stack, .behind (.number written)⟩
  | ⟨stack, .value⟩, .string value => some ⟨stack, .behind (.string value)⟩
  | ⟨stack, .value⟩, .sign .openArray => some ⟨.array [] :: stack, .value⟩
  | ⟨stack, .value⟩, .sign .openObject => some ⟨stack, .key []⟩
  | ⟨.array [] :: outer, .value⟩, .sign .closeArray => some ⟨outer, .behind (.array [])⟩
  | ⟨stack, .key members⟩, .string key => some ⟨stack, .colon members key⟩
  | ⟨stack, .key []⟩, .sign .closeObject => some ⟨stack, .behind (.object [])⟩
  | ⟨stack, .colon members key⟩, .sign .colon => some ⟨.object members key :: stack, .value⟩
  | ⟨stack, .behind json⟩, .sign .comma => comma json stack
  | ⟨.array items :: outer, .behind json⟩, .sign .closeArray =>
    some ⟨outer, .behind (.array (items ++ [json]))⟩
  | ⟨.object members key :: outer, .behind json⟩, .sign .closeObject =>
    some ⟨outer, .behind (.object (members ++ [(key, json)]))⟩
  | _, _ => none

/-- Where the reader stands behind some lexemes. -/
def run : Situation → List Lexeme → Option Situation
  | situation, [] => some situation
  | situation, lexeme :: lexemes => (situation.step lexeme).bind fun next => next.run lexemes

/-- The reader stands before a whole document. -/
def start : Situation :=
  ⟨[], .value⟩

/-- The document that has been read, once nothing is open. -/
def document? : Situation → Option Json
  | ⟨[], .behind json⟩ => some json
  | _ => none

theorem run_cons {situation next : Situation} {lexeme : Lexeme}
    (h : situation.step lexeme = some next) (lexemes : List Lexeme) :
    situation.run (lexeme :: lexemes) = next.run lexemes := by
  rw [run, h, Option.bind_some]

end Situation

/-- The document that a text is. -/
def read? (text : String) : Option Json :=
  ((lexemes? text.toList).bind Situation.start.run).bind Situation.document?

/-! ## Written documents are read back -/

open Situation (run_cons)

mutual

/-- A document is read in front of any lexemes and within any open parts. -/
theorem run_lexemesBefore :
    ∀ (json : Json) (stack : List Frame) (after : List Lexeme),
      Situation.run ⟨stack, .value⟩ (json.lexemesBefore after) =
        Situation.run ⟨stack, .behind json⟩ after
  | null, _, _ => run_cons rfl _
  | number _, _, _ => run_cons rfl _
  | string _, _, _ => run_cons rfl _
  | array [], _, _ => by
    rw [lexemesBefore, run_cons rfl, run_cons rfl]
  | array (item :: items), stack, after => by
    rw [lexemesBefore, run_cons rfl, run_lexemesBefore item, run_itemLexemes items]
    rfl
  | object [], _, _ => by
    rw [lexemesBefore, run_cons rfl, run_cons rfl]
  | object ((key, value) :: members), stack, after => by
    rw [lexemesBefore, run_cons rfl, run_cons rfl, run_cons rfl, run_lexemesBefore value,
      run_memberLexemes members]
    rfl

/-- The rest of a list is read behind an item, and the list is complete. -/
theorem run_itemLexemes :
    ∀ (items before : List Json) (json : Json) (stack : List Frame) (after : List Lexeme),
      Situation.run ⟨.array before :: stack, .behind json⟩
          (itemLexemes items (.sign .closeArray :: after)) =
        Situation.run ⟨stack, .behind (.array (before ++ json :: items))⟩ after
  | [], _, _, _, _ => run_cons rfl _
  | item :: items, before, json, stack, after => by
    rw [itemLexemes, run_cons rfl, run_lexemesBefore item, run_itemLexemes items,
      List.append_assoc, List.singleton_append]

/-- The rest of a record is read behind a member, and the record is complete. -/
theorem run_memberLexemes :
    ∀ (members before : List (String × Json)) (key : String) (json : Json) (stack : List Frame)
      (after : List Lexeme),
      Situation.run ⟨.object before key :: stack, .behind json⟩
          (memberLexemes members (.sign .closeObject :: after)) =
        Situation.run ⟨stack, .behind (.object (before ++ (key, json) :: members))⟩ after
  | [], _, _, _, _, _ => run_cons rfl _
  | (key', value) :: members, before, key, json, stack, after => by
    rw [memberLexemes, run_cons rfl, run_cons rfl, run_cons rfl, run_lexemesBefore value,
      run_memberLexemes members, List.append_assoc, List.singleton_append]

end

/-- A written document is read back, whatever its spacing. -/
theorem read?_write {json : Json} (h : json.Readable) (spacing : Spacing) :
    read? (json.write spacing) = some json := by
  have hrun := run_lexemesBefore json [] []
  rw [read?, lexemes?_write h spacing, Option.bind_some]
  show (Situation.run ⟨[], .value⟩ _).bind _ = _
  rw [hrun]
  rfl

end ResourceQuery.Json
