import ResourceQuery.Json.Quoted
import ResourceQuery.Json.Value

/-!
# Written documents

A document is written on one line without blanks, or with each item and member on a line of its
own, indented by two blanks a level. Both are one function of the spacing, so they differ in
blanks and line breaks between the signs only. Empty lists and records are written without a
break.
-/

namespace ResourceQuery.Json

/-- The two ways to space a document. -/
inductive Spacing
  | compact
  | indented
deriving DecidableEq

namespace Spacing

/-- What separates the signs of a level: nothing, or a line break and the indentation. -/
def lineBreak : Spacing → Nat → List Char
  | compact, _ => []
  | indented, level => '\n' :: List.replicate (2 * level) ' '

/-- What follows the colon of a member. -/
def afterColon : Spacing → List Char
  | compact => []
  | indented => [' ']

end Spacing

mutual

/-- The text of a document at a level of nesting, in front of a given text. -/
def writeBefore (spacing : Spacing) (level : Nat) : Json → List Char → List Char
  | null, after => ['n', 'u', 'l', 'l'] ++ after
  | number written, after => written ++ after
  | string value, after => quote value ++ after
  | array [], after => '[' :: ']' :: after
  | array (item :: items), after =>
    '[' :: (spacing.lineBreak (level + 1) ++
      item.writeBefore spacing (level + 1)
        (writeItems spacing (level + 1) items (spacing.lineBreak level ++ ']' :: after)))
  | object [], after => '{' :: '}' :: after
  | object ((key, value) :: members), after =>
    '{' :: (spacing.lineBreak (level + 1) ++ (quote key ++ ':' :: (spacing.afterColon ++
      value.writeBefore spacing (level + 1)
        (writeMembers spacing (level + 1) members (spacing.lineBreak level ++ '}' :: after)))))

/-- The items of a list after its first, in front of a given text. -/
def writeItems (spacing : Spacing) (level : Nat) : List Json → List Char → List Char
  | [], after => after
  | item :: items, after =>
    ',' :: (spacing.lineBreak level ++
      item.writeBefore spacing level (writeItems spacing level items after))

/-- The members of a record after its first, in front of a given text. -/
def writeMembers (spacing : Spacing) (level : Nat) : List (String × Json) → List Char → List Char
  | [], after => after
  | (key, value) :: members, after =>
    ',' :: (spacing.lineBreak level ++ (quote key ++ ':' :: (spacing.afterColon ++
      value.writeBefore spacing level (writeMembers spacing level members after))))

end

/-- The text of a document. -/
def write (spacing : Spacing) (json : Json) : String :=
  String.ofList (json.writeBefore spacing 0 [])

end ResourceQuery.Json
