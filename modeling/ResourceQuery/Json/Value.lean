/-!
# JSON documents

A JSON document is null, a number with its written form, a string, a list of documents or a
record of named documents in a fixed order.
-/

namespace ResourceQuery

/-- A JSON document. -/
inductive Json
  | null
  | number (written : List Char)
  | string (value : String)
  | array (items : List Json)
  | object (members : List (String × Json))

end ResourceQuery
