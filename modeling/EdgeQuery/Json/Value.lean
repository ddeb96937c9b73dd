import EdgeQuery.Text.Bytes
/-! # JSON values

A JSON value as it was written: object members keep their order and repeats, and numbers
keep their text, so that a reader can decide how to take them (as a whole number, as a
binary64 number, or not at all). -/

namespace EdgeQuery

/-- A JSON value. -/
inductive Json where
  | null
  | bool (b : Bool)
  /-- A number, by its text. -/
  | number (text : String)
  | string (s : String)
  | array (items : List Json)
  /-- An object: its members in the order written, repeats included. -/
  | object (members : List (String × Json))
  deriving Inhabited, Repr

namespace Json

/-- The word for the kind of a value, as messages name it. -/
def kindName : Json → String
  | null => "null"
  | bool _ => "bool"
  | number _ => "number"
  | string _ => "string"
  | array _ => "array"
  | object _ => "object"

end Json

end EdgeQuery
