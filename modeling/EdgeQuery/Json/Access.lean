import EdgeQuery.Json.Value
/-! # Looking into JSON values

Accessors that read a member or an item as a text, whole number, truth value, list or
object, giving the empty value of that kind when it is absent or of another kind. A
member named twice counts with its last value. -/

namespace EdgeQuery.Json

/-- The whole number a number's text spells, with no fraction or exponent. -/
def wholeValue? (t : String) : Option Int :=
  let value (ds : List Char) : Nat := ds.foldl (fun n c => n * 10 + (c.toNat - 48)) 0
  match t.toList with
  | '-' :: ds => if !ds.isEmpty && ds.all Char.isDigit then some (-(value ds : Int)) else none
  | ds => if !ds.isEmpty && ds.all Char.isDigit then some (value ds) else none

/-- A whole number. -/
def ofInt (n : Int) : Json := .number (toString n)

/-- The last member named `k`, or null. -/
def get (j : Json) (k : String) : Json :=
  match j with
  | .object ms => ((ms.filter (·.1 == k)).getLast?.map (·.2)).getD .null
  | _ => .null

/-- Whether a member named `k` is present and not null. -/
def has (j : Json) (k : String) : Bool :=
  match j.get k with
  | .null => false
  | _ => true

/-- The text of a string, or the empty text. -/
def text : Json → String
  | .string s => s
  | _ => ""

/-- The whole number of a number, or zero. -/
def int : Json → Int
  | .number t => (wholeValue? t).getD 0
  | _ => 0

/-- The truth value, or `d`. -/
def truth (d : Bool := false) : Json → Bool
  | .bool b => b
  | _ => d

/-- The items of an array, or none. -/
def items : Json → List Json
  | .array xs => xs
  | _ => []

/-- The members of an object, or none. -/
def members : Json → List (String × Json)
  | .object ms => ms
  | _ => []

/-- Sets a member of an object: replaces every member of that name, or adds it at the end. -/
def set (j : Json) (k : String) (v : Json) : Json :=
  match j with
  | .object ms =>
    if ms.any (·.1 == k) then .object (ms.map fun (k', v') => if k' == k then (k, v) else (k', v'))
    else .object (ms ++ [(k, v)])
  | j => j

end EdgeQuery.Json
