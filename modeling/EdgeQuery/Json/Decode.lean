import EdgeQuery.Json.Read
import EdgeQuery.Json.Access
import EdgeQuery.Number.Read
/-! # Decoding JSON into typed values

A decoder takes a JSON value into a typed value in place: it starts from the value there
already, so that `null` leaves a text, number or truth value as it was and empties a list
or a map, an object adds to a map, and a structure keeps the fields the object does not
name. Object members are taken in order, so a later repeat wins.

A structure's fields are found by name, exactly or else ignoring the case of ASCII
letters (`ſ`, the Kelvin sign and the dotless `ı` count as `S`, `K` and `I`). A strict
structure refuses a member that names no field.

Decoding goes on past a value of the wrong kind and past an unknown field, and fails at
the end with the first such fault. A decoder may also fail at once, which ends decoding
with that failure. Faults name the type expected and where the value sits: the innermost
structure and the path of field names and map keys from the top. -/

namespace EdgeQuery.Json

/-- Where a value being decoded sits. -/
structure Place where
  /-- The innermost structure type around the value, if any. -/
  structName : String := ""
  /-- Field names and map keys from the top. -/
  path : List String := []

/-- The fault of a value of the wrong kind (`what`) where a `typeName` was expected. -/
def Place.mismatch (p : Place) (what typeName : String) : String :=
  "json: cannot unmarshal " ++ what ++
    (if p.structName != "" || !p.path.isEmpty then
      " into Go struct field " ++ p.structName ++ "." ++ ".".intercalate p.path
    else " into Go value") ++ " of type " ++ typeName

/-- Decoding: the first fault found so far is kept while decoding goes on; a failure ends
it. -/
abbrev Decoding := StateT (Option String) (Except String)

/-- Keeps a fault unless an earlier one is kept already. -/
def fault (msg : String) : Decoding Unit := modify fun s => s <|> some msg

/-- The outcome of decoding: the value, or the failure, or else the first fault. -/
def Decoding.result {α : Type} (d : Decoding α) : Except String α :=
  match d.run none with
  | .error e => .error e
  | .ok (a, none) => .ok a
  | .ok (_, some e) => .error e

/-- A decoder into values of type `α`: given where the value sits, the JSON and the value
there so far. -/
abbrev Decoder (α : Type) := Place → Json → α → Decoding α

/-- Keeps the value there, with a fault for a value of the wrong kind. -/
def wrongKind {α : Type} (typeName : String) (p : Place) (j : Json) (x : α) : Decoding α := do
  fault (p.mismatch j.kindName typeName)
  return x

namespace Decoder

/-- Text. -/
def text : Decoder String := fun p j s =>
  match j with
  | .string t => pure t
  | .null => pure s
  | j => wrongKind "string" p j s

/-- Truth values. -/
def truth : Decoder Bool := fun p j b =>
  match j with
  | .bool t => pure t
  | .null => pure b
  | j => wrongKind "bool" p j b

/-- Whole numbers from `lo` to `hi`, of the type called `typeName`; a number with a
fraction or exponent, or out of range, is a fault that names it. -/
def whole (typeName : String) (lo hi : Int) : Decoder Int := fun p j n =>
  match j with
  | .number t =>
    match wholeValue? t with
    | some v => if lo ≤ v ∧ v ≤ hi then pure v else do fault (p.mismatch ("number " ++ t) typeName); pure n
    | none => do fault (p.mismatch ("number " ++ t) typeName); pure n
  | .null => pure n
  | j => wrongKind typeName p j n

/-- The range of 64-bit whole numbers. -/
def int64 (typeName : String) : Decoder Int := whole typeName (-Int.pow 2 63) (Int.pow 2 63 - 1)

/-- Binary64 numbers; a number out of their range is a fault that names it. -/
def binary64 : Decoder Float := fun p j x =>
  match j with
  | .number t =>
    match Read.parseFloat t with
    | .ok v => pure v
    | .error _ => do fault (p.mismatch ("number " ++ t) "float64"); pure x
  | .null => pure x
  | j => wrongKind "float64" p j x

/-- Sets a key of a map, keeping its place if it is there already. -/
def setKey {β : Type} (m : List (String × β)) (k : String) (v : β) : List (String × β) :=
  if m.any (·.1 == k) then m.map fun (k', v') => if k' == k then (k, v) else (k', v') else m ++ [(k, v)]

/-- Maps from text to values decoded by `elem`, each from `zero`. -/
def map {β : Type} (typeName : String) (elem : Decoder β) (zero : β) : Decoder (List (String × β)) :=
  fun p j m =>
    match j with
    | .object ms => ms.foldlM (fun m (k, v) => do
        let x ← elem { p with path := p.path ++ [k] } v zero
        return setKey m k x) m
    | .null => pure []
    | j => wrongKind typeName p j m

/-- Lists of values decoded by `elem`: each item into the item at its place, or `zero`. -/
def list {β : Type} (typeName : String) (elem : Decoder β) (zero : β) : Decoder (List β) :=
  fun p j xs =>
    match j with
    | .array items => items.zipIdx.mapM fun (v, i) => elem p v (xs.getD i zero)
    | .null => pure []
    | j => wrongKind typeName p j xs

/-- A field of a structure: its name and how to decode into the structure. -/
structure Field (α : Type) where
  name : String
  decode : Decoder α

/-- The form of a name used to match it ignoring case. -/
def foldName (s : String) : String :=
  String.ofList (s.toList.map fun c =>
    if 'a' ≤ c ∧ c ≤ 'z' then Char.ofNat (c.toNat - 32)
    else if c.toNat == 0x17F then 'S'
    else if c.toNat == 0x212A then 'K'
    else if c.toNat == 0x131 then 'I'
    else c)

/-- The field a member names: exactly, or else ignoring case. -/
def findField {α : Type} (fields : List (Field α)) (k : String) : Option (Field α) :=
  fields.find? (·.name == k) <|> fields.find? (fun f => foldName f.name == foldName k)

/-- Structures of the type called `structName` (`typeName` in full) with `fields`; a
`strict` structure refuses members that name no field. -/
def structured {α : Type} (structName typeName : String) (strict : Bool) (fields : List (Field α)) :
    Decoder α := fun p j x =>
  match j with
  | .object ms => ms.foldlM (fun x (k, v) =>
      match findField fields k with
      | some f => f.decode { structName, path := p.path ++ [f.name] } v x
      | none => do
        if strict then fault ("json: unknown field " ++ Quote.text k)
        return x) x
  | .null => pure x
  | j => wrongKind typeName p j x

end Decoder

/-- Decodes the first value of a text over `start`; the text's own faults come first. -/
def decodeText {α : Type} (d : Decoder α) (start : α) (b : Bytes) : Except String α :=
  match readFirst b with
  | .error e => .error e.message
  | .ok (j, _) => (d {} j start).result

/-- Reads a text that holds one value and nothing but blanks around it. -/
def readWhole (b : Bytes) : Except String Json :=
  match readFirst b with
  | .error .empty | .error .truncated => .error "unexpected end of JSON input"
  | .error e => .error e.message
  | .ok (j, rest) =>
    match skipBlanks rest with
    | [] => .ok j
    | c :: _ => .error ("invalid character " ++ byteText c ++ " after top-level value")

/-- Decodes a text that holds one value and nothing but blanks around it, over `start`. -/
def decodeWhole {α : Type} (d : Decoder α) (start : α) (b : Bytes) : Except String α := do
  (d {} (← readWhole b) start).result

end EdgeQuery.Json
