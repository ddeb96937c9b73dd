import EdgeQuery.Record.Basic
import EdgeQuery.Json.Decode
import EdgeQuery.Terms.Logfmt
import EdgeQuery.Eval.Compare
import EdgeQuery.Number.FloatText
import EdgeQuery.Text.Lines
/-! # Reading records

A record is one line of text, a JSON object or a logfmt line. In the automatic format a
line whose first character after white space is `{` is JSON, and any other line logfmt.

A JSON record is an object with the members `id`, `shard`, `datatype`, `visibility`
(texts), `timestamp` (a 64-bit whole number), `fields` (an object of plain fields, each a
string, number or truth value or a list of them) and `text` (an object of texts); no other
member is allowed, and member names may differ in case. A number becomes the positional
text of its nearest binary64 value with the fewest digits (`1e21` is
`1000000000000000000000`, `-0` is `-0`).

In a logfmt record the keys `id`, `shard`, `datatype`, `visibility` and `timestamp` set
those parts (a later one wins), the keys named as text fields collect texts (repeats joined
by a blank), and every other key adds a value to a plain field.

Either way a record needs an id. -/

namespace EdgeQuery

/-- The encoding of record lines. -/
inductive RecordFormat where
  | auto
  | json
  | logfmt
  deriving DecidableEq, Inhabited, Repr

namespace RecordFormat

/-- Reads a format name; the empty name is `auto`. -/
def parse (s : String) : Except String RecordFormat :=
  match s with
  | "" | "auto" => .ok .auto
  | "json" => .ok .json
  | "logfmt" => .ok .logfmt
  | _ => .error ("unknown record format " ++ Quote.text s ++ " (want auto, json or logfmt)")

end RecordFormat

namespace Record

/-! ### JSON records -/

/-- The type name of a value in a plain field that is not a string, number or truth value. -/
def foreignType : Json → String
  | .array _ => "[]interface {}"
  | .object _ => "map[string]interface {}"
  | _ => "<nil>"

mutual

/-- The first number, in the order written, that has no binary64 value. -/
def unreadableNumber : Json → Option String
  | .number t => match Read.parseFloat t with
    | .ok _ => none
    | .error _ => some t
  | .array xs => unreadableIn xs
  | .object ms => unreadableAmong ms
  | _ => none

/-- The first unreadable number of a list of values. -/
def unreadableIn : List Json → Option String
  | [] => none
  | x :: xs => unreadableNumber x <|> unreadableIn xs

/-- The first unreadable number of the values of members. -/
def unreadableAmong : List (String × Json) → Option String
  | [] => none
  | (_, x) :: ms => unreadableNumber x <|> unreadableAmong ms

end

/-- The text of one plain value. -/
def scalarText (j : Json) : Except String String :=
  match j with
  | .string s => .ok s
  | .number t => match Read.parseFloat t with
    | .ok x => .ok (FloatStyle.positional.render x)
    | .error e => .error e.message
  | .bool b => .ok (if b then "true" else "false")
  | j => .error ("field value must be a string, number or boolean, got " ++ foreignType j)

/-- The values of a plain field: a value, a list of values, or null for none. -/
def values : Json.Decoder (List String) := fun p j _ =>
  match unreadableNumber j with
  | some t => throw (p.mismatch ("number " ++ t) "float64")
  | none =>
    match j with
    | .null => pure []
    | .array xs => liftM (xs.mapM scalarText)
    | j => liftM ((scalarText j).map fun s => [s])
where
  liftM {α : Type} (e : Except String α) : Json.Decoding α := match e with
    | .ok a => pure a
    | .error m => throw m

/-- A text part of a record. -/
def textPart (name : String) (get : Record → Bytes) (set : Record → Bytes → Record) :
    Json.Decoder.Field Record :=
  ⟨name, fun p j r => (fun s => set r (Bytes.ofString s)) <$> Json.Decoder.text p j (Bytes.toUtf8 (get r))⟩

/-- The text of bytes read from JSON. -/
def utf8 (b : Bytes) : String := Bytes.toUtf8 b

/-- The decoder of JSON records. -/
def jsonDecoder : Json.Decoder Record :=
  Json.Decoder.structured "Record" "record.Record" true [
    textPart "id" (·.id) fun r v => { r with id := v },
    textPart "shard" (·.shard) fun r v => { r with shard := v },
    textPart "datatype" (·.datatype) fun r v => { r with datatype := v },
    textPart "visibility" (·.visibility) fun r v => { r with visibility := v },
    ⟨"timestamp", fun p j r => (fun t => { r with timestamp := t }) <$> Json.Decoder.int64 "int64" p j r.timestamp⟩,
    ⟨"fields", fun p j r => do
      let m ← Json.Decoder.map "map[string]record.Values" values [] p j
        (r.fields.map fun (k, vs) => (utf8 k, vs.map utf8))
      return { r with fields := m.map fun (k, vs) => (Bytes.ofString k, vs.map Bytes.ofString) }⟩,
    ⟨"text", fun p j r => do
      let m ← Json.Decoder.map "map[string]string" Json.Decoder.text "" p j (r.text.map fun (k, v) => (utf8 k, utf8 v))
      return { r with text := m.map fun (k, v) => (Bytes.ofString k, Bytes.ofString v) }⟩]

/-- Reads a JSON record. -/
def ofJson (line : Bytes) : Except String Record := do
  let r ← (Json.decodeText jsonDecoder {} line).mapError ("json record: " ++ ·)
  if r.id.isEmpty then throw "json record: missing id"
  return r

/-! ### Logfmt records -/

/-- Reads a timestamp. -/
def readTimestamp (v : Bytes) : Except String Int :=
  let fail (m : String) := "logfmt record: timestamp " ++ Quote.bytes v ++ ": " ++ m
  match Bytes.toUtf8? v with
  | some s => (Read.parseInt s).mapError fun e => fail e.message
  | none => .error (fail ("strconv.ParseInt: parsing " ++ Quote.bytes v ++ ": invalid syntax"))

/-- Adds a value to a plain field. -/
def addValue (fs : List (Bytes × List Bytes)) (k v : Bytes) : List (Bytes × List Bytes) :=
  if fs.any (·.1 == k) then fs.map fun (k', vs) => if k' == k then (k', vs ++ [v]) else (k', vs)
  else fs ++ [(k, [v])]

/-- Adds a text to a text field, after a blank when it has one already. -/
def addText (ts : List (Bytes × Bytes)) (k v : Bytes) : List (Bytes × Bytes) :=
  if ts.any (·.1 == k) then ts.map fun (k', t) => if k' == k then (k', t ++ [32] ++ v) else (k', t)
  else ts ++ [(k, v)]

/-- Takes one logfmt field into a record. -/
def takeField (textFields : List Bytes) (r : Record) (kv : Bytes × Bytes) : Except String Record :=
  let (k, v) := kv
  match Bytes.toUtf8? k with
  | some "id" => .ok { r with id := v }
  | some "shard" => .ok { r with shard := v }
  | some "datatype" => .ok { r with datatype := v }
  | some "visibility" => .ok { r with visibility := v }
  | some "timestamp" => (readTimestamp v).map fun t => { r with timestamp := t }
  | _ =>
    if textFields.contains k then .ok { r with text := addText r.text k v }
    else .ok { r with fields := addValue r.fields k v }

/-- Reads a logfmt record; `textFields` names the keys that hold texts. -/
def ofLogfmt (line : Bytes) (textFields : List Bytes) : Except String Record := do
  let pairs ← Logfmt.parse line
  let r ← pairs.foldlM (takeField textFields) {}
  if r.id.isEmpty then throw "logfmt record: missing id"
  return r

/-- Reads a record line in a format. -/
def parseLine (line : Bytes) (format : RecordFormat) (textFields : List Bytes) : Except String Record :=
  let isJson := match format with
    | .json => true
    | .logfmt => false
    | .auto => (Bytes.trimSpace line).head? == some 123
  if isJson then ofJson line else ofLogfmt line textFields

/-- Reads the records of a file, given its path and its text, each with the place it was
read from (`path:line`). Blank and comment lines are skipped; a line that does not read
fails the file with its place. -/
def readFile (path : String) (content : Bytes) (format : RecordFormat) (textFields : List Bytes) :
    Except String (List (Record × String)) :=
  (Lines.meaningful content).mapM fun (n, line) =>
    let place := path ++ ":" ++ toString n
    match parseLine line format textFields with
    | .ok r => .ok (r, place)
    | .error e => .error (place ++ ": " ++ e)

end Record

end EdgeQuery
