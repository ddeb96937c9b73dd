import EdgeQuery.Store.Scan
import EdgeQuery.Json.Access
/-! # JSON forms of store values

Store values travel as JSON in these forms:

* bytes: a string when they are valid UTF-8, otherwise `{"hex": "..."}` with their
  lower-case hexadecimal digits;
* a key: `{"row", "cf", "cq", "vis", "ts"}`;
* a range: `{"start", "end", "si", "ei", "is", "ie"}`, the flags saying whether each end
  is included and whether it is unbounded;
* a stage: `{"priority", "name", "kind", "options"}`, options in name order.

Reading is lenient: a missing or mistyped member is its empty value. -/

namespace EdgeQuery

namespace Bytes

/-- The JSON form of bytes. -/
def toJson (b : Bytes) : Json :=
  match Bytes.toUtf8? b with
  | some s => .string s
  | none => .object [("hex", .string (Bytes.hex b))]

/-- Reads bytes from their JSON form. -/
def ofJson (j : Json) : Bytes :=
  match j with
  | .string s => Bytes.ofString s
  | j => (Bytes.ofHex? (j.get "hex").text).getD []

/-- The text of bytes as an object key: invalid bytes become U+FFFD. -/
def keyText (b : Bytes) : String := String.ofList (Utf8.chars b)

end Bytes

namespace Store

/-- The JSON form of a key. -/
def Key.toJson (k : Key) : Json :=
  .object [("row", Bytes.toJson k.row), ("cf", Bytes.toJson k.family), ("cq", Bytes.toJson k.qualifier),
    ("vis", Bytes.toJson k.visibility), ("ts", Json.ofInt k.timestamp)]

/-- Reads a key. -/
def Key.ofJson (j : Json) : Key :=
  { row := Bytes.ofJson (j.get "row"), family := Bytes.ofJson (j.get "cf")
    qualifier := Bytes.ofJson (j.get "cq"), visibility := Bytes.ofJson (j.get "vis"), timestamp := (j.get "ts").int }

/-- The JSON form of a range. -/
def Range.toJson (r : Range) : Json :=
  .object [("start", r.start.toJson), ("end", r.stop.toJson), ("si", .bool r.startInclusive),
    ("ei", .bool r.stopInclusive), ("is", .bool r.unboundedStart), ("ie", .bool r.unboundedStop)]

/-- Reads a range. -/
def Range.ofJson (j : Json) : Range :=
  { start := Key.ofJson (j.get "start"), stop := Key.ofJson (j.get "end"), startInclusive := (j.get "si").truth
    stopInclusive := (j.get "ei").truth, unboundedStart := (j.get "is").truth, unboundedStop := (j.get "ie").truth }

/-- The JSON form of a stage, without the options named in `hidden`, with `extra` members
added. -/
def Stage.toJson (s : Stage) (hidden : List String := []) (extra : List (String × Json) := []) : Json :=
  .object ([("priority", Json.ofInt s.priority), ("name", .string s.name), ("kind", .string s.kind),
    ("options", .object ((s.sortedOptions.filter fun (k, _) => !hidden.contains k).map fun (k, v) =>
      (k, .string v)))] ++ extra)

/-- Reads a stage. -/
def Stage.ofJson (j : Json) : Stage :=
  { priority := (j.get "priority").int, name := (j.get "name").text, kind := (j.get "kind").text
    options := (j.get "options").members.map fun (k, v) => (k, v.text) }

end Store

end EdgeQuery
