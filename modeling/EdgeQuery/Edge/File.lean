import EdgeQuery.Edge.Basic
import EdgeQuery.Json.Decode
import EdgeQuery.Text.Lines
import EdgeQuery.Timestamp
/-! # Edge files

An edge file holds one JSON object per line:
`{"source", "sink", "type", "relation", "attribute1", "attribute2", "attribute3", "date",
"dateCode", "loadDate", "count", "visibility", "timestamp"}`. Member names match ignoring
case, members the edge does not have are skipped, and a member of the wrong kind is a
fault that does not stop the rest of the object from being read. Dates are RFC 3339
timestamps; an edge keeps the UTC day of each. A date that does not read fails the line at
once. A missing date is the zero date, and a zero load date is none.

Blank lines and comment lines are skipped. A line that does not read, or whose edge has no
source or no type, fails the file with the file's path and the line's number. -/

namespace EdgeQuery.Edge

/-- Whether a point in time is the zero time, the first instant of year 1. -/
def isZeroMoment (m : Timestamp.Moment) : Bool := m.seconds == -62135596800 && m.nanos == 0

/-- A member holding a point in time: `null` leaves the edge as it is; anything but a
string, and a string that is no timestamp, fail at once. -/
def timeField (name : String) (set : Edge → Timestamp.Moment → Edge) : Json.Decoder.Field Edge :=
  ⟨name, fun _ j e =>
    match j with
    | .null => pure e
    | .string t =>
      match Timestamp.parse t with
      | .ok m => pure (set e m)
      | .error msg => throw msg
    | _ => throw "Time.UnmarshalJSON: input is not a JSON string"⟩

/-- A member holding text. -/
def textField (name : String) (set : Edge → Bytes → Edge) (get : Edge → Bytes) : Json.Decoder.Field Edge :=
  ⟨name, fun p j e => do
    let t ← Json.Decoder.text p j (Bytes.toUtf8 (get e))
    return set e (Bytes.ofString t)⟩

/-- A member holding a 64-bit whole number. -/
def countField (name : String) (set : Edge → Int → Edge) (get : Edge → Int) : Json.Decoder.Field Edge :=
  ⟨name, fun p j e => do return set e (← Json.Decoder.int64 "int64" p j (get e))⟩

/-- The decoder of an edge line. -/
def lineDecoder : Json.Decoder Edge :=
  Json.Decoder.structured "Edge" "edge.Edge" false [
    textField "source" (fun e v => { e with source := v }) (·.source),
    textField "sink" (fun e v => { e with sink := v }) (·.sink),
    textField "type" (fun e v => { e with edgeType := v }) (·.edgeType),
    textField "relation" (fun e v => { e with relation := v }) (·.relation),
    textField "attribute1" (fun e v => { e with attribute1 := v }) (·.attribute1),
    textField "attribute2" (fun e v => { e with attribute2 := v }) (·.attribute2),
    textField "attribute3" (fun e v => { e with attribute3 := v }) (·.attribute3),
    timeField "date" fun e m => { e with date := m.date },
    textField "dateCode" (fun e v => { e with dateCode := v }) (·.dateCode),
    timeField "loadDate" fun e m => { e with loadDate := if isZeroMoment m then none else some m.date },
    countField "count" (fun e v => { e with count := v }) (·.count),
    textField "visibility" (fun e v => { e with visibility := v }) (·.visibility),
    countField "timestamp" (fun e v => { e with timestamp := v }) (·.timestamp)]

/-- The edge nothing was said of. -/
def blank : Edge := { source := [], sink := [], edgeType := [], relation := [], date := Date.zero }

/-- Reads one line of an edge file. -/
def ofLine (line : Bytes) : Except String Edge := do
  let e ← Json.decodeWhole lineDecoder blank line
  if e.source.isEmpty || e.edgeType.isEmpty then throw "edge needs source and type"
  return e

/-- Reads the edges of a file, given its path and its text. -/
def readFile (path : String) (content : Bytes) : Except String (List Edge) :=
  (Lines.meaningful content).mapM fun (n, line) =>
    (ofLine line).mapError fun e => path ++ ":" ++ toString n ++ ": " ++ e

end EdgeQuery.Edge
