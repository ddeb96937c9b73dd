import EdgeQuery.Edge.Prefilter
import EdgeQuery.Edge.Basic
import EdgeQuery.Store.Form
import EdgeQuery.Json.Decode
/-! # JSON forms of edges

An edge travels as `{"source", "sink", "type", "relation", "attribute1", "attribute2",
"attribute3", "date_code", "visibility", "date", "load_date", "count", "timestamp"}`,
dates as `yyyymmdd` and a missing load date as the empty text; written, it also says
whether it is a statistics edge (`"stats"`). A prefilter travels as an object from each
field to its list of values.

Read from a request, the members of an edge are texts and 64-bit whole numbers, as the
request's decoder types them: a member of another kind is refused with the decoder's fault,
which names the member by its path in the request. -/

namespace EdgeQuery.Edge

/-- The JSON form of an edge. -/
def toJson (e : Edge) : Json :=
  .object [("source", Bytes.toJson e.source), ("sink", Bytes.toJson e.sink), ("type", Bytes.toJson e.edgeType),
    ("relation", Bytes.toJson e.relation), ("attribute1", Bytes.toJson e.attribute1),
    ("attribute2", Bytes.toJson e.attribute2), ("attribute3", Bytes.toJson e.attribute3),
    ("date_code", Bytes.toJson e.dateCode), ("visibility", Bytes.toJson e.visibility),
    ("date", .string e.date.render), ("load_date", .string ((e.loadDate.map Date.render).getD "")),
    ("count", Json.ofInt e.count), ("timestamp", Json.ofInt e.timestamp), ("stats", .bool e.isStats)]

/-- The members of an edge in a request, each with the kind of value it holds: texts, and
the count and timestamp as 64-bit whole numbers. -/
def requestFields : List (Json.Decoder.Field Unit) :=
  (["source", "sink", "type", "relation", "attribute1", "attribute2", "attribute3", "date_code",
      "visibility", "date", "load_date"].map fun name =>
    ⟨name, fun p j _ => do let _ ← Json.Decoder.text p j ""; pure ()⟩) ++
  (["count", "timestamp"].map fun name =>
    ⟨name, fun p j _ => do let _ ← Json.Decoder.int64 "int64" p j 0; pure ()⟩)

/-- The first fault the request's decoder finds in an edge that sits at `place`: a member
holding a value of the wrong kind. -/
def requestFault (place : Json.Place) (j : Json) : Except String Unit :=
  (Json.Decoder.structured place.structName "main.Edge" false requestFields place j ()).result

/-- Reads an edge of a request, where it sits at `place`, dated `undated` when it has no
date; its members must be of their kinds, its dates must be `yyyymmdd`, and a zero load date
is none. -/
def ofJson (place : Json.Place) (undated : Date) (j : Json) : Except String Edge := do
  requestFault place j
  let some date := if j.has "date" then Date.parse? (j.get "date").text else some undated | throw "bad date"
  let load ← if (j.get "load_date").text == "" then pure none else
    match Date.parse? (j.get "load_date").text with
    | some d => pure (if d.isZero then none else some d)
    | none => throw "bad load date"
  let b (k : String) : Bytes := Bytes.ofJson (j.get k)
  return { source := b "source", sink := b "sink", edgeType := b "type", relation := b "relation"
           attribute1 := b "attribute1", attribute2 := b "attribute2", attribute3 := b "attribute3"
           date, dateCode := b "date_code", loadDate := load, count := (j.get "count").int
           visibility := b "visibility", timestamp := (j.get "timestamp").int }

/-- The JSON form of a prefilter. -/
def Prefilter.toJson (p : Prefilter) : Json :=
  .object (p.fields.map fun (f, vs) => (Bytes.keyText f, .array (vs.map Bytes.toJson)))

/-- Reads a prefilter. -/
def Prefilter.ofJson (j : Json) : Prefilter :=
  j.members.foldl (fun p (k, v) => p.insert (Bytes.ofString k) (v.items.map Bytes.ofJson)) {}

end EdgeQuery.Edge
