import EdgeQuery.Plan.Unit
import EdgeQuery.Plan.Checkpoint
import EdgeQuery.Edge.Basic
import EdgeQuery.Json.Write
import EdgeQuery.Json.Access
import EdgeQuery.Timestamp
/-! # What the tool prints as JSON

Plans, checkpoints, edges and evaluated records are printed as JSON objects with their
members in a fixed order. Members that are empty, false or zero are left out where noted;
an empty list of ranges, stages or units is `null`. Bytes that are not UTF-8 are printed
with U+FFFD for each byte that starts no character.

* a key is `{"row", "columnFamily", "columnQualifier", "visibility", "timestamp"}`, all
  but the row left out when empty or zero;
* a range is `{"start", "end", "startInclusive", "endInclusive", "infiniteStart",
  "infiniteEnd"}`, the last two left out when false;
* a stage is `{"priority", "name", "kind", "options"}`, the options sorted by name and
  left out when there are none;
* a unit is `{"ranges", "stages", "columnFamilies", "lastKey"}`, the last two left out when
  empty;
* a plan is `{"query", "units"}`; a checkpoint `{"id", "queryId", "created", "units"}`;
* an edge is `{"source", "sink", "type", "relation", "attribute1", "attribute2",
  "attribute3", "date", "dateCode", "loadDate", "count", "visibility", "timestamp"}`,
  the attributes, the load date and the visibility left out when empty; dates are written
  as midnight UTC. -/

namespace EdgeQuery.Cli

open Store Plan

/-- The text of bytes, with U+FFFD for bytes that start no character. -/
def plain (b : Bytes) : String := String.ofList (Utf8.chars b)

/-- Members, leaving out those that are `none`. -/
def members (ms : List (String × Option Json)) : Json :=
  .object (ms.filterMap fun (k, v) => v.map fun j => (k, j))

/-- A text member left out when empty. -/
def unlessEmpty (b : Bytes) : Option Json := if b.isEmpty then none else some (.string (plain b))

/-- A list, `null` when empty. -/
def listOrNull (items : List Json) : Json := if items.isEmpty then .null else .array items

/-- The JSON form of a key. -/
def keyJson (k : Key) : Json :=
  members [("row", some (.string (plain k.row))), ("columnFamily", unlessEmpty k.family),
    ("columnQualifier", unlessEmpty k.qualifier), ("visibility", unlessEmpty k.visibility),
    ("timestamp", if k.timestamp == 0 then none else some (Json.ofInt k.timestamp))]

/-- The JSON form of a range. -/
def rangeJson (r : Range) : Json :=
  members [("start", some (keyJson r.start)), ("end", some (keyJson r.stop)),
    ("startInclusive", some (.bool r.startInclusive)), ("endInclusive", some (.bool r.stopInclusive)),
    ("infiniteStart", if r.unboundedStart then some (.bool true) else none),
    ("infiniteEnd", if r.unboundedStop then some (.bool true) else none)]

/-- The JSON form of a stage. -/
def stageJson (s : Stage) : Json :=
  members [("priority", some (Json.ofInt s.priority)), ("name", some (.string s.name)),
    ("kind", some (.string s.kind)),
    ("options", if s.options.isEmpty then none
      else some (.object (s.sortedOptions.map fun (k, v) => (k, .string v))))]

/-- The JSON form of a unit. -/
def unitJson (u : ScanUnit) : Json :=
  members [("ranges", some (listOrNull (u.ranges.map rangeJson))),
    ("stages", some (listOrNull (u.stages.map stageJson))),
    ("columnFamilies", if u.families.isEmpty then none else some (.array (u.families.map (.string ∘ plain)))),
    ("lastKey", u.lastKey.map keyJson)]

/-- The JSON form of a plan. -/
def planJson (p : Plan) : Json :=
  .object [("query", .string p.query), ("units", listOrNull (p.units.map unitJson))]

/-- A point in time in UTC, with the fraction of its second when it has one. -/
def instantText (t : Instant) : String := Timestamp.render t.seconds t.nanos

/-- The JSON form of a checkpoint. -/
def checkpointJson (cp : Checkpoint) : Json :=
  .object [("id", .string cp.id.render), ("queryId", .string cp.queryId.render),
    ("created", .string (instantText cp.created)), ("units", listOrNull (cp.units.map unitJson))]

/-- A day as a point in time: its midnight in UTC. -/
def dayText (d : Date) : String := Timestamp.render (d.toEpochDays * 86400) 0

/-- The JSON form of an edge. -/
def edgeJson (e : Edge) : Json :=
  members [("source", some (.string (plain e.source))), ("sink", some (.string (plain e.sink))),
    ("type", some (.string (plain e.edgeType))), ("relation", some (.string (plain e.relation))),
    ("attribute1", unlessEmpty e.attribute1), ("attribute2", unlessEmpty e.attribute2),
    ("attribute3", unlessEmpty e.attribute3), ("date", some (.string (dayText e.date))),
    ("dateCode", some (.string (plain e.dateCode))),
    ("loadDate", e.loadDate.map fun d => .string (dayText d)),
    ("count", some (Json.ofInt e.count)), ("visibility", unlessEmpty e.visibility),
    ("timestamp", some (Json.ofInt e.timestamp))]

/-- An evaluated record as the tool shows it. -/
structure RecordView where
  id : String
  source : String
  matched : Bool
  state : String
  partialFields : List String := []
  hitTerms : List String := []
  phraseIndexes : String := ""
  excerpts : List String := []

/-- The JSON form of an evaluated record; empty lists and texts are left out. -/
def RecordView.toJson (v : RecordView) : Json :=
  let texts (xs : List String) : Option Json := if xs.isEmpty then none else some (.array (xs.map .string))
  members [("id", some (.string v.id)), ("source", some (.string v.source)), ("matched", some (.bool v.matched)),
    ("state", some (.string v.state)), ("partialFields", texts v.partialFields),
    ("hitTerms", texts v.hitTerms),
    ("phraseIndexes", if v.phraseIndexes.isEmpty then none else some (.string v.phraseIndexes)),
    ("excerpts", texts v.excerpts)]

end EdgeQuery.Cli
