import EdgeQuery.Date
import EdgeQuery.Codec.Serial
import EdgeQuery.Store.Table
import EdgeQuery.Eval.Context
/-! # Edges

An edge links a source value to a sink value. It is stored as one entry whose key is

* row: `SOURCE 00 SINK`,
* family: `TYPE/RELATION`,
* qualifier: `yyyymmdd/ATTRIBUTE1/ATTRIBUTE2/ATTRIBUTE3/D`, where `D` is the date code
  (`E` event, `A` activity, `B` both; `E` when none is given),

with the edge's visibility and timestamp, and whose value is the serial form of its count
and, when the edge has one, its load date (as `yyyymmdd`). That form is a parameter, a
`Serial Stored`; the program writes a MessagePack map with the count under `c` and the
load date, when there is one, under `l`. Statistics edges have type `STATS`.

Reading an entry back splits the row at its first zero byte and the family at its first
slash; the qualifier must have exactly five parts and begin with a date. An empty value
means a count of zero and no load date.

To an expression, an edge is the fields `SOURCE`, `SINK`, `TYPE`, `RELATION`,
`ATTRIBUTE1` to `ATTRIBUTE3`, `DATE`, `LOAD_DATE`, `DATE_TYPE` (the date code) and
`COUNT`, each with one value; an empty field is absent. -/

namespace EdgeQuery

open Store

/-- A decoded edge. -/
structure Edge where
  source : Bytes
  sink : Bytes
  edgeType : Bytes
  relation : Bytes
  attribute1 : Bytes := []
  attribute2 : Bytes := []
  attribute3 : Bytes := []
  date : Date
  dateCode : Bytes := []
  /-- The load date; never the zero date. -/
  loadDate : Option Date := none
  count : Int := 0
  visibility : Bytes := []
  timestamp : Int := 0
  deriving DecidableEq, Inhabited, Repr

namespace Edge

/-- The field names of an edge. -/
def sourceField : Bytes := Bytes.ofString "SOURCE"
def sinkField : Bytes := Bytes.ofString "SINK"
def typeField : Bytes := Bytes.ofString "TYPE"
def relationField : Bytes := Bytes.ofString "RELATION"

/-- The type of statistics edges. -/
def statsType : Bytes := Bytes.ofString "STATS"

/-- The row of the edges between a source and a sink. -/
def row (source sink : Bytes) : Bytes := source ++ [0] ++ sink

/-- The family of an edge type and relation. -/
def family (edgeType relation : Bytes) : Bytes := edgeType ++ [47] ++ relation

/-- The malformed-edge reason with a detail. -/
def malformed (detail : String) : Report :=
  { message := "malformed edge: " ++ detail, causes := [.malformedEdge] }

/-- The stored value: a count and a load date as written, empty when there is none. -/
structure Stored where
  count : Int := 0
  loadDate : Bytes := []

/-- Whether an edge carries statistics. -/
def isStats (e : Edge) : Bool := e.edgeType == statsType

/-- The date code, `E` when none is given. -/
def code (e : Edge) : Bytes := if e.dateCode.isEmpty then [69] else e.dateCode

/-- The key of an edge. -/
def key (e : Edge) : Key :=
  { row := row e.source e.sink
    family := family e.edgeType e.relation
    qualifier := Bytes.joinWith [47]
      [Bytes.ofString e.date.render, e.attribute1, e.attribute2, e.attribute3, e.code]
    visibility := e.visibility
    timestamp := e.timestamp }

/-- The stored value of an edge: its count and, if it has one, its load date. -/
def stored (e : Edge) : Stored :=
  { count := e.count, loadDate := (e.loadDate.map fun d => Bytes.ofString d.render).getD [] }

/-- The entry of an edge, its value written in the serial form `S`. -/
def entry (S : Serial Stored) (e : Edge) : Entry := ⟨e.key, S.write e.stored⟩

/-- The fields of an edge as an expression sees them. -/
def context (e : Edge) : Eval.Context :=
  let fields : List (String × Bytes) :=
    [("SOURCE", e.source), ("SINK", e.sink), ("TYPE", e.edgeType), ("RELATION", e.relation),
     ("ATTRIBUTE1", e.attribute1), ("ATTRIBUTE2", e.attribute2), ("ATTRIBUTE3", e.attribute3),
     ("DATE", Bytes.ofString e.date.render),
     ("LOAD_DATE", (e.loadDate.map fun d => Bytes.ofString d.render).getD []),
     ("DATE_TYPE", e.dateCode), ("COUNT", Bytes.ofString (toString e.count))]
  fields.foldl (fun c (name, v) =>
    if v.isEmpty then c else c.set (Bytes.ofString name) [Eval.Value.ofBytes v]) {}

/-- The parts of an edge key. -/
structure KeyParts where
  source : Bytes
  sink : Bytes
  edgeType : Bytes
  relation : Bytes
  date : Bytes
  attributes : Bytes × Bytes × Bytes
  code : Bytes

/-- Splits a key into the parts of the edge layout. -/
def splitKey (k : Key) : Except Report KeyParts :=
  match Bytes.cut k.row 0 with
  | (_, none) => .error (malformed ("row " ++ Quote.bytes k.row ++ " has no sink"))
  | (source, some sink) =>
    let (edgeType, relation) := Bytes.cut k.family 47
    match Bytes.splitOn k.qualifier 47 with
    | [date, a1, a2, a3, code] =>
      .ok ⟨source, sink, edgeType, relation.getD [], date, (a1, a2, a3), code⟩
    | _ => .error (malformed ("qualifier " ++ Quote.bytes k.qualifier))

/-- A date written in a key or value. -/
def readDate? (b : Bytes) : Option Date := (Bytes.toUtf8? b).bind Date.parse?

/-- Reads an entry as an edge, its value in the serial form `S`. -/
def decode (S : Serial Stored) (e : Entry) : Except Report Edge := do
  let p ← splitKey e.key
  let some date := readDate? p.date | .error (malformed ("date " ++ Quote.bytes p.date))
  let base : Edge :=
    { source := p.source, sink := p.sink, edgeType := p.edgeType, relation := p.relation,
      attribute1 := p.attributes.1, attribute2 := p.attributes.2.1,
      attribute3 := p.attributes.2.2, date, dateCode := p.code,
      visibility := e.key.visibility, timestamp := e.key.timestamp }
  if e.value.isEmpty then return base
  let stored ← (S.read e.value).mapError fun m => malformed ("value: " ++ m)
  if stored.loadDate.isEmpty then return { base with count := stored.count }
  let some load := readDate? stored.loadDate
    | .error (malformed ("load date " ++ Quote.bytes stored.loadDate))
  return { base with count := stored.count, loadDate := if load.isZero then none else some load }

end Edge

end EdgeQuery
