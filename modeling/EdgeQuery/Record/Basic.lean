import EdgeQuery.Eval.Context
import EdgeQuery.Excerpt.Terms
import EdgeQuery.Terms.Tokenizer
/-! # Records

A record is what is evaluated and loaded: an id, the shard and datatype it belongs to, a
visibility and a timestamp, plain fields with their values, and text fields. Plain fields
are compared by queries; text fields are compared too, and are also cut into terms for
the phrase functions and kept as term entries for excerpts.

A record is known by `shard 00 datatype 00 id`, where a record without a shard is in
`shard0` and one without a datatype is of datatype `record`. Its document holds every
plain value and every text as an attribute with the record's visibility and timestamp,
plain fields first, each group in field name order. -/

namespace EdgeQuery

/-- A record. -/
structure Record where
  id : Bytes := []
  shard : Bytes := []
  datatype : Bytes := []
  visibility : Bytes := []
  timestamp : Int := 0
  /-- Plain fields with their values, each name once. -/
  fields : List (Bytes × List Bytes) := []
  /-- Text fields, each name once. -/
  text : List (Bytes × Bytes) := []
  deriving Inhabited

namespace Record

/-- The shard of a record that names none. -/
def defaultShard : Bytes := Bytes.ofString "shard0"

/-- The datatype of a record that names none. -/
def defaultDatatype : Bytes := Bytes.ofString "record"

/-- The id a record is known by: shard, datatype and id, separated by zero bytes. -/
def recordId (r : Record) : Bytes :=
  (if r.shard.isEmpty then defaultShard else r.shard) ++ [0] ++
    (if r.datatype.isEmpty then defaultDatatype else r.datatype) ++ [0] ++ r.id

/-- Pairs in byte order of their names. -/
def byName {β : Type} (xs : List (Bytes × β)) : List (Bytes × β) :=
  xs.mergeSort fun a b => Bytes.cmp a.1 b.1 != .gt

/-- An attribute of the record: a value with the record's visibility and timestamp. -/
def valueAttribute (r : Record) (v : Bytes) : Attribute :=
  { value := v, visibility := r.visibility, timestamp := r.timestamp }

/-- The document of a record. -/
def document (r : Record) : Document :=
  let d : Document := { visibility := r.visibility, timestamp := r.timestamp }
  let d := (byName r.fields).foldl (fun d (name, vs) =>
    vs.foldl (fun d v => d.add name [r.valueAttribute v]) d) d
  (byName r.text).foldl (fun d (name, t) => d.add name [r.valueAttribute t]) d

/-- The term frequencies of a text field of the record. -/
def frequencies (r : Record) (t : Bytes) : Frequencies :=
  Tokenizer.addFrequencies {} r.recordId t

/-- The evaluation context of a record, with the term frequencies of its text fields, and
the document its hits are written on. -/
def context (r : Record) : Eval.Context × Document :=
  let doc := r.document
  let offsets := (byName r.text).foldl (fun m (name, t) => m.putFrequencies name (r.frequencies t)) {}
  ({ Eval.Context.ofDocument doc with offsets := some offsets }, doc)

/-- The term entries of every text field of the record, fields in name order, offsets
written in the serial form `S`. -/
def termEntries (S : Serial (List Int)) (r : Record) : Except String (List Store.Entry) :=
  (byName r.text).foldlM (fun acc (name, t) =>
    match Excerpt.termEntries S r.recordId name (r.frequencies t) with
    | .ok es => .ok (acc ++ es)
    | .error e => .error ("record " ++ String.ofList (Utf8.chars r.id) ++ " field " ++
        String.ofList (Utf8.chars name) ++ ": " ++ e)) []

end Record

end EdgeQuery
