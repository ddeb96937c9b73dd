import EdgeQuery.Store.Table
import EdgeQuery.Store.Stage
import EdgeQuery.Log.Event
/-! # Scans

A scan reads the entries of a table in some key ranges, keeps those of the column
families it allows, and passes them through its filter stages.

The ranges are read in the order of their starts. A range that overlaps ranges read
before it is read only after the last key read so far, so no key is produced twice; the
keys of families that are not allowed still count as read. Without ranges the whole table
is read.

What a scan produces is a `Stream`: entries in key order, possibly ended by a failure,
with the events its stages logged on the way. A filter turns one stream into another.
Most filters keep or drop each entry in turn, possibly logging why, and end the stream at
the first entry they fail on; a stream that arrives ended by a failure stays ended by it.

Streams are read on demand: a reader that stops after some entries never makes the stages
look at the entries after them. So each logged event is placed by the number of entries
produced before it, and a reader that stops early hears only the events placed before the
entry it stopped at. An event that arrives with a stream keeps its place among the entries
the next filter keeps. Stages are built into filters by a registry that maps each kind to a
builder, and the filters run in the order of their stages' priorities. A stage that
cannot be built ends the scan at once with its reason. -/

namespace EdgeQuery.Store

/-- An event logged while a stream was produced, placed after its first `after` entries. -/
structure Remark where
  after : Nat
  event : Log.Event
  deriving Inhabited

/-- Entries in order, then possibly the failure that ended them, and the events logged on
the way. -/
structure Stream where
  entries : List Entry := []
  failure : Option Report := none
  remarks : List Remark := []
  deriving Inhabited

/-- The events a reader hears: when it stops right after its `n`th entry, those placed
before that entry; when it reads to the end (`none`), all of them. -/
def Stream.heard (s : Stream) (stop : Option Nat) : List Log.Event :=
  let reached : List Remark := match stop with
    | some n => s.remarks.filter fun r => r.after < n
    | none => s.remarks
  reached.map Remark.event

/-- A filter stage at work: a transformation of streams. -/
abbrev Filter := Stream → Stream

namespace Filter

/-- Keeps the entries that `keep` accepts, logging the events it gives with each; `keep`
is told how many entries it has seen before. The first entry it fails on ends the stream.
The events that arrive with the stream keep their place: an event placed before an entry
is logged before that entry is looked at. -/
def note (keep : Nat → Entry → Except Report (Bool × List Log.Event)) (s : Stream) : Stream :=
  go 0 0 s.entries
where
  /-- The events that arrived before the entry numbered `seen`, or at the end all that
  are left, placed after the `kept` entries kept so far. -/
  arrived (seen kept : Nat) (atEnd : Bool) : List Remark :=
    (s.remarks.filter fun r => r.after == seen || (atEnd && r.after > seen)).map
      fun r => { r with after := kept }
  /-- Filters the rest of the entries, `seen` of them looked at and `kept` kept before. -/
  go (seen kept : Nat) : List Entry → Stream
    | [] => ⟨[], s.failure, arrived seen kept true⟩
    | e :: rest =>
      let before := arrived seen kept false
      match keep seen e with
      | .error r => ⟨[], some r, before⟩
      | .ok (k, events) =>
        let own := events.map fun ev => ⟨kept, ev⟩
        let t := go (seen + 1) (if k then kept + 1 else kept) rest
        ⟨if k then e :: t.entries else t.entries, t.failure, before ++ own ++ t.remarks⟩

/-- Keeps the entries that `keep` accepts, logging nothing; `keep` is told how many
entries it has seen before. The first entry it fails on ends the stream. -/
def select (keep : Nat → Entry → Except Report Bool) : Filter :=
  note fun seen e => (keep seen e).map fun k => (k, [])

/-- Runs filters one after another. -/
def chain (fs : List Filter) : Filter := fun s => fs.foldl (fun acc f => f acc) s

end Filter

/-- Builders of filters, by stage kind. -/
structure Registry where
  builders : List (String × (Stage → Except Report Filter)) := []

namespace Registry

/-- The registry with one more kind; a kind registered again gets the new builder. -/
def register (r : Registry) (kind : String) (build : Stage → Except Report Filter) : Registry :=
  ⟨(r.builders.filter (·.1 != kind)) ++ [(kind, build)]⟩

/-- The registered kinds, sorted. -/
def kinds (r : Registry) : List String := (r.builders.map (·.1)).mergeSort (· ≤ ·)

/-- Builds the filters of stages, run in priority order. -/
def build (r : Registry) (stages : List Stage) : Except Report Filter := do
  let fs ← (Stage.runOrder stages).mapM fun st =>
    match r.builders.find? (·.1 == st.kind) with
    | none => .error (st.failure (unknownKind st.kind))
    | some (_, b) => (b st).mapError st.failure
  return Filter.chain fs

end Registry

/-- What a scan reads and through which stages. -/
structure Request where
  ranges : List Range := []
  stages : List Stage := []
  /-- The families kept; none means all. -/
  families : List Bytes := []
  deriving Inhabited

/-- Reads ranges in order (see the module comment): each range after the last key read
before it, keeping the allowed families. -/
def Table.readRanges (t : Table) (families : List Bytes) :
    Option Key → List Range → List Entry
  | _, [] => []
  | last, r :: rest =>
    let r? := match last with
      | none => some r
      | some k => r.after k
    match r? with
    | none => t.readRanges families last rest
    | some r =>
      let read := t.read r
      let last := match read.getLast? with
        | some e => some e.key
        | none => last
      read.filter (fun e => families.isEmpty || families.contains e.key.family) ++
        t.readRanges families last rest

/-- The entries a request reads, before its stages. -/
def Table.readRequest (t : Table) (req : Request) : List Entry :=
  let ranges := if req.ranges.isEmpty then [Range.everything] else Range.sort req.ranges
  t.readRanges req.families none ranges

/-- Scans a table: reads the request's ranges and passes the entries through its stages. -/
def Table.scan (t : Table) (reg : Registry) (req : Request) : Stream :=
  match reg.build req.stages with
  | .error r => { failure := some r }
  | .ok f => f { entries := t.readRequest req }

end EdgeQuery.Store
