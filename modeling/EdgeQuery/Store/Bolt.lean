import EdgeQuery.Store.Table
/-! # Tables kept in a key-value bucket

A persisted table keeps its entries in one bucket of a key-value database file, each under
the byte form of its key (`Key.encode`), so that the bucket's byte order is key order.

The bucket itself belongs to the database library and is not modelled here: `Bucket` gives
the two operations the table uses, storing a value under a byte key, and the pairs a cursor
visits, from the first one or from where seeking a byte key puts it. What the table relies
on of them is stated where it is used.

Writing puts entries in one transaction: the first entry the bucket refuses fails the
whole write, which then leaves the bucket as it was.

Reading a range goes in batches of at most `batchSize` entries, one read transaction each,
so that no transaction stays open while entries are handed out. A batch starts at the
range's start (at the first pair when the range has none), skips keys before the range,
and ends at the first key after it. The next batch seeks the last key read and starts
after it.

The database is opened for writing, so its bucket exists; reads and writes are never
cancelled. -/

namespace EdgeQuery.Store

/-- The operations of a key-value bucket that a persisted table uses, on bucket states `β`. -/
structure Bucket (β : Type) where
  /-- Stores a value under a byte key, replacing the one there, or says why not. -/
  put : β → Bytes → Bytes → Except String β
  /-- The pairs a cursor visits going to the next until it runs out: from the first pair,
  or (`some s`) from where seeking `s` puts it. -/
  visit : β → Option Bytes → List (Bytes × Bytes)

/-- The most entries one read transaction collects. -/
def batchSize : Nat := 256

/-- A table kept in the bucket of the database file at `path`. -/
structure Persisted (β : Type) where
  path : String
  bucket : β

namespace Persisted

variable {β : Type} (B : Bucket β)

/-- Stores one entry under the byte form of its key. -/
def putEntry (b : β) (e : Entry) : Except String β :=
  (B.put b e.key.encode e.value).mapError fun err =>
    "put " ++ String.ofList (Utf8.chars e.key.render) ++ ": " ++ err

/-- Writes entries in one transaction; a later entry with an equal key wins. -/
def put (t : Persisted β) (es : List Entry) : Except Report (Persisted β) :=
  match es.foldlM (putEntry B) t.bucket with
  | .ok b => .ok { t with bucket := b }
  | .error err => .error (Report.plain ("store " ++ t.path ++ ": " ++ err))

/-- The pairs a read transaction looks at: from the first pair, or from where seeking puts
the cursor, past the sought key when it is excluded. -/
def cursorFrom (t : Persisted β) (seek : Option Bytes) (inclusive : Bool) :
    List (Bytes × Bytes) :=
  match seek with
  | none => B.visit t.bucket none
  | some s =>
    match B.visit t.bucket (some s) with
    | [] => []
    | (k, v) :: rest => if !inclusive && k == s then rest else (k, v) :: rest

/-- Collects the entries of a range from the pairs a cursor visits, `room` more at most:
keys before the range are skipped, and the first key after it ends the range. Tells also
whether the range is done, which a batch that fills up does not know. -/
def collect (r : Range) : Nat → List (Bytes × Bytes) → Except Key.DecodeError (List Entry × Bool)
  | _, [] => .ok ([], true)
  | room, (k, v) :: rest =>
    match Key.decode? k with
    | .error e => .error e
    | .ok key =>
      if r.afterEnd key then .ok ([], true)
      else if r.beforeStart key then collect r room rest
      else if room ≤ 1 then .ok ([⟨key, v⟩], false)
      else (collect r (room - 1) rest).map fun p => (⟨key, v⟩ :: p.1, p.2)

/-- One read transaction: the next batch of a range's entries, and whether the range is
done. -/
def readBatch (t : Persisted β) (r : Range) (seek : Option Bytes) (inclusive : Bool) :
    Except Key.DecodeError (List Entry × Bool) :=
  collect r batchSize (cursorFrom B t seek inclusive)

/-- Reads batches until one finishes the range or comes back empty; each next batch seeks
the last key read, excluded. At most `fuel` batches are read. -/
def readFrom (t : Persisted β) (r : Range) : Nat → Option Bytes → Bool → List Entry × Option Report
  | 0, _, _ => ([], none)
  | fuel + 1, seek, inclusive =>
    match readBatch B t r seek inclusive with
    | .error e => ([], some (e.report.context ("scan " ++ t.path ++ ": ")))
    | .ok (batch, done) =>
      match batch.getLast? with
      | none => ([], none)
      | some last =>
        if done then (batch, none)
        else
          let rest := readFrom t r fuel (some last.key.encode) false
          (batch ++ rest.1, rest.2)

/-- Reads the entries of a range, then the failure that stopped the read, if any. Every
batch but the last holds a pair of the bucket, so one batch more than the bucket has pairs
is enough. -/
def read (t : Persisted β) (r : Range) : List Entry × Option Report :=
  readFrom B t r ((B.visit t.bucket none).length + 1)
    (if r.unboundedStart then none else some r.start.encode)
    (if r.unboundedStart then true else r.startInclusive)

end Persisted

end EdgeQuery.Store
