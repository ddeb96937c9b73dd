import EdgeQuery.Plan.Unit
import EdgeQuery.Codec.Token
import EdgeQuery.Codec.Header
/-! # Checkpoints

A checkpoint holds what is left of a paused execution: an id of its own, the id of the
query it belongs to, when it was made, and the units still to scan. It travels as a token
(URL alphabet, no padding) and is kept in a checkpoint store, either in memory or as
stamped bytes (`Header.checkpoint` followed by its serial form) under its id. The serial
form is a parameter; the program writes MessagePack.

Ids are sixteen bytes, written in the usual 8-4-4-4-12 hexadecimal groups. Times are
seconds and nanoseconds since 1970.

A store lists its checkpoints oldest first, those made at the same time by id. -/

namespace EdgeQuery.Plan

/-- A sixteen-byte identifier. -/
structure Uuid where
  bytes : Bytes
  deriving DecidableEq, Inhabited, Repr

namespace Uuid

/-- The identifier of all zero bytes. -/
def zero : Uuid := ⟨List.replicate 16 0⟩

/-- The usual text of an identifier: five groups of hexadecimal digits. -/
def render (u : Uuid) : String :=
  let h := Bytes.hex u.bytes
  let part (a n : Nat) : String := ((h.drop a).take n).toString
  part 0 8 ++ "-" ++ part 8 4 ++ "-" ++ part 12 4 ++ "-" ++ part 16 4 ++ "-" ++ part 20 12

/-- The identifier numbered `n`: a random-kind identifier whose last bytes hold `n` and
whose first bytes hold `tag`. -/
def numbered (tag n : Nat) : Uuid :=
  let b := Store.Key.bigEndian8 tag ++ Store.Key.bigEndian8 n
  ⟨b.set 6 ((b.getD 6 0 &&& 0x0f) ||| 0x40) |>.set 8 ((b.getD 8 0 &&& 0x3f) ||| 0x80)⟩

end Uuid

/-- A point in time: seconds and nanoseconds since 1970. -/
structure Instant where
  seconds : Int
  nanos : Nat := 0
  deriving DecidableEq, Inhabited, Repr

namespace Instant

/-- The time given by seconds and any number of nanoseconds. -/
def ofParts (s : Int) (ns : Nat) : Instant := ⟨s + (ns / 1000000000 : Nat), ns % 1000000000⟩

/-- The time that was never set: the first moment of year 1. -/
def zero : Instant := ⟨-62135596800, 0⟩

/-- Time order. -/
def compare (a b : Instant) : Ordering := (Ord.compare a.seconds b.seconds).then (Ord.compare a.nanos b.nanos)

/-- Whether `a` is strictly before `b`. -/
def before (a b : Instant) : Bool := a.compare b == .lt

/-- The time some seconds later (earlier, for a negative number). -/
def addSeconds (t : Instant) (s : Int) : Instant := { t with seconds := t.seconds + s }

/-- The point in time `ns` nanoseconds earlier. -/
def back (t : Instant) (ns : Int) : Instant :=
  let total := t.seconds * 1000000000 + t.nanos - ns
  ⟨total.fdiv 1000000000, (total.fmod 1000000000).toNat⟩

end Instant

/-- What is left of an execution, to resume it later. -/
structure Checkpoint where
  id : Uuid
  queryId : Uuid
  created : Instant
  units : List ScanUnit
  deriving Inhabited

namespace Checkpoint

/-- The token of a checkpoint. -/
def encode (c : TokenCodec Checkpoint) (cp : Checkpoint) : String := Token.encode c Base64.url cp

/-- Reads a checkpoint token. -/
def decode (c : TokenCodec Checkpoint) (token : String) : Except Report Checkpoint :=
  (Token.decode c Base64.url token).mapError (TokenError.report "checkpoint token: ")

/-- The order of a store's list: by time made, then by id. -/
def before (a b : Checkpoint) : Bool :=
  match a.created.compare b.created with
  | .lt => true
  | .gt => false
  | .eq => decide (a.id.bytes ≤ b.id.bytes)

/-- The stored bytes of a checkpoint, in the serial form `S`. -/
def stored (S : Serial Checkpoint) (cp : Checkpoint) : Bytes := Header.checkpoint.wrap (S.write cp)

/-- Reads stored bytes in the serial form `S`. -/
def ofStored (S : Serial Checkpoint) (b : Bytes) : Except Report Checkpoint :=
  match Header.checkpoint.unwrap b with
  | .error e => .error (e.report.context "decode checkpoint: ")
  | .ok payload =>
    match S.read payload with
    | .ok cp => .ok cp
    | .error m => .error (Report.plain ("decode checkpoint: " ++ m))

end Checkpoint

/-- The failure for an id no checkpoint has. -/
def checkpointNotFound (id : Uuid) : Report :=
  { message := "checkpoint not found: " ++ id.render, causes := [.checkpointNotFound] }

/-- A checkpoint store: checkpoints in memory, or stamped bytes by id, the checkpoints in
the serial form `serial`. -/
inductive CheckpointStore where
  | memory (cps : List Checkpoint)
  | persisted (serial : Serial Checkpoint) (records : List (Uuid × Bytes))
  deriving Inhabited

namespace CheckpointStore

/-- Inserts a record, keeping the records in id order and each id once. -/
def insertRecord (id : Uuid) (b : Bytes) : List (Uuid × Bytes) → List (Uuid × Bytes)
  | [] => [(id, b)]
  | (i, x) :: rest =>
    if id.bytes = i.bytes then (id, b) :: rest
    else if id.bytes < i.bytes then (id, b) :: (i, x) :: rest
    else (i, x) :: insertRecord id b rest

/-- Stores bytes under an id as they are. -/
def putRaw (s : CheckpointStore) (id : Uuid) (b : Bytes) : CheckpointStore :=
  match s with
  | .memory cps => .memory cps
  | .persisted S rs => .persisted S (insertRecord id b rs)

/-- Stores a checkpoint, replacing one with the same id. -/
def put (s : CheckpointStore) (cp : Checkpoint) : CheckpointStore :=
  match s with
  | .memory cps => .memory (cps.filter (·.id != cp.id) ++ [cp])
  | .persisted S rs => .persisted S (insertRecord cp.id (cp.stored S) rs)

/-- The checkpoint with an id. -/
def get (s : CheckpointStore) (id : Uuid) : Except Report Checkpoint :=
  match s with
  | .memory cps =>
    match cps.find? (·.id == id) with
    | some cp => .ok cp
    | none => .error (checkpointNotFound id)
  | .persisted S rs =>
    match rs.find? (·.1 == id) with
    | some (_, b) => Checkpoint.ofStored S b
    | none => .error (checkpointNotFound id)

/-- Removes the checkpoint with an id, if there is one. -/
def delete (s : CheckpointStore) (id : Uuid) : CheckpointStore :=
  match s with
  | .memory cps => .memory (cps.filter (·.id != id))
  | .persisted S rs => .persisted S (rs.filter (·.1 != id))

/-- Every checkpoint, oldest first. -/
def list (s : CheckpointStore) : Except Report (List Checkpoint) := do
  let cps ← match s with
    | .memory cps => pure cps
    | .persisted S rs => rs.mapM fun (_, b) => Checkpoint.ofStored S b
  return cps.mergeSort Checkpoint.before

/-- The number of checkpoints kept. -/
def size (s : CheckpointStore) : Nat :=
  match s with
  | .memory cps => cps.length
  | .persisted _ rs => rs.length

/-- Deletes the checkpoints made before `cutoff`, oldest first, and says how many went. -/
def sweepBefore (s : CheckpointStore) (cutoff : Instant) : Except Report (Nat × CheckpointStore) := do
  let cps ← s.list
  let old := cps.takeWhile fun cp => cp.created.before cutoff
  return (old.length, old.foldl (fun acc cp => acc.delete cp.id) s)

/-- Deletes the checkpoints made before `now` less `ttl` seconds, oldest first, and says
how many went. -/
def sweep (s : CheckpointStore) (now : Instant) (ttl : Int) : Except Report (Nat × CheckpointStore) :=
  s.sweepBefore (now.addSeconds (-ttl))

end CheckpointStore

end EdgeQuery.Plan
