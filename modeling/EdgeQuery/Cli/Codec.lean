import EdgeQuery.Codec.Msgpack
import EdgeQuery.Codec.Zstd
import EdgeQuery.Edge.Basic
import EdgeQuery.Edge.Prefilter
import EdgeQuery.Excerpt.Terms
import EdgeQuery.Plan.Wire
import EdgeQuery.Plan.Checkpoint
/-! # The serial forms the command line runs with

The program writes its stored and carried values as MessagePack and compresses tokens as
Zstandard frames. This module gives the MessagePack form of each value the program
serialises, as its field tags lay it out, and the `Serial` and `TokenCodec` built from them:

* an edge's stored value is a map with the count under `c` and the load date, when there is
  one, under `l`;
* a term's offsets are an array of integers;
* a prefilter is a map from field names to arrays of values;
* a checkpoint is a map with its id under `id`, its query's id under `q`, its time under `t`
  (MessagePack extension `-1`, in the shortest of its three forms) and its units under `u`
  (see `Plan.unitValue`).

Reading accepts what `Msgpack.readRecord` accepts. -/

namespace EdgeQuery

open Msgpack

namespace Edge

/-- The MessagePack form of a stored value: the count, and the load date when there is one. -/
def Stored.toValue (s : Stored) : Value :=
  .map ([(.str (Bytes.ofString "c"), .int s.count)] ++
    if s.loadDate.isEmpty then [] else [(.str (Bytes.ofString "l"), .str s.loadDate)])

/-- Reads a stored value. -/
def readStored : Reader Stored :=
  readRecord {}
    [("c", fun s => do return { s with count := ← readInt }),
     ("l", fun s => do return { s with loadDate := ← readBytes })]

namespace Prefilter

/-- The MessagePack form: a map from fields to arrays of values. -/
def toValue (p : Prefilter) : Value :=
  .map (p.fields.map fun (f, vs) => (.str f, .arr (vs.map .str)))

/-- Reads the MessagePack form; nil reads as the empty prefilter, a repeated field keeps its
last values. -/
def read : Reader Prefilter := do
  match ← readMapLen with
  | none => pure {}
  | some n =>
    (List.range n).foldlM (fun p _ => do
      let field ← readBytes
      let values ← match ← readArrayLen with
        | none => pure []
        | some m => (List.range m).mapM fun _ => readBytes
      pure (p.insert field values)) {}

end Prefilter

end Edge

namespace Excerpt

/-- The MessagePack form of offsets. -/
def offsetsValue (offsets : List Int) : Value := .arr (offsets.map .int)

/-- Reads the offsets of a term entry. -/
def readOffsets : Reader (List Int) := do
  match ← readArrayLen with
  | none => pure []
  | some n => (List.range n).mapM fun _ => readInt

end Excerpt

namespace Plan

/-- Reads an identifier: nil is the zero identifier, otherwise a byte string of sixteen
bytes. -/
def Uuid.read : Reader Uuid := do
  if ← readNil then return Uuid.zero
  let b ← readBytes
  if b.length != 16 then throw ("invalid UUID (got " ++ toString b.length ++ " bytes)")
  return ⟨b⟩

namespace Instant

/-- The stored form: four bytes of seconds, eight bytes of nanoseconds and seconds, or four
bytes of nanoseconds and eight of seconds. -/
def toValue (t : Instant) : Value :=
  let secs := Msgpack.twos 8 t.seconds
  if secs / Nat.pow 2 34 == 0 then
    let data := t.nanos * Nat.pow 2 34 + secs
    if data < Nat.pow 2 32 then .ext (-1) (Msgpack.bigEndian 4 data)
    else .ext (-1) (Msgpack.bigEndian 8 data)
  else .ext (-1) (Msgpack.bigEndian 4 t.nanos ++ Msgpack.bigEndian 8 secs)

/-- Reads a stored time; nil is the zero time. -/
def read : Reader Instant := do
  if ← readNil then return zero
  let c ← readCode
  let len ← extDataLen c
  let t := Msgpack.signed 1 (← readCode).toNat
  if t != -1 then throw ("msgpack: got ext type=" ++ toString t ++ ", wanted -1")
  let b ← readN len
  match b.length with
  | 4 => return ⟨ofBigEndian b, 0⟩
  | 8 =>
    let v := ofBigEndian b
    return ofParts (v % Nat.pow 2 34 : Nat) (v / Nat.pow 2 34)
  | 12 =>
    let ns := ofBigEndian (b.take 4)
    let s := Msgpack.signed 8 (ofBigEndian (b.drop 4))
    return ofParts s ns
  | _ => throw ("msgpack: invalid ext len=" ++ toString len ++ " decoding time")

end Instant

namespace Checkpoint

/-- The MessagePack form. -/
def toValue (cp : Checkpoint) : Value :=
  .map [(fieldName "id", .bin cp.id.bytes), (fieldName "q", .bin cp.queryId.bytes),
    (fieldName "t", cp.created.toValue), (fieldName "u", .arr (cp.units.map unitValue))]

/-- Reads the MessagePack form. -/
def read : Reader Checkpoint :=
  readRecord ⟨Uuid.zero, Uuid.zero, Instant.zero, []⟩
    [("id", fun cp => do return { cp with id := ← Uuid.read }),
     ("q", fun cp => do return { cp with queryId := ← Uuid.read }),
     ("t", fun cp => do return { cp with created := ← Instant.read }),
     ("u", fun cp => do return { cp with units := ← readList readUnit })]

end Checkpoint

end Plan

namespace Cli

/-- Edge values in MessagePack. -/
def storedSerial : Serial Edge.Stored := ⟨fun s => encode s.toValue, Edge.readStored.run'⟩

/-- Term offsets in MessagePack. -/
def offsetsSerial : Serial (List Int) :=
  ⟨fun offs => encode (Excerpt.offsetsValue offs), Excerpt.readOffsets.run'⟩

/-- Prefilters in MessagePack. -/
def prefilterSerial : Serial Edge.Prefilter :=
  ⟨fun p => encode p.toValue, Edge.Prefilter.read.run'⟩

/-- Checkpoints in MessagePack. -/
def checkpointSerial : Serial Plan.Checkpoint :=
  ⟨fun cp => encode cp.toValue, Plan.Checkpoint.read.run'⟩

/-- Zstandard frames, decompressed up to `Zstd.maxDecoded` bytes. -/
def zstd : Compression := ⟨Zstd.compress, Zstd.decompress⟩

/-- Prefilter tokens. -/
def prefilterTokens : TokenCodec Edge.Prefilter := ⟨prefilterSerial, zstd⟩

/-- Checkpoint tokens. -/
def checkpointTokens : TokenCodec Plan.Checkpoint := ⟨checkpointSerial, zstd⟩

end Cli

end EdgeQuery
