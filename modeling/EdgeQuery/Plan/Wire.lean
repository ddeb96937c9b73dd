import EdgeQuery.Plan.Unit
import EdgeQuery.Codec.Msgpack
/-! # Plans in MessagePack

The stored form of keys, ranges, stages and plan units: each is a MessagePack map with
short field names, and fields holding their empty value are left out.

* a key: `r` row, `f` family, `q` qualifier, `v` visibility, `t` timestamp;
* a range: `s` start, `e` end, `si`/`ei` whether they are included, `is`/`ie` whether
  they are unbounded;
* a stage: `p` priority, `n` name, `k` kind, `o` options (a map of texts);
* a unit: `r` ranges, `s` stages, `c` column families, `l` last key.

Reading accepts what `Msgpack.readRecord` accepts: fields in any order, unknown fields
skipped, a record also written as an array of all its fields, and nil for an empty value. -/

namespace EdgeQuery.Plan

open Store Msgpack

/-- A text field name. -/
def fieldName (s : String) : Value := .str (Bytes.ofString s)

/-- A map of the fields whose value is not empty. -/
def record (fields : List (String × Option Value)) : Value :=
  .map (fields.filterMap fun (n, v) => v.map fun v => (fieldName n, v))

/-- A byte string field, left out when empty. -/
def textField (b : Bytes) : Option Value := if b.isEmpty then none else some (.str b)

/-- The stored form of a key. -/
def keyValue (k : Key) : Value :=
  record [("r", some (.str k.row)), ("f", textField k.family), ("q", textField k.qualifier),
    ("v", textField k.visibility), ("t", if k.timestamp == 0 then none else some (.int k.timestamp))]

/-- The stored form of a range. -/
def rangeValue (r : Range) : Value :=
  record [("s", some (keyValue r.start)), ("e", some (keyValue r.stop)),
    ("si", some (.bool r.startInclusive)), ("ei", some (.bool r.stopInclusive)),
    ("is", if r.unboundedStart then some (.bool true) else none),
    ("ie", if r.unboundedStop then some (.bool true) else none)]

/-- The stored form of a stage. -/
def stageValue (s : Stage) : Value :=
  record [("p", some (.int s.priority)), ("n", some (.str (Bytes.ofString s.name))),
    ("k", some (.str (Bytes.ofString s.kind))),
    ("o", if s.options.isEmpty then none
      else some (.map (s.options.map fun (k, v) => (.str (Bytes.ofString k), .str (Bytes.ofString v)))))]

/-- The stored form of a unit. -/
def unitValue (u : ScanUnit) : Value :=
  record [("r", some (.arr (u.ranges.map rangeValue))), ("s", some (.arr (u.stages.map stageValue))),
    ("c", if u.families.isEmpty then none else some (.arr (u.families.map .str))),
    ("l", u.lastKey.map keyValue)]

/-- Reads an array of items; nil is the empty list. -/
def readList {α : Type} (item : Reader α) : Reader (List α) := do
  match ← readArrayLen with
  | none => pure []
  | some n => (List.range n).mapM fun _ => item

/-- Whether the next item is nil; a nil is consumed. -/
def readNil : Reader Bool := do
  match ← get with
  | 0xc0 :: rest => set rest; pure true
  | _ => pure false

/-- Reads a text. -/
def readText : Reader String := do return Bytes.toUtf8 (← readBytes)

/-- Reads a map of texts; a repeated key keeps its last value. -/
def readTextMap : Reader (List (String × String)) := do
  match ← readMapLen with
  | none => pure []
  | some n =>
    (List.range n).foldlM (fun acc _ => do
      let k ← readText
      let v ← readText
      pure ((acc.filter (·.1 != k)) ++ [(k, v)])) []

/-- Reads a key. -/
def readKey : Reader Key :=
  readRecord {}
    [("r", fun k => do return { k with row := ← readBytes }),
     ("f", fun k => do return { k with family := ← readBytes }),
     ("q", fun k => do return { k with qualifier := ← readBytes }),
     ("v", fun k => do return { k with visibility := ← readBytes }),
     ("t", fun k => do return { k with timestamp := ← readInt })]

/-- Reads a range. -/
def readRange : Reader Range :=
  readRecord {}
    [("s", fun r => do return { r with start := ← readKey }),
     ("e", fun r => do return { r with stop := ← readKey }),
     ("si", fun r => do return { r with startInclusive := ← readBool }),
     ("ei", fun r => do return { r with stopInclusive := ← readBool }),
     ("is", fun r => do return { r with unboundedStart := ← readBool }),
     ("ie", fun r => do return { r with unboundedStop := ← readBool })]

/-- Reads a stage. -/
def readStage : Reader Stage :=
  readRecord { name := "", kind := "" }
    [("p", fun s => do return { s with priority := ← readInt }),
     ("n", fun s => do return { s with name := ← readText }),
     ("k", fun s => do return { s with kind := ← readText }),
     ("o", fun s => do return { s with options := ← readTextMap })]

/-- Reads a unit. -/
def readUnit : Reader ScanUnit :=
  readRecord {}
    [("r", fun u => do return { u with ranges := ← readList readRange }),
     ("s", fun u => do return { u with stages := ← readList readStage }),
     ("c", fun u => do return { u with families := ← readList readBytes }),
     ("l", fun u => do
        if ← readNil then return { u with lastKey := none }
        else return { u with lastKey := some (← readKey) })]

end EdgeQuery.Plan
