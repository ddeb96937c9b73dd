import EdgeQuery.Text.Quote
import EdgeQuery.Report
/-! # Keys

A key names one entry of a store: a row, a column family, a column qualifier, a
visibility label and a timestamp. Keys sort by row, family, qualifier and visibility in
byte order, and then by timestamp from the newest down, so the newest version of a cell
comes first.

Keys are written to bytes so that byte order is key order: each text component has its
zero bytes escaped as `00 FF` and ends with `00 01`, and the timestamp follows as eight
big-endian bytes of `2^63 - 1 - t`. `Key.decode?` reads that form back. -/

namespace EdgeQuery.Store

/-- The newest and the oldest timestamps (the range of 64-bit integers). -/
def maxTimestamp : Int := Int.pow 2 63 - 1
def minTimestamp : Int := -Int.pow 2 63

/-- The identity of an entry. -/
structure Key where
  row : Bytes := []
  family : Bytes := []
  qualifier : Bytes := []
  visibility : Bytes := []
  timestamp : Int := 0
  deriving DecidableEq, Inhabited, Repr

/-- How much of a key a prefix takes. -/
inductive Part where
  | row
  | family
  | qualifier
  | visibility
  deriving DecidableEq, Inhabited, Repr

/-- The parts are numbered from 1 in the order of the components. -/
def Part.ofCode? : Int → Option Part
  | 1 => some .row
  | 2 => some .family
  | 3 => some .qualifier
  | 4 => some .visibility
  | _ => none

namespace Key

/-- Key order: components in byte order, then newer timestamps first. -/
def compare (k o : Key) : Ordering :=
  (Bytes.cmp k.row o.row).then <|
  (Bytes.cmp k.family o.family).then <|
  (Bytes.cmp k.qualifier o.qualifier).then <|
  (Bytes.cmp k.visibility o.visibility).then <|
  Ord.compare o.timestamp k.timestamp

/-- Whether `k` sorts before `o`. -/
def lt (k o : Key) : Bool := k.compare o == .lt

/-- Whether two keys agree on the components of a prefix; on every component without one. -/
def equalUpTo (k o : Key) : Option Part → Bool
  | some .row => k.row == o.row
  | some .family => k.row == o.row && k.family == o.family
  | some .qualifier => k.row == o.row && k.family == o.family && k.qualifier == o.qualifier
  | some .visibility =>
    k.row == o.row && k.family == o.family && k.qualifier == o.qualifier && k.visibility == o.visibility
  | none => k == o

/-- The smallest key after every key that shares `k`'s prefix `part`. -/
def following (k : Key) (part : Part) : Key :=
  match part with
  | .row => { row := k.row ++ [0], timestamp := maxTimestamp }
  | .family => { row := k.row, family := k.family ++ [0], timestamp := maxTimestamp }
  | .qualifier =>
    { row := k.row, family := k.family, qualifier := k.qualifier ++ [0], timestamp := maxTimestamp }
  | .visibility =>
    { k with visibility := k.visibility ++ [0], timestamp := maxTimestamp }

/-- The key right after `k`: the next older timestamp, or the next cell after the oldest. -/
def successor (k : Key) : Key :=
  if k.timestamp = minTimestamp then k.following .visibility
  else { k with timestamp := k.timestamp - 1 }

/-- `following` for a prefix, and `successor` for the whole key. -/
def after (k : Key) : Option Part → Key
  | some part => k.following part
  | none => k.successor

/-- The first key of a cell: its newest version. -/
def start (k : Key) : Key := { k with timestamp := maxTimestamp }

/-- The first key of a row. -/
def ofRow (row : Bytes) : Key := { row, timestamp := maxTimestamp }

/-- The first key with the components of a prefix of `k`. -/
def truncate (k : Key) : Part → Key
  | .row => { row := k.row, timestamp := maxTimestamp }
  | .family => { row := k.row, family := k.family, timestamp := maxTimestamp }
  | .qualifier =>
    { row := k.row, family := k.family, qualifier := k.qualifier, timestamp := maxTimestamp }
  | .visibility => k

/-- The text of a key: row, family and qualifier quoted, visibility in brackets,
timestamp. -/
def render (k : Key) : Bytes :=
  Bytes.ofString (Quote.bytes k.row ++ " " ++ Quote.bytes k.family ++ ":" ++ Quote.bytes k.qualifier ++ " [") ++
    k.visibility ++ Bytes.ofString ("] " ++ toString k.timestamp)

/-! ## Bytes -/

/-- A text component with its zero bytes escaped and its terminator. -/
def encodeComponent (s : Bytes) : Bytes :=
  s.flatMap (fun b => if b = 0 then [0, 0xFF] else [b]) ++ [0, 1]

/-- The eight big-endian bytes of a number below 2^64. -/
def bigEndian8 (v : Nat) : Bytes :=
  (List.range 8).reverse.map fun i => (v / Nat.pow 256 i % 256).toUInt8

/-- The value of big-endian bytes. -/
def ofBigEndian (b : Bytes) : Nat := b.foldl (fun n x => n * 256 + x.toNat) 0

/-- The byte form of a key. -/
def encode (k : Key) : Bytes :=
  encodeComponent k.row ++ encodeComponent k.family ++ encodeComponent k.qualifier ++
    encodeComponent k.visibility ++ bigEndian8 (maxTimestamp - k.timestamp).toNat

/-- Why a component does not read. -/
inductive ComponentError where
  | truncatedEscape
  | badEscape (b : UInt8)
  | missingTerminator
  deriving DecidableEq, Repr

/-- The text of a component error. -/
def ComponentError.text : ComponentError → String
  | .truncatedEscape => "truncated escape"
  | .badEscape b => "bad escape 0x" ++ String.ofList (Bytes.hex [b]).toList
  | .missingTerminator => "missing terminator"

/-- Reads one component, returning it and the bytes after its terminator. -/
def readComponent : Bytes → Except ComponentError (Bytes × Bytes)
  | [] => .error .missingTerminator
  | [0] => .error .truncatedEscape
  | 0 :: 0xFF :: rest => (readComponent rest).map fun (s, r) => (0 :: s, r)
  | 0 :: 1 :: rest => .ok ([], rest)
  | 0 :: b :: _ => .error (.badEscape b)
  | b :: rest => (readComponent rest).map fun (s, r) => (b :: s, r)

/-- Why bytes do not read as a key. -/
inductive DecodeError where
  | component (index : Nat) (e : ComponentError)
  | timestampLength (n : Nat)
  deriving DecidableEq, Repr

/-- The report of a decode error. -/
def DecodeError.report : DecodeError → Report
  | .component i e =>
    .withCause .malformedKey "malformed key" (": component " ++ toString i ++ ": " ++ e.text)
  | .timestampLength n =>
    .withCause .malformedKey "malformed key" (": timestamp has " ++ toString n ++ " bytes")

/-- Reads the byte form of a key. -/
def decode? (b : Bytes) : Except DecodeError Key := do
  let read (i : Nat) (b : Bytes) : Except DecodeError (Bytes × Bytes) :=
    (readComponent b).mapError (.component i)
  let (row, b) ← read 0 b
  let (family, b) ← read 1 b
  let (qualifier, b) ← read 2 b
  let (visibility, b) ← read 3 b
  if b.length ≠ 8 then .error (.timestampLength b.length)
  else pure { row, family, qualifier, visibility, timestamp := maxTimestamp - ofBigEndian b }

end Key

end EdgeQuery.Store
