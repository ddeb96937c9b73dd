import EdgeQuery.Cli.World
/-! # Edge databases on disk

An edge database is kept in a file as bytes: a header line, then the entries and then the
stored checkpoints, each part a count followed by that many framed values. A frame is a
length of eight big-endian bytes followed by that many bytes. An entry is its key's byte
form and its value; a checkpoint is its identifier and its stored record.

Bytes that do not begin with the header, or that end early, are no database; the command
line keeps such a file as plain bytes, which the tool then refuses to open. -/

namespace EdgeQuery.Cli.Archive

open Store Plan

/-- The first bytes of every database file. -/
def header : Bytes := Bytes.ofString "edge database 1\n"

/-- A count as eight big-endian bytes. -/
def count (n : Nat) : Bytes := Key.bigEndian8 n

/-- A frame: the length of some bytes, then the bytes. -/
def frame (b : Bytes) : Bytes := count b.length ++ b

/-- Reads a count, returning it and the bytes after it. -/
def readCount (b : Bytes) : Option (Nat × Bytes) :=
  if b.length < 8 then none else some (Key.ofBigEndian (b.take 8), b.drop 8)

/-- Reads a frame, returning its bytes and the bytes after it. -/
def readFrame (b : Bytes) : Option (Bytes × Bytes) := do
  let (n, rest) ← readCount b
  if rest.length < n then none else some (rest.take n, rest.drop n)

/-- Reads `n` pairs of frames. -/
def readPairs : Nat → Bytes → Option (List (Bytes × Bytes) × Bytes)
  | 0, b => some ([], b)
  | n + 1, b => do
    let (x, b) ← readFrame b
    let (y, b) ← readFrame b
    let (ps, b) ← readPairs n b
    return ((x, y) :: ps, b)

/-- Reads a count and then that many pairs of frames. -/
def readPart (b : Bytes) : Option (List (Bytes × Bytes) × Bytes) := do
  let (n, b) ← readCount b
  readPairs n b

/-- A count and then each pair as two frames. -/
def part (ps : List (Bytes × Bytes)) : Bytes :=
  count ps.length ++ ps.flatMap fun (x, y) => frame x ++ frame y

/-- The bytes of a database. -/
def encode (d : Database) : Bytes :=
  header ++ part (d.table.entries.map fun e => (e.key.encode, e.value)) ++
    part (d.checkpoints.map fun (id, r) => (id.bytes, r))

/-- Reads a database, if the bytes are one. -/
def decode? (b : Bytes) : Option Database := do
  if b.take header.length != header then none
  let (entries, b) ← readPart (b.drop header.length)
  let (checkpoints, b) ← readPart b
  if !b.isEmpty then none
  let entries ← entries.mapM fun (k, v) => (Key.decode? k).toOption.map fun key => ({ key, value := v } : Entry)
  return { table := ⟨entries⟩, checkpoints := checkpoints.map fun (id, r) => (⟨id⟩, r) }

/-- What a file holds, read from its bytes: a database if the bytes are one. -/
def content (b : Bytes) : Content :=
  match decode? b with
  | some d => .database d
  | none => .bytes b

/-- The bytes a file is written as. -/
def bytes : Content → Bytes
  | .bytes b => b
  | .database d => encode d

/-- A count that fits in eight bytes reads back as itself. -/
theorem readCount_count_append (n : Nat) (h : n < Nat.pow 2 64) (rest : Bytes) :
    readCount (count n ++ rest) = some (n, rest) := by
  have hn : n < 18446744073709551616 := h
  have hl : (count n).length = 8 := by simp [count, Key.bigEndian8]
  have hv : Key.ofBigEndian (count n) = n := by
    simp only [count, Key.bigEndian8, Key.ofBigEndian, List.range, List.range.loop]
    simp
    omega
  simp [readCount, hl, hv]

end EdgeQuery.Cli.Archive
