import EdgeQuery.Text.Bytes
/-! # Serial forms

Some values leave the program as bytes and are read back later: the value of an edge
entry, the offsets of a term entry, prefilters and checkpoints. Their byte forms are those
of libraries (MessagePack, and Zstandard compression for tokens), so here they are
parameters: a `Serial α` writes the values of `α` and reads bytes back, and a
`Compression` compresses bytes and decompresses them.

What the program relies on is stated of them as laws, each for the values it is needed
for: reading what was written gives the value back (`Serial.ReadsBack`), and decompressing
gives back what was compressed, up to a size (`Compression.Lossless`). Theorems about the
program take these laws as hypotheses; the command line runs with MessagePack and
Zstandard forms for which the laws are proved. -/

namespace EdgeQuery

/-- A byte form of the values of a type: how a value is written, and how bytes are read
back, failing with a text. -/
structure Serial (α : Type) where
  write : α → Bytes
  read : Bytes → Except String α

/-- Reading what is written of a value gives the value back. -/
def Serial.ReadsBack {α : Type} (s : Serial α) (a : α) : Prop := s.read (s.write a) = .ok a

/-- A compression of bytes, and its inverse, which fails with a text. -/
structure Compression where
  compress : Bytes → Bytes
  decompress : Bytes → Except String Bytes

/-- Decompressing gives back whatever of at most `limit` bytes was compressed. -/
def Compression.Lossless (z : Compression) (limit : Nat) : Prop :=
  ∀ b : Bytes, b.length ≤ limit → z.decompress (z.compress b) = .ok b

end EdgeQuery
