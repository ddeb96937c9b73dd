import EdgeQuery.Text.Bytes
/-! # MessagePack

The binary form values are stored and sent in. A value is nil, a boolean, an integer, a
float, a text, a byte string, an array, a map or an extension (a type number and bytes).
Writing uses the shortest form of every length and integer.

Reading is driven by the type expected at each place, as a `Reader`: it reads a length or
a scalar, or skips a value of any type. A place that expects a map, an array, a text or a
number and finds another kind of value fails naming the byte it found; running out of
bytes fails with `EOF` when no byte of the item is left and `unexpected EOF` in the middle
of one. A nil where a container or text is expected reads as its empty value. -/

namespace EdgeQuery.Msgpack

/-- A value. -/
inductive Value where
  | nil
  | bool (b : Bool)
  | int (n : Int)
  | float (x : Float)
  | str (s : Bytes)
  | bin (b : Bytes)
  | arr (xs : List Value)
  | map (kvs : List (Value × Value))
  | ext (type : Int) (data : Bytes)
  deriving Inhabited

/-- The big-endian bytes of a number, `n` bytes wide. -/
def bigEndian (width : Nat) (v : Nat) : Bytes :=
  (List.range width).reverse.map fun i => (v / Nat.pow 256 i % 256).toUInt8

/-- The value of big-endian bytes. -/
def ofBigEndian (b : Bytes) : Nat := b.foldl (fun n x => n * 256 + x.toNat) 0

/-- The two's complement of an integer in `width` bytes. -/
def twos (width : Nat) (n : Int) : Nat := (n % Int.pow 2 (8 * width)).toNat

/-- The header of a length-prefixed item: a short form for small lengths, else one of
three codes followed by one, two or four length bytes. -/
def lengthHeader (fixBase fixMax : Nat) (codes : Option UInt8 × UInt8 × UInt8) (n : Nat) : Bytes :=
  if n ≤ fixMax then [(fixBase + n).toUInt8]
  else match codes.1 with
    | some c8 => if n < 256 then [c8, n.toUInt8] else
        if n < 65536 then codes.2.1 :: bigEndian 2 n else codes.2.2 :: bigEndian 4 n
    | none => if n < 65536 then codes.2.1 :: bigEndian 2 n else codes.2.2 :: bigEndian 4 n

/-- The bytes of an integer in its shortest form. -/
def encodeInt (n : Int) : Bytes :=
  if 0 ≤ n then
    if n < 128 then [n.toNat.toUInt8]
    else if n < 256 then [0xcc, n.toNat.toUInt8]
    else if n < 65536 then 0xcd :: bigEndian 2 n.toNat
    else if n < Int.pow 2 32 then 0xce :: bigEndian 4 n.toNat
    else 0xcf :: bigEndian 8 n.toNat
  else
    if n ≥ -32 then [(twos 1 n).toUInt8]
    else if n ≥ -128 then [0xd0, (twos 1 n).toUInt8]
    else if n ≥ -32768 then 0xd1 :: bigEndian 2 (twos 2 n)
    else if n ≥ -Int.pow 2 31 then 0xd2 :: bigEndian 4 (twos 4 n)
    else 0xd3 :: bigEndian 8 (twos 8 n)

mutual

/-- The bytes of a value. -/
def encode : Value → Bytes
  | .nil => [0xc0]
  | .bool b => [if b then 0xc3 else 0xc2]
  | .int n => encodeInt n
  | .float x => 0xcb :: bigEndian 8 x.toBits.toNat
  | .str s => lengthHeader 0xa0 31 (some 0xd9, 0xda, 0xdb) s.length ++ s
  | .bin b => lengthHeader 0 0 (some 0xc4, 0xc5, 0xc6) b.length ++ b
  | .arr xs => lengthHeader 0x90 15 (none, 0xdc, 0xdd) xs.length ++ encodeAll xs
  | .map kvs => lengthHeader 0x80 15 (none, 0xde, 0xdf) kvs.length ++ encodePairs kvs
  | .ext t d =>
    let tb := (twos 1 t).toUInt8
    match d.length with
    | 1 => [0xd4, tb] ++ d
    | 2 => [0xd5, tb] ++ d
    | 4 => [0xd6, tb] ++ d
    | 8 => [0xd7, tb] ++ d
    | 16 => [0xd8, tb] ++ d
    | n => (if n < 256 then [0xc7, n.toUInt8] else if n < 65536 then 0xc8 :: bigEndian 2 n
        else 0xc9 :: bigEndian 4 n) ++ [tb] ++ d

/-- The bytes of the values of an array. -/
def encodeAll : List Value → Bytes
  | [] => []
  | x :: xs => encode x ++ encodeAll xs

/-- The bytes of the entries of a map. -/
def encodePairs : List (Value × Value) → Bytes
  | [] => []
  | (k, v) :: rest => encode k ++ encode v ++ encodePairs rest

end

/-! ## Reading -/

/-- A reader of values: the bytes left, or a failure text. -/
abbrev Reader := StateT Bytes (Except String)

/-- The text of a code that does not fit the expected item: lowercase hexadecimal without
leading zeros. -/
def codeText (c : UInt8) : String := String.ofList (Nat.toDigits 16 c.toNat)

/-- Reads the code byte of the next item. -/
def readCode : Reader UInt8 := do
  match ← get with
  | c :: rest => set rest; pure c
  | [] => throw "EOF"

/-- Reads `n` bytes. -/
def readN (n : Nat) : Reader Bytes := do
  let b ← get
  if n = 0 then pure []
  else if b.isEmpty then throw "EOF"
  else if b.length < n then throw "unexpected EOF"
  else set (b.drop n); pure (b.take n)

/-- Reads an unsigned big-endian number of `n` bytes. -/
def readUInt (n : Nat) : Reader Nat := ofBigEndian <$> readN n

/-- The signed value of an `n`-byte two's complement number. -/
def signed (n v : Nat) : Int := if v ≥ Nat.pow 2 (8 * n - 1) then (v : Int) - Int.pow 2 (8 * n) else v

/-- Reads a signed big-endian number of `n` bytes. -/
def readSInt (n : Nat) : Reader Int := signed n <$> readUInt n

/-- The length of a map, none for nil. -/
def mapLen (c : UInt8) : Reader (Option Nat) :=
  if c = 0xc0 then pure none
  else if c &&& 0xf0 = 0x80 then pure (some (c &&& 0x0f).toNat)
  else if c = 0xde then some <$> readUInt 2
  else if c = 0xdf then some <$> readUInt 4
  else throw ("msgpack: unexpected code=" ++ codeText c ++ " decoding map length")

/-- The length of an array, none for nil. -/
def arrayLen (c : UInt8) : Reader (Option Nat) :=
  if c = 0xc0 then pure none
  else if c &&& 0xf0 = 0x90 then pure (some (c &&& 0x0f).toNat)
  else if c = 0xdc then some <$> readUInt 2
  else if c = 0xdd then some <$> readUInt 4
  else throw ("msgpack: invalid code=" ++ codeText c ++ " decoding array length")

/-- The length of a text or byte string, none for nil. -/
def bytesLen (c : UInt8) : Reader (Option Nat) :=
  if c = 0xc0 then pure none
  else if c &&& 0xe0 = 0xa0 then pure (some (c &&& 0x1f).toNat)
  else if c = 0xd9 || c = 0xc4 then some <$> readUInt 1
  else if c = 0xda || c = 0xc5 then some <$> readUInt 2
  else if c = 0xdb || c = 0xc6 then some <$> readUInt 4
  else throw ("msgpack: invalid code=" ++ codeText c ++ " decoding string/bytes length")

/-- Whether a code starts an extension. -/
def isExt (c : UInt8) : Bool := (0xd4 ≤ c && c ≤ 0xd8) || (0xc7 ≤ c && c ≤ 0xc9)

/-- The number of length bytes after the code of an extension. -/
def extLengthBytes (c : UInt8) : Nat :=
  if c = 0xc7 then 1 else if c = 0xc8 then 2 else if c = 0xc9 then 4 else 0

/-- The number of data bytes of an extension, read after its code. -/
def extDataLen (c : UInt8) : Reader Nat :=
  match c with
  | 0xd4 => pure 1
  | 0xd5 => pure 2
  | 0xd6 => pure 4
  | 0xd7 => pure 8
  | 0xd8 => pure 16
  | 0xc7 => readUInt 1
  | 0xc8 => readUInt 2
  | 0xc9 => readUInt 4
  | _ => throw ("msgpack: invalid code=" ++ codeText c ++ " decoding ext len")

/-- Reads a text (or byte string); nil reads as none. -/
def readBytes? : Reader (Option Bytes) := do
  match ← bytesLen (← readCode) with
  | none => pure none
  | some n => some <$> readN n

/-- Reads a text (or byte string); nil reads as empty. -/
def readBytes : Reader Bytes := (·.getD []) <$> readBytes?

/-- Reads a map header; nil reads as none. An extension header in front of the map is
passed over. -/
def readMapLen : Reader (Option Nat) := do
  let c ← readCode
  if isExt c then
    let _ ← readCode
    for _ in List.range (extLengthBytes c) do
      let _ ← readCode
    mapLen (← readCode)
  else mapLen c

/-- Reads an array header; nil reads as none. -/
def readArrayLen : Reader (Option Nat) := do arrayLen (← readCode)

/-- The integer a binary64 number converts to: its integer part, and the least 64-bit
integer for a number that has none in that width. -/
def truncate64 (x : Float) : Int :=
  if x.isNaN || x.isInf || x ≥ 9223372036854775808.0 || x < -9223372036854775808.0 then
    -Int.pow 2 63
  else if x < 0 then -((-x).floor.toUInt64.toNat : Int) else (x.floor.toUInt64.toNat : Int)

/-- Reads a 64-bit integer: any integer code (an unsigned one wraps into the signed
range), or a float, truncated; nil reads as zero. -/
def readInt : Reader Int := do
  let c ← readCode
  if c ≤ 0x7f then pure c.toNat
  else if c ≥ 0xe0 then pure ((c.toNat : Int) - 256)
  else match c with
    | 0xc0 => pure 0
    | 0xcc => (·) <$> readUInt 1
    | 0xcd => (·) <$> readUInt 2
    | 0xce => (·) <$> readUInt 4
    | 0xcf => readSInt 8
    | 0xd0 => readSInt 1
    | 0xd1 => readSInt 2
    | 0xd2 => readSInt 4
    | 0xd3 => readSInt 8
    | 0xca => do
      let v ← readUInt 4
      pure (truncate64 (Float32.ofBits v.toUInt32).toFloat)
    | 0xcb => do
      let v ← readUInt 8
      pure (truncate64 (Float.ofBits v.toUInt64))
    | _ => throw ("msgpack: invalid code=" ++ codeText c ++ " decoding int64")

/-- Reads a boolean; nil reads as false. -/
def readBool : Reader Bool := do
  let c ← readCode
  match c with
  | 0xc0 | 0xc2 => pure false
  | 0xc3 => pure true
  | _ => throw ("msgpack: invalid code=" ++ codeText c ++ " decoding bool")

/-- Reads an extension: its type and bytes. -/
def readExt : Reader (Int × Bytes) := do
  let c ← readCode
  let n ← extDataLen c
  let body ← readN (n + 1)
  pure (signed 1 (body.headD 0).toNat, body.drop 1)

/-- Reads any value, with at most `fuel` nested levels. -/
def readValue : Nat → Reader Value
  | 0 => throw "msgpack: nesting too deep"
  | fuel + 1 => do
    let b ← get
    let c ← readCode
    if c ≤ 0x7f || c ≥ 0xe0 then set b; .int <$> readInt
    else if c &&& 0xf0 = 0x80 || c = 0xde || c = 0xdf then
      match ← mapLen c with
      | none => pure .nil
      | some n => do
        let kvs ← (List.range n).mapM fun _ => do
          let k ← readValue fuel
          let v ← readValue fuel
          pure (k, v)
        pure (.map kvs)
    else if c &&& 0xf0 = 0x90 || c = 0xdc || c = 0xdd then
      match ← arrayLen c with
      | none => pure .nil
      | some n => .arr <$> (List.range n).mapM fun _ => readValue fuel
    else if c &&& 0xe0 = 0xa0 || c = 0xd9 || c = 0xda || c = 0xdb then
      set b; .str <$> readBytes
    else match c with
      | 0xc0 => pure .nil
      | 0xc2 => pure (.bool false)
      | 0xc3 => pure (.bool true)
      | 0xc4 | 0xc5 | 0xc6 => set b; .bin <$> readBytes
      | 0xcc | 0xcd | 0xce | 0xcf | 0xd0 | 0xd1 | 0xd2 | 0xd3 => set b; .int <$> readInt
      | 0xca => do
        let v ← readUInt 4
        pure (.float (Float32.ofBits v.toUInt32).toFloat)
      | 0xcb => do
        let v ← readUInt 8
        pure (.float (Float.ofBits v.toUInt64))
      | 0xd4 | 0xd5 | 0xd6 | 0xd7 | 0xd8 | 0xc7 | 0xc8 | 0xc9 => do
        set b
        let (t, d) ← readExt
        pure (.ext t d)
      | _ => throw ("msgpack: unknown code " ++ codeText c)

/-- Skips one value of any type. -/
def skip : Reader Unit := do
  let b ← get
  let _ ← readValue (b.length + 1)
  pure ()

/-- Reads a record, written either as a map from field names to values or as an array of
all its fields in order. `fields` reads each known field into the record; unknown names
are skipped. Nil, or an empty array, is the record `empty`. A value that is neither map
nor array fails as a map would. -/
def readRecord {α : Type} (empty : α) (fields : List (String × (α → Reader α))) : Reader α := do
  let c ← readCode
  let asMap ← tryCatch (Except.ok <$> mapLen c) (fun e => pure (Except.error e))
  match asMap with
  | .ok none => pure empty
  | .ok (some n) =>
    (List.range n).foldlM (fun acc _ => do
      let name := Bytes.toUtf8 (← readBytes)
      match fields.find? (·.1 == name) with
      | some (_, f) => f acc
      | none => skip; pure acc) empty
  | .error mapError =>
    let asArray ← tryCatch (Except.ok <$> arrayLen c) (fun e => pure (Except.error e))
    match asArray with
    | .error _ => throw mapError
    | .ok none | .ok (some 0) => pure empty
    | .ok (some n) =>
      if n != fields.length then
        throw "msgpack: number of fields in array-encoded struct has changed"
      else fields.foldlM (fun acc (_, f) => f acc) empty

/-- Runs a reader over bytes; what is left after the value is ignored. -/
def Reader.run' {α : Type} (r : Reader α) (b : Bytes) : Except String α :=
  (StateT.run r b).map (·.1)

end EdgeQuery.Msgpack
