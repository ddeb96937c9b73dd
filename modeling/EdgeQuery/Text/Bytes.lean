/-! # Byte strings

Keys, record lines, field values and tokens are byte strings: they may hold any byte,
including NUL and bytes that are not valid UTF-8. They are ordered bytewise, which for
valid UTF-8 is the order of code points.

This module fixes the representation (a list of bytes, so that proofs can go by
induction), the conversions to and from text, the hexadecimal form, and a few cuts
that the key and record layouts use. -/

namespace EdgeQuery

/-- A byte string. -/
abbrev Bytes := List UInt8

namespace Bytes

/-! ## Text -/

/-- The UTF-8 encoding of a text. -/
def ofString (s : String) : Bytes := s.toUTF8.toList

/-- The text these bytes encode, when they are valid UTF-8. -/
def toUtf8? (b : Bytes) : Option String := String.fromUTF8? ⟨b.toArray⟩

/-- Reads the bytes as UTF-8, replacing nothing: invalid input yields the empty text.
Only used where the bytes are known to be valid. -/
def toUtf8 (b : Bytes) : String := (toUtf8? b).getD ""

/-- The byte of an ASCII character. -/
def ofChar (c : Char) : UInt8 := c.toNat.toUInt8

/-- The character of a byte read as Latin-1, the way a byte is shown as a character. -/
def latin1 (b : UInt8) : Char := Char.ofNat b.toNat

/-! ## Hexadecimal form -/

/-- The lower-case hexadecimal digit of a number below sixteen. -/
def hexDigit (n : Nat) : Char :=
  if n < 10 then Char.ofNat (48 + n) else Char.ofNat (87 + n)

/-- Two lower-case hexadecimal digits per byte. -/
def hex (b : Bytes) : String :=
  String.ofList (b.flatMap fun x => [hexDigit (x.toNat / 16), hexDigit (x.toNat % 16)])

/-- The value of a hexadecimal digit of either case. -/
def hexValue? (c : Char) : Option Nat :=
  if '0' ≤ c ∧ c ≤ '9' then some (c.toNat - 48)
  else if 'a' ≤ c ∧ c ≤ 'f' then some (c.toNat - 87)
  else if 'A' ≤ c ∧ c ≤ 'F' then some (c.toNat - 55)
  else none

/-- Reads pairs of hexadecimal digits. -/
def ofHexChars? : List Char → Option Bytes
  | [] => some []
  | a :: b :: rest => do
    let hi ← hexValue? a
    let lo ← hexValue? b
    let tail ← ofHexChars? rest
    pure ((hi * 16 + lo).toUInt8 :: tail)
  | [_] => none

/-- Reads a hexadecimal text of even length. -/
def ofHex? (s : String) : Option Bytes := ofHexChars? s.toList

/-! ## Cuts -/

/-- Splits at the first occurrence of a byte: the part before it and, if the byte
occurs, the part after it. -/
def cut (b : Bytes) (sep : UInt8) : Bytes × Option Bytes :=
  match b.findIdx? (· == sep) with
  | some i => (b.take i, some (b.drop (i + 1)))
  | none => (b, none)

/-- Splits at every occurrence of a byte. -/
def splitOn (b : Bytes) (sep : UInt8) : List Bytes := List.splitOn sep b

/-- Joins byte strings with a separator between each two. -/
def joinWith (sep : Bytes) : List Bytes → Bytes
  | [] => []
  | [x] => x
  | x :: rest => x ++ sep ++ joinWith sep rest

/-- Whether one byte string starts with another. -/
def startsWith (b p : Bytes) : Bool := p.isPrefixOf b

/-- Whether a byte string contains a byte. -/
def hasByte (b : Bytes) (x : UInt8) : Bool := b.contains x

/-- The bytewise comparison. -/
def cmp (a b : Bytes) : Ordering := compare a b

end Bytes

end EdgeQuery
