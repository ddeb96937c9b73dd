import EdgeQuery.Text.Bytes
/-! # Reading byte strings as UTF-8

A byte string is read as a sequence of characters by the rules of UTF-8. Where the bytes
do not form a valid sequence (a stray continuation byte, a truncated or overlong sequence,
a surrogate, a value past U+10FFFF), the first byte stands for the replacement character
U+FFFD and reading goes on at the next byte. So every byte string has a reading, and the
reading of a valid string gives back its characters.

Main statement: `length_chars_le`, a reading has at most as many characters as bytes. -/

namespace EdgeQuery

namespace Utf8

/-- The replacement character, which stands for a byte that starts no valid sequence. -/
def replacement : Char := '�'

/-- Whether a byte lies in an inclusive range. -/
@[inline] def within (b : UInt8) (lo hi : Nat) : Bool := lo ≤ b.toNat ∧ b.toNat ≤ hi

/-- The six low bits of a continuation byte. -/
@[inline] def low6 (b : UInt8) : Nat := b.toNat % 64

/-- Reads the sequence that starts with byte `b0` and goes on with `rest`: the character
and how many bytes of `rest` it takes. An invalid start stands for the replacement
character and takes nothing more. -/
def decodeHead (b0 : UInt8) (rest : Bytes) : Char × Nat :=
  let n := b0.toNat
  if n < 0x80 then (Char.ofNat n, 0)
  else if n < 0xC2 then (replacement, 0)
  else if n < 0xE0 then
    match rest with
    | b1 :: _ =>
      if within b1 0x80 0xBF then (Char.ofNat ((n % 32) * 64 + low6 b1), 1)
      else (replacement, 0)
    | [] => (replacement, 0)
  else if n < 0xF0 then
    let lo := if n = 0xE0 then 0xA0 else 0x80
    let hi := if n = 0xED then 0x9F else 0xBF
    match rest with
    | b1 :: b2 :: _ =>
      if within b1 lo hi ∧ within b2 0x80 0xBF then
        (Char.ofNat ((n % 16) * 4096 + low6 b1 * 64 + low6 b2), 2)
      else (replacement, 0)
    | _ => (replacement, 0)
  else if n < 0xF5 then
    let lo := if n = 0xF0 then 0x90 else 0x80
    let hi := if n = 0xF4 then 0x8F else 0xBF
    match rest with
    | b1 :: b2 :: b3 :: _ =>
      if within b1 lo hi ∧ within b2 0x80 0xBF ∧ within b3 0x80 0xBF then
        (Char.ofNat ((n % 8) * 262144 + low6 b1 * 4096 + low6 b2 * 64 + low6 b3), 3)
      else (replacement, 0)
    | _ => (replacement, 0)
  else (replacement, 0)

/-- Whether the sequence starting at `b0` is valid (the replacement character itself,
written validly, counts as valid). -/
def validHead (b0 : UInt8) (rest : Bytes) : Bool :=
  b0.toNat < 0x80 ∨ (decodeHead b0 rest).2 > 0

/-- The characters of a byte string, one replacement character per byte that starts no
valid sequence. -/
def chars : Bytes → List Char
  | [] => []
  | b :: rest =>
    let (c, k) := decodeHead b rest
    c :: chars (rest.drop k)
termination_by b => b.length
decreasing_by simp only [List.length_drop, List.length_cons]; omega

/-- The characters of a byte string, each with its byte offset and its byte width. -/
def charsAt (b : Bytes) (offset : Nat := 0) : List (Char × Nat × Nat) :=
  match b with
  | [] => []
  | x :: rest =>
    let (c, k) := decodeHead x rest
    (c, offset, k + 1) :: charsAt (rest.drop k) (offset + k + 1)
termination_by b.length
decreasing_by simp only [List.length_drop, List.length_cons]; omega

/-- The UTF-8 encoding of a character. -/
def encode (c : Char) : Bytes := String.utf8EncodeChar c

/-- The UTF-8 encoding of characters. -/
def encodeAll (cs : List Char) : Bytes := cs.flatMap encode

/-- Whether a byte string is valid UTF-8. -/
def valid : Bytes → Bool
  | [] => true
  | b :: rest =>
    let (_, k) := decodeHead b rest
    validHead b rest && valid (rest.drop k)
termination_by b => b.length
decreasing_by simp only [List.length_drop, List.length_cons]; omega

/-- Applies a map to every character and writes the result back as UTF-8. -/
def mapChars (f : Char → Char) (b : Bytes) : Bytes := encodeAll ((chars b).map f)

theorem length_chars_le (b : Bytes) : (chars b).length ≤ b.length := by
  induction b using chars.induct with
  | case1 => simp [chars]
  | case2 b rest c k h ih =>
    rw [chars, h]
    simp only [List.length_cons, List.length_drop] at ih ⊢
    omega

end Utf8

end EdgeQuery
