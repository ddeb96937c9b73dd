import EdgeQuery.Text.Bytes
/-! # Base64

Three bytes become four characters of a 64-character alphabet. The standard alphabet ends
in `+` and `/` and pads the last group with `=`; the URL alphabet ends in `-` and `_` and
is written without padding.

Reading skips line breaks (CR and LF) anywhere, and fails at the first character that is
not part of the text: outside the alphabet, misplaced padding, too little padding, a
lone final character, or anything after the padding. The failure gives the byte offset
of that character (for missing padding, the length of the text). -/

namespace EdgeQuery.Base64

/-- An alphabet, and whether the text is padded. -/
structure Encoding where
  last2 : Char × Char
  padded : Bool

/-- The standard encoding, padded. -/
def standard : Encoding := ⟨('+', '/'), true⟩

/-- The URL-safe encoding, unpadded. -/
def url : Encoding := ⟨('-', '_'), false⟩

/-- The character of a six-bit value. -/
def Encoding.char (e : Encoding) (v : Nat) : Char :=
  if v < 26 then Char.ofNat (65 + v)
  else if v < 52 then Char.ofNat (97 + v - 26)
  else if v < 62 then Char.ofNat (48 + v - 52)
  else if v = 62 then e.last2.1 else e.last2.2

/-- The six-bit value of a byte, if it is in the alphabet. -/
def Encoding.value? (e : Encoding) (b : UInt8) : Option Nat :=
  let n := b.toNat
  if 65 ≤ n ∧ n ≤ 90 then some (n - 65)
  else if 97 ≤ n ∧ n ≤ 122 then some (n - 97 + 26)
  else if 48 ≤ n ∧ n ≤ 57 then some (n - 48 + 52)
  else if n = e.last2.1.toNat then some 62
  else if n = e.last2.2.toNat then some 63
  else none

/-- The text of bytes. -/
def encode (e : Encoding) (data : Bytes) : String :=
  let rec go : Bytes → List Char
    | a :: b :: c :: rest =>
      let v := a.toNat * 65536 + b.toNat * 256 + c.toNat
      e.char (v / 262144) :: e.char (v / 4096 % 64) :: e.char (v / 64 % 64) :: e.char (v % 64) :: go rest
    | [a, b] =>
      let v := a.toNat * 65536 + b.toNat * 256
      [e.char (v / 262144), e.char (v / 4096 % 64), e.char (v / 64 % 64)] ++ (if e.padded then ['='] else [])
    | [a] =>
      let v := a.toNat * 65536
      [e.char (v / 262144), e.char (v / 4096 % 64)] ++ (if e.padded then ['=', '='] else [])
    | [] => []
  String.ofList (go data)

/-- Whether a byte is a line break. -/
def isBreak (b : UInt8) : Bool := b = 10 || b = 13

/-- The bytes of up to four six-bit values. -/
def bytesOf (vals : List Nat) : Bytes :=
  let v := (vals ++ List.replicate (4 - vals.length) 0).foldl (fun acc x => acc * 64 + x) 0
  let all := [(v / 65536 % 256).toUInt8, (v / 256 % 256).toUInt8, (v % 256).toUInt8]
  all.take (vals.length - 1)

/-- Skips line breaks from `i` on. -/
def skipBreaks (src : Array UInt8) (i : Nat) : Nat :=
  if h : i < src.size then
    if isBreak src[i] then skipBreaks src (i + 1) else i
  else i
termination_by src.size - i

/-- The outcome of reading one group: the offset after it and its bytes, and whether the
text ended with it; or the offset of the failure. -/
def quantum (e : Encoding) (src : Array UInt8) (si : Nat) (vals : List Nat) :
    Except Nat (Nat × Bytes × Bool) :=
  if vals.length = 4 then .ok (si, bytesOf vals, false)
  else if h : si < src.size then
    let c := src[si]
    match e.value? c with
    | some v => quantum e src (si + 1) (vals ++ [v])
    | none =>
      if isBreak c then quantum e src (si + 1) vals
      else if !e.padded || c ≠ 61 then .error si
      else
        let j := vals.length
        if j < 2 then .error si
        else
          -- A group of two characters needs a second `=`.
          let si' : Except Nat Nat :=
            if j = 2 then
              let k := skipBreaks src (si + 1)
              if k ≥ src.size then .error src.size
              else if src[k]! ≠ 61 then .error k
              else .ok (k + 1)
            else .ok (si + 1)
          match si' with
          | .error n => .error n
          | .ok k =>
            let k := skipBreaks src k
            if k < src.size then .error k else .ok (k, bytesOf vals, true)
  else
    let j := vals.length
    if j = 0 then .ok (si, [], true)
    else if j = 1 || e.padded then .error (si - j)
    else .ok (si, bytesOf vals, true)
termination_by (src.size - si, 4 - vals.length)

/-- Reads a text, or gives the offset of the first character that is not part of it. -/
def decode (e : Encoding) (text : Bytes) : Except Nat Bytes :=
  let src := text.toArray
  let rec go (si : Nat) (fuel : Nat) (acc : Bytes) : Except Nat Bytes :=
    match fuel with
    | 0 => .ok acc
    | fuel + 1 =>
      if si ≥ src.size then .ok acc
      else
        match quantum e src si [] with
        | .error n => .error n
        | .ok (si', out, done) => if done then .ok (acc ++ out) else go si' fuel (acc ++ out)
  go 0 (src.size + 1) []

/-- The text of a failed reading. -/
def errorText (offset : Nat) : String := "illegal base64 data at input byte " ++ toString offset

end EdgeQuery.Base64
