import EdgeQuery.Text.Utf8
import EdgeQuery.Text.Unicode.Category
/-! # Quoted text

Messages and key listings show byte strings and single characters quoted, so that blanks,
control characters and invalid bytes stay visible. A string is quoted with double quotes
and a character with single quotes. Inside, the quote itself and the backslash are
escaped; printable characters stand as they are; the common control characters have their
letter escapes (`\n`, `\t`, ...); other characters below U+0020 and DEL are written `\xHH`,
other characters `\uHHHH` or `\UHHHHHHHH`; and a byte that starts no valid UTF-8 sequence
is written `\xHH`. -/

namespace EdgeQuery.Quote

/-- `width` lower-case hexadecimal digits of `n`. -/
def hexPad (width n : Nat) : List Char :=
  let ds := (Nat.toDigits 16 n)
  List.replicate (width - ds.length) '0' ++ ds

/-- The escaped form of one character inside quotes `q`. -/
def escapeChar (q : Char) (c : Char) : List Char :=
  if c = q ∨ c = '\\' then ['\\', c]
  else if Unicode.isPrint c then [c]
  else match c.toNat with
    | 7 => ['\\', 'a']
    | 8 => ['\\', 'b']
    | 12 => ['\\', 'f']
    | 10 => ['\\', 'n']
    | 13 => ['\\', 'r']
    | 9 => ['\\', 't']
    | 11 => ['\\', 'v']
    | n =>
      if n < 0x20 ∨ n = 0x7f then ['\\', 'x'] ++ hexPad 2 n
      else if n < 0x10000 then ['\\', 'u'] ++ hexPad 4 n
      else ['\\', 'U'] ++ hexPad 8 n

/-- The escaped body of a byte string inside double quotes. -/
def body : Bytes → List Char
  | [] => []
  | b :: rest =>
    let (c, k) := Utf8.decodeHead b rest
    let piece :=
      if Utf8.validHead b rest then escapeChar '"' c
      else ['\\', 'x'] ++ hexPad 2 b.toNat
    piece ++ body (rest.drop k)
termination_by b => b.length
decreasing_by simp only [List.length_drop, List.length_cons]; omega

/-- A byte string in double quotes. -/
def bytes (b : Bytes) : String := String.ofList ('"' :: body b ++ ['"'])

/-- A text in double quotes. -/
def text (s : String) : String := bytes (Bytes.ofString s)

/-- A character in single quotes. -/
def char (c : Char) : String := String.ofList ('\'' :: escapeChar '\'' c ++ ['\''])

end EdgeQuery.Quote
