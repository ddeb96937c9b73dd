import EdgeQuery.Text.Quote
/-! # Logfmt lines

A logfmt line is a sequence of fields separated by blanks (space, tab, line feed, carriage
return). A field is `key=value`, `key=` (skipped), or a bare `key`, which stands for
`key=true`. Keys and unquoted values are runs of bytes above the blank that hold neither
`=` nor `"`; a value may instead be quoted, where `\"` and `\\` stand for the quote and the
backslash and every other byte, backslashes included, stands for itself. A byte that
cannot start a key is passed over.

A line that starts (after blanks) with `{`, `[` or `<`, or has no `=` at all, is not
logfmt. Keys are at most 64 bytes and values at most 4096. Fields come out in order; a
field that repeats an earlier key and value exactly is dropped. -/

namespace EdgeQuery.Logfmt

/-- The longest key, in bytes. -/
def maxKeyLength : Nat := 64

/-- The longest value, in bytes. -/
def maxValueLength : Nat := 4096

/-- The blanks that separate fields. -/
def isBlank (c : UInt8) : Bool := c == 32 || c == 9 || c == 10 || c == 13

/-- The bytes of keys and unquoted values. -/
def isWordByte (c : UInt8) : Bool := c > 32 && c != 61 && c != 34

/-- Whether a line can be logfmt. -/
def isLogfmt (line : Bytes) : Bool :=
  match line.dropWhile isBlank with
  | [] => false
  | c :: _ => !(c == 123 || c == 91 || c == 60) && line.contains 61

/-- The first `n` characters of a byte string, a byte that starts no valid UTF-8 sequence
counting as one character. -/
def takeChars : Nat → Bytes → Bytes
  | 0, _ => []
  | _, [] => []
  | n + 1, b :: rest =>
    let k := (Utf8.decodeHead b rest).2
    let w := max 1 (if Utf8.validHead b rest then k else 1)
    (b :: rest).take w ++ takeChars n ((b :: rest).drop w)
termination_by _ b => b.length
decreasing_by simp only [List.length_drop, List.length_cons]; omega

/-- Reads a quoted value after its opening quote: the value and what follows the closing
quote, or none when the quote is not closed. -/
def quoted : Bytes → Option (Bytes × Bytes)
  | [] => none
  | 34 :: rest => some ([], rest)
  | 92 :: 34 :: rest => (quoted rest).map fun (v, r) => (34 :: v, r)
  | 92 :: 92 :: rest => (quoted rest).map fun (v, r) => (92 :: v, r)
  | c :: rest => (quoted rest).map fun (v, r) => (c :: v, r)

/-- The value of a bare key. -/
def bareValue : Bytes := [116, 114, 117, 101]

/-- The text of a key in a message. -/
def keyText (key : Bytes) : String := String.ofList (Utf8.chars key)

/-- Checks the length of a value of `key`. -/
def checkValue (key v : Bytes) : Except String Unit :=
  if v.length > maxValueLength then
    .error ("logfmt key " ++ keyText key ++ ": value longer than " ++ toString maxValueLength ++ " bytes")
  else .ok ()

/-- The fields of the rest of a line, repeats included; `fuel` bounds the number of steps,
each of which consumes at least one byte. -/
def fieldsOf : Nat → Bytes → Except String (List (Bytes × Bytes))
  | 0, _ => .ok []
  | fuel + 1, line =>
    match line.dropWhile isBlank with
    | [] => .ok []
    | line =>
      let key := line.takeWhile isWordByte
      let rest := line.drop key.length
      if key.isEmpty then fieldsOf fuel (rest.drop 1)
      else if key.length > maxKeyLength then
        .error ("logfmt key " ++ Quote.bytes (takeChars 20 key) ++ "... longer than " ++
          toString maxKeyLength ++ " bytes")
      else
        match rest with
        | 61 :: [] => .ok []
        | 61 :: c :: after =>
          if isBlank c then fieldsOf fuel (c :: after)
          else if c == 34 then
            match quoted after with
            | none => .error ("logfmt key " ++ keyText key ++ ": unterminated quoted value")
            | some (v, r) => do
              checkValue key v
              let more ← fieldsOf fuel r
              return if v.isEmpty then more else (key, v) :: more
          else do
            let v := (c :: after).takeWhile isWordByte
            checkValue key v
            let more ← fieldsOf fuel ((c :: after).drop v.length)
            return if v.isEmpty then more else (key, v) :: more
        | _ => do return (key, bareValue) :: (← fieldsOf fuel rest)

/-- Drops every field that repeats an earlier one exactly. -/
def dropRepeats (fs : List (Bytes × Bytes)) : List (Bytes × Bytes) :=
  (fs.foldl (fun acc f => if acc.contains f then acc else acc ++ [f]) [])

/-- Reads a logfmt line into its fields, in order. -/
def parse (line : Bytes) : Except String (List (Bytes × Bytes)) :=
  if !isLogfmt line then .error ("not a logfmt line: " ++ Quote.bytes (takeChars 40 line))
  else dropRepeats <$> fieldsOf (line.length + 1) line

/-- `a=1 b` has the fields `a=1` and `b=true`. -/
example : (parse [97, 61, 49, 32, 98]).toOption = some [([97], [49]), ([98], [116, 114, 117, 101])] := by
  decide

end EdgeQuery.Logfmt
