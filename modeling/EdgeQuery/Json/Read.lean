import EdgeQuery.Json.Value
import EdgeQuery.Text.Quote
/-! # Reading JSON text

JSON text is read as bytes. Between tokens stand blanks (space, tab, line feed, carriage
return). A number is `-?(0|[1-9][0-9]*)(.[0-9]+)?([eE][+-]?[0-9]+)?`; a string holds no
byte below U+0020 and its escapes are `\b \f \n \r \t \\ \/ \"` and `\u` with four
hexadecimal digits. At most 10000 arrays and objects may be open at once.

Reading takes the first value of the text and leaves what follows it unread. It fails in
one of three ways: the text holds nothing but blanks; the text ends inside the value; or a
byte stands where it cannot, named with what was being read when it came
("invalid character 'x' after array element").

Strings are turned into text as they are read: escapes are applied, a `\u` escape of a
UTF-16 surrogate that does not pair with the next escape, and every byte that starts no
valid UTF-8 sequence, become U+FFFD. -/

namespace EdgeQuery.Json

/-- Why JSON text did not read. -/
inductive ReadError where
  /-- There is nothing but blanks. -/
  | empty
  /-- The text ends inside a value. -/
  | truncated
  /-- A byte that cannot stand where it stands, and what was being read. -/
  | unexpected (c : UInt8) (context : String)
  deriving Inhabited

/-- A byte in single quotes, as messages show it: the character of that code point,
escaped when it is not printable. -/
def byteText (c : UInt8) : String :=
  if c == 39 then "'\\''"
  else if c == 34 then "'\"'"
  else
    let q := (Quote.text (String.singleton (Char.ofNat c.toNat))).toList
    String.ofList ('\'' :: (q.drop 1).dropLast ++ ['\''])

/-- The text of a failure. -/
def ReadError.message : ReadError → String
  | .empty => "EOF"
  | .truncated => "unexpected EOF"
  | .unexpected c context => "invalid character " ++ byteText c ++ " " ++ context

/-- The most arrays and objects open at once. -/
def maxDepth : Nat := 10000

/-- The blanks between tokens. -/
def isBlank (c : UInt8) : Bool := c == 32 || c == 9 || c == 10 || c == 13

/-- Drops leading blanks. -/
def skipBlanks (b : Bytes) : Bytes := b.dropWhile isBlank

/-- Whether a byte is a decimal digit. -/
def isDigit (c : UInt8) : Bool := 48 ≤ c && c ≤ 57

/-- Whether a byte is a hexadecimal digit. -/
def isHexDigit (c : UInt8) : Bool := isDigit c || (97 ≤ c && c ≤ 102) || (65 ≤ c && c ≤ 70)

/-- The value of a hexadecimal digit. -/
def hexValue (c : UInt8) : Nat :=
  if isDigit c then c.toNat - 48 else if 97 ≤ c then c.toNat - 87 else c.toNat - 55

/-! ### Strings -/

/-- Checks the four digits of a `\u` escape. -/
def hexDigits : Nat → Bytes → Except ReadError Unit
  | 0, _ => .ok ()
  | _ + 1, [] => .error .truncated
  | k + 1, c :: rest =>
    if isHexDigit c then hexDigits k rest
    else .error (.unexpected c "in \\u hexadecimal character escape")

/-- The escapes that stand for one character. -/
def simpleEscape (c : UInt8) : Option Char :=
  match c with
  | 98 => some '\x08'
  | 102 => some '\x0c'
  | 110 => some '\n'
  | 114 => some '\r'
  | 116 => some '\t'
  | 92 => some '\\'
  | 47 => some '/'
  | 34 => some '"'
  | _ => none

/-- Reads the body of a string after its opening quote: the bytes before the closing
quote, checked but not unescaped, and what follows the quote. -/
def stringBody : Nat → Bytes → Except ReadError (Bytes × Bytes)
  | 0, _ => .error .truncated
  | _ + 1, [] => .error .truncated
  | _ + 1, 34 :: rest => .ok ([], rest)
  | fuel + 1, 92 :: rest =>
    match rest with
    | [] => .error .truncated
    | c :: rest =>
      if (simpleEscape c).isSome then
        (stringBody fuel rest).map fun (s, r) => (92 :: c :: s, r)
      else if c == 117 then do
        hexDigits 4 rest
        let (s, r) ← stringBody fuel (rest.drop 4)
        return (92 :: c :: rest.take 4 ++ s, r)
      else .error (.unexpected c "in string escape code")
  | fuel + 1, c :: rest =>
    if c < 32 then .error (.unexpected c "in string literal")
    else (stringBody fuel rest).map fun (s, r) => (c :: s, r)

/-- The code unit of a `\u` escape at the start of the bytes, if one is there. -/
def unitAt : Bytes → Option Nat
  | 92 :: 117 :: a :: b :: c :: d :: _ =>
    if [a, b, c, d].all isHexDigit then some ([a, b, c, d].foldl (fun n x => n * 16 + hexValue x) 0)
    else none
  | _ => none

/-- The character of a `\u` escape followed by `rest`, and how many bytes of `rest` it
takes as the second half of a surrogate pair. -/
def escapedChar (u : Nat) (rest : Bytes) : Char × Nat :=
  if 0xD800 ≤ u ∧ u < 0xE000 then
    match unitAt rest with
    | some v =>
      if u < 0xDC00 ∧ 0xDC00 ≤ v ∧ v < 0xE000 then
        (Char.ofNat ((u - 0xD800) * 0x400 + (v - 0xDC00) + 0x10000), 6)
      else (Utf8.replacement, 0)
    | none => (Utf8.replacement, 0)
  else (Char.ofNat u, 0)

/-- The text of a checked string body: escapes applied, invalid bytes replaced. -/
def unescape : Nat → Bytes → List Char
  | 0, _ => []
  | _ + 1, [] => []
  | fuel + 1, 92 :: c :: rest =>
    match simpleEscape c with
    | some ch => ch :: unescape fuel rest
    | none =>
      match unitAt (92 :: c :: rest) with
      | some u =>
        let (ch, k) := escapedChar u (rest.drop 4)
        ch :: unescape fuel ((rest.drop 4).drop k)
      | none => unescape fuel rest
  | fuel + 1, b :: rest =>
    let run := (b :: rest).takeWhile (· != 92)
    Utf8.chars run ++ unescape fuel ((b :: rest).drop (max 1 run.length))

/-- Reads a string after its opening quote. -/
def readString (b : Bytes) : Except ReadError (String × Bytes) := do
  let (body, rest) ← stringBody (b.length + 1) b
  return (String.ofList (unescape (body.length + 1) body), rest)

/-! ### Numbers and words -/

/-- Reads digits after one digit. -/
def moreDigits (b : Bytes) : Bytes × Bytes := (b.takeWhile isDigit, b.dropWhile isDigit)

/-- Reads the fraction and exponent of a number after its whole part. -/
def numberTail (b : Bytes) : Except ReadError (Bytes × Bytes) := do
  let (frac, b) ← match b with
    | 46 :: rest =>
      match rest with
      | [] => throw .truncated
      | c :: rest' =>
        if isDigit c then
          let (ds, r) := moreDigits rest'
          pure (46 :: c :: ds, r)
        else throw (.unexpected c "after decimal point in numeric literal")
    | b => pure ([], b)
  match b with
  | e :: rest =>
    if e == 101 || e == 69 then
      let (sign, rest) := match rest with
        | s :: r => if s == 43 || s == 45 then ([s], r) else ([], s :: r)
        | [] => ([], [])
      match rest with
      | [] => throw .truncated
      | c :: rest' =>
        if isDigit c then
          let (ds, r) := moreDigits rest'
          return (frac ++ e :: sign ++ c :: ds, r)
        else throw (.unexpected c "in exponent of numeric literal")
    else return (frac, b)
  | [] => return (frac, [])

/-- Reads a number from its first byte on. -/
def readNumber (b : Bytes) : Except ReadError (String × Bytes) := do
  let (sign, b) := match b with
    | 45 :: rest => ([(45 : UInt8)], rest)
    | b => ([], b)
  let (whole, b) ← match b with
    | [] => throw .truncated
    | 48 :: rest => pure ([(48 : UInt8)], rest)
    | c :: rest =>
      if isDigit c then
        let (ds, r) := moreDigits rest
        pure (c :: ds, r)
      else throw (.unexpected c "in numeric literal")
  let (tail, b) ← numberTail b
  return (String.ofList ((sign ++ whole ++ tail).map Bytes.latin1), b)

/-- Reads the rest of `true`, `false` or `null` after its first letter. -/
def readWord (word : String) : List Char → Bytes → Except ReadError Bytes
  | [], b => .ok b
  | _ :: _, [] => .error .truncated
  | w :: ws, c :: rest =>
    if c.toNat == w.toNat then readWord word ws rest
    else .error (.unexpected c ("in literal " ++ word ++ " (expecting " ++ Quote.char w ++ ")"))

/-! ### Values -/

mutual

/-- Reads a value after blanks, with `depth` arrays and objects open around it. -/
def readValue : Nat → Nat → Bytes → Except ReadError (Json × Bytes)
  | 0, _, _ => .error .truncated
  | fuel + 1, depth, b =>
    match skipBlanks b with
    | [] => .error .truncated
    | c :: rest =>
      if c == 123 then
        if depth + 1 > maxDepth then .error (.unexpected c "exceeded max depth")
        else
          match skipBlanks rest with
          | [] => .error .truncated
          | 125 :: r => .ok (.object [], r)
          | 34 :: r => (readMembers fuel (depth + 1) r).map fun (ms, r) => (.object ms, r)
          | d :: _ => .error (.unexpected d "looking for beginning of object key string")
      else if c == 91 then
        if depth + 1 > maxDepth then .error (.unexpected c "exceeded max depth")
        else
          match skipBlanks rest with
          | [] => .error .truncated
          | 93 :: r => .ok (.array [], r)
          | r => (readItems fuel (depth + 1) r).map fun (xs, r) => (.array xs, r)
      else if c == 34 then (readString rest).map fun (s, r) => (.string s, r)
      else if c == 45 || isDigit c then (readNumber (c :: rest)).map fun (t, r) => (.number t, r)
      else if c == 116 then (readWord "true" ['r', 'u', 'e'] rest).map fun r => (.bool true, r)
      else if c == 102 then (readWord "false" ['a', 'l', 's', 'e'] rest).map fun r => (.bool false, r)
      else if c == 110 then (readWord "null" ['u', 'l', 'l'] rest).map fun r => (.null, r)
      else .error (.unexpected c "looking for beginning of value")

/-- Reads the items of an array from its first item on, and the closing bracket. -/
def readItems : Nat → Nat → Bytes → Except ReadError (List Json × Bytes)
  | 0, _, _ => .error .truncated
  | fuel + 1, depth, b => do
    let (x, r) ← readValue fuel depth b
    match skipBlanks r with
    | [] => throw .truncated
    | 44 :: r => do
      let (xs, r) ← readItems fuel depth r
      return (x :: xs, r)
    | 93 :: r => return ([x], r)
    | c :: _ => throw (.unexpected c "after array element")

/-- Reads the members of an object after the opening quote of its first key, and the
closing brace. -/
def readMembers : Nat → Nat → Bytes → Except ReadError (List (String × Json) × Bytes)
  | 0, _, _ => .error .truncated
  | fuel + 1, depth, b => do
    let (k, r) ← readString b
    let r ← match skipBlanks r with
      | [] => throw .truncated
      | 58 :: r => pure r
      | c :: _ => throw (.unexpected c "after object key")
    let (v, r) ← readValue fuel depth r
    match skipBlanks r with
    | [] => throw .truncated
    | 44 :: r =>
      match skipBlanks r with
      | [] => throw .truncated
      | 34 :: r => do
        let (ms, r) ← readMembers fuel depth r
        return ((k, v) :: ms, r)
      | c :: _ => throw (.unexpected c "looking for beginning of object key string")
    | 125 :: r => return ([(k, v)], r)
    | c :: _ => throw (.unexpected c "after object key:value pair")

end

/-- Reads the first value of a text; what follows it is left unread. Every byte read
takes at most two steps. -/
def readFirst (b : Bytes) : Except ReadError (Json × Bytes) :=
  if (skipBlanks b).isEmpty then .error .empty else readValue (2 * b.length + 2) 0 b

end EdgeQuery.Json
