import EdgeQuery.Json.Value
/-! # Writing JSON text

A value is written either on one line, with no blanks, or indented: each item and member on
a line of its own, two blanks deeper than its container, members written `"key": value`;
an empty array or object stays `[]` or `{}`.

In strings the quote and the backslash are escaped, the control characters backspace,
form feed, line feed, carriage return and tab get their letter escapes, other characters
below U+0020 are written `\u00XX`, and U+2028 and U+2029 are written as escapes. Written
for HTML, the characters `<`, `>` and `&` are escaped too. Numbers are written as their
text. -/

namespace EdgeQuery.Json

/-- How values are written. -/
structure Style where
  /-- Whether to escape `<`, `>` and `&`. -/
  escapeHtml : Bool := true
  /-- Whether to put items and members on lines of their own. -/
  indent : Bool := false

/-- Four lower-case hexadecimal digits. -/
def hex4 (n : Nat) : List Char :=
  let ds := Nat.toDigits 16 n
  List.replicate (4 - ds.length) '0' ++ ds

/-- The escaped form of a character in a string. -/
def escapeChar (html : Bool) (c : Char) : List Char :=
  match c with
  | '"' => ['\\', '"']
  | '\\' => ['\\', '\\']
  | '\x08' => ['\\', 'b']
  | '\x0c' => ['\\', 'f']
  | '\n' => ['\\', 'n']
  | '\r' => ['\\', 'r']
  | '\t' => ['\\', 't']
  | c =>
    if c.toNat < 0x20 || c.toNat == 0x2028 || c.toNat == 0x2029 ||
        (html && (c == '<' || c == '>' || c == '&')) then
      ['\\', 'u'] ++ hex4 c.toNat
    else [c]

/-- A string in quotes. -/
def quoted (html : Bool) (s : String) : String :=
  String.ofList ('"' :: s.toList.flatMap (escapeChar html) ++ ['"'])

/-- The blanks before a line at `depth`. -/
def margin (depth : Nat) : String := String.ofList (List.replicate (2 * depth) ' ')

/-- What stands before an item or member: a comma after the first, and in the indented
style a new line. -/
def opener (st : Style) (depth : Nat) (first : Bool) : String :=
  (if first then "" else ",") ++ (if st.indent then "\n" ++ margin depth else "")

/-- What closes a container at `depth`. -/
def close (st : Style) (depth : Nat) (bracket : String) : String :=
  (if st.indent then "\n" ++ margin depth else "") ++ bracket

/-! The writer appends to the text written so far, which grows at its end only; so a value
is written in time proportional to its text. -/

mutual

/-- Writes a value whose line starts at `depth` after the text `acc`. -/
def writeAfter (st : Style) (depth : Nat) (acc : String) : Json → String
  | .null => acc ++ "null"
  | .bool b => acc ++ if b then "true" else "false"
  | .number t => acc ++ t
  | .string s => acc ++ quoted st.escapeHtml s
  | .array [] => acc ++ "[]"
  | .array xs => writeItems st (depth + 1) true (acc ++ "[") xs ++ close st depth "]"
  | .object [] => acc ++ "\x7b\x7d"
  | .object ms => writeMembers st (depth + 1) true (acc ++ "\x7b") ms ++ close st depth "\x7d"

/-- Writes the items of an array after the text `acc`. -/
def writeItems (st : Style) (depth : Nat) (first : Bool) (acc : String) : List Json → String
  | [] => acc
  | x :: xs => writeItems st depth false (writeAfter st depth (acc ++ opener st depth first) x) xs

/-- Writes the members of an object after the text `acc`. -/
def writeMembers (st : Style) (depth : Nat) (first : Bool) (acc : String) :
    List (String × Json) → String
  | [] => acc
  | (k, v) :: ms =>
    let acc := acc ++ opener st depth first ++ quoted st.escapeHtml k ++ (if st.indent then ": " else ":")
    writeMembers st depth false (writeAfter st depth acc v) ms

end

/-- The text of a value. -/
def render (st : Style) (j : Json) : String := writeAfter st 0 "" j

example : render { indent := true } (.object [("a", .array [.number "1"]), ("b", .object [])]) =
    "\x7b\n  \"a\": [\n    1\n  ],\n  \"b\": \x7b\x7d\n\x7d" := by decide +kernel

end EdgeQuery.Json
