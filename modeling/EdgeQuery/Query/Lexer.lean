import EdgeQuery.Query.SyntaxError
/-! # Reading filter texts into tokens

The text is read byte by byte. Blanks (space, tab, newline, carriage return) separate
tokens. The two-byte operators `&& || == != <= >= =~ !~` are tried before the one-byte
ones `( ) , : ! < > + - * / %`. Strings are quoted with `'` or `"`; inside, `\\ \" \' \n
\t \r \0` are escapes, and `\.`, `\*`, `\d` and the other pattern escapes are kept with
their backslash so that patterns can be written naturally. Numbers are digits with an
optional fraction and exponent; a number may not run into a name. Names start with a
letter, `_` or `$` and go on with those, digits and dots; `true`, `false` and `null` are
keywords as written, `and`, `or` and `not` in any letter case.

The result is a `Stream`: the tokens up to the end of the text, or up to the first token
that cannot be read, whose failure is kept at the end of the stream. A reader that stops
earlier never sees that failure, exactly as if tokens were read on demand.

A stream's size is the number of its tokens; the reader's rules carry
proofs that what they leave is no larger, which its recursion goes down on. -/

namespace EdgeQuery.Query

/-- Tokens read so far, ending either at the end of the text or at a failure. -/
inductive Stream where
  /-- The end of the text, at a byte offset. -/
  | eof (pos : Nat)
  /-- A token that cannot be read. -/
  | fail (e : SyntaxError)
  /-- A token followed by the rest. -/
  | cons (t : Token) (rest : Stream)
  deriving Repr, Inhabited

namespace Stream

/-- The number of tokens before the end or the failure. -/
def size : Stream → Nat
  | eof _ | fail _ => 0
  | cons _ rest => rest.size + 1

/-- The tokens of a stream, ending with the end-of-text token, and the failure that ends
it instead, if any. -/
def toList : Stream → List Token × Option SyntaxError
  | eof p => ([⟨.eof, "", p⟩], none)
  | fail e => ([], some e)
  | cons t rest => let (ts, e) := rest.toList; (t :: ts, e)

end Stream

namespace Lexer

/-- The byte of an ASCII character. -/
abbrev byte (c : Char) : UInt8 := Bytes.ofChar c

/-- Blanks between tokens. -/
def isBlank (b : UInt8) : Bool :=
  b = byte ' ' ∨ b = byte '\t' ∨ b = byte '\n' ∨ b = byte '\r'

/-- Decimal digits. -/
def isDigit (b : UInt8) : Bool := byte '0' ≤ b ∧ b ≤ byte '9'

/-- Bytes that can start a name. -/
def isNameStart (b : UInt8) : Bool :=
  b = byte '_' ∨ b = byte '$' ∨ (byte 'a' ≤ b ∧ b ≤ byte 'z') ∨ (byte 'A' ≤ b ∧ b ≤ byte 'Z')

/-- Bytes that can continue a name. -/
def isNameChar (b : UInt8) : Bool := isNameStart b ∨ isDigit b ∨ b = byte '.'

/-- The kind of a two-byte operator. -/
def twoByteKind (a b : UInt8) : Option TokenKind :=
  if a = byte '&' ∧ b = byte '&' then some .and
  else if a = byte '|' ∧ b = byte '|' then some .or
  else if a = byte '=' ∧ b = byte '=' then some .eq
  else if a = byte '!' ∧ b = byte '=' then some .ne
  else if a = byte '<' ∧ b = byte '=' then some .le
  else if a = byte '>' ∧ b = byte '=' then some .ge
  else if a = byte '=' ∧ b = byte '~' then some .like
  else if a = byte '!' ∧ b = byte '~' then some .unlike
  else none

/-- The kind of a one-byte token. -/
def oneByteKind (a : UInt8) : Option TokenKind :=
  if a = byte '(' then some .lparen
  else if a = byte ')' then some .rparen
  else if a = byte ',' then some .comma
  else if a = byte ':' then some .colon
  else if a = byte '!' then some .not
  else if a = byte '<' then some .lt
  else if a = byte '>' then some .gt
  else if a = byte '+' then some .plus
  else if a = byte '-' then some .minus
  else if a = byte '*' then some .star
  else if a = byte '/' then some .slash
  else if a = byte '%' then some .percent
  else none

/-- The value of an escape: a byte, or a pattern escape kept with its backslash. -/
def escapeValue (b : UInt8) : Option Bytes :=
  if b = byte '\\' then some [byte '\\']
  else if b = byte '"' then some [byte '"']
  else if b = byte '\'' then some [byte '\'']
  else if b = byte 'n' then some [byte '\n']
  else if b = byte 't' then some [byte '\t']
  else if b = byte 'r' then some [byte '\r']
  else if b = byte '0' then some [0]
  else if ".*+?()[]{}|^$dwsb".toList.any (fun c => byte c = b) then some [byte '\\', b]
  else none

/-- Reads the body of a string after its opening quote at `start`: the value and the
bytes after the closing quote. `pos` is the offset of the next byte. -/
def stringBody (quote : UInt8) (start : Nat) :
    (rest : Bytes) → Nat → Bytes → Except SyntaxError (Bytes × {r : Bytes // r.length ≤ rest.length})
  | [], _, _ => .error (.unterminatedString start)
  | b :: rest, pos, acc =>
    if b = quote then .ok (acc.reverse, ⟨rest, by simp⟩)
    else if b = byte '\\' then
      match rest with
      | [] => .error (.escapeAtEnd pos)
      | e :: rest' =>
        match escapeValue e with
        | none => .error (.invalidEscape pos e)
        | some v =>
          match stringBody quote start rest' (pos + 2) (v.reverse ++ acc) with
          | .ok (s, ⟨r, h⟩) => .ok (s, ⟨r, by simp at h ⊢; omega⟩)
          | .error e => .error e
    else
      match stringBody quote start rest (pos + 1) (b :: acc) with
      | .ok (s, ⟨r, h⟩) => .ok (s, ⟨r, by simp at h ⊢; omega⟩)
      | .error e => .error e

/-- The text of ASCII bytes. -/
def asciiText (b : Bytes) : String := String.ofList (b.map Bytes.latin1)

/-- Reads a number whose text starts at the front of `s` (a digit), at offset `start`:
its kind, its text and how many bytes it takes. -/
def number (s : Bytes) (start : Nat) : Except SyntaxError (TokenKind × String × Nat) :=
  let bad := fun {α : Type} (n : Nat) =>
    (Except.error (SyntaxError.malformedNumber start (asciiText (s.take n))) : Except SyntaxError α)
  let digitsAt := fun (n : Nat) => ((s.drop n).takeWhile isDigit).length
  let at? := fun (n : Nat) => (s.drop n).head?
  let i1 := digitsAt 0
  -- An optional fraction.
  let frac : Except SyntaxError (Nat × Bool) :=
    if at? i1 = some (byte '.') then
      match at? (i1 + 1) with
      | some d => if isDigit d then .ok (i1 + 1 + digitsAt (i1 + 1), true) else bad (i1 + 1)
      | none => bad (i1 + 1)
    else .ok (i1, false)
  match frac with
  | .error e => .error e
  | .ok (i2, isFloat) =>
    -- An optional exponent.
    let expo : Except SyntaxError (Nat × Bool) :=
      if at? i2 = some (byte 'e') ∨ at? i2 = some (byte 'E') then
        let j := if at? (i2 + 1) = some (byte '+') ∨ at? (i2 + 1) = some (byte '-') then i2 + 2
          else i2 + 1
        match at? j with
        | some d => if isDigit d then .ok (j + digitsAt j, true) else bad j
        | none => bad j
      else .ok (i2, isFloat)
    match expo with
    | .error e => .error e
    | .ok (n, isFloat) =>
      match at? n with
      | some c => if isNameStart c then bad (n + 1)
        else .ok (if isFloat then .float else .int, asciiText (s.take n), n)
      | none => .ok (if isFloat then .float else .int, asciiText (s.take n), n)

/-- The kind of a name: a keyword or an identifier. -/
def nameKind (word : String) : TokenKind :=
  if word = "true" then .kwTrue
  else if word = "false" then .kwFalse
  else if word = "null" then .kwNull
  else
    let up := word.toUpper
    if up = "AND" then .and else if up = "OR" then .or else if up = "NOT" then .not
    else .ident

/-- Reads a token other than a two-byte operator that starts with byte `b`, followed by
`rest`, at offset `pos`: the token and the bytes after it. -/
def tokenOne (b : UInt8) (rest : Bytes) (pos : Nat) :
    Except SyntaxError (Token × {r : Bytes // r.length ≤ rest.length}) :=
  match oneByteKind b with
  | some k => .ok (⟨k, asciiText [b], pos⟩, ⟨rest, Nat.le_refl _⟩)
  | none =>
    if b = byte '"' ∨ b = byte '\'' then
      match stringBody b pos rest (pos + 1) [] with
      | .ok (v, r) => .ok (⟨.str, Bytes.toUtf8 v, pos⟩, r)
      | .error e => .error e
    else if isDigit b then
      match number (b :: rest) pos with
      | .ok (k, text, n) => .ok (⟨k, text, pos⟩, ⟨rest.drop (n - 1), by simp⟩)
      | .error e => .error e
    else if isNameStart b then
      let body := rest.takeWhile isNameChar
      let word := asciiText (b :: body)
      .ok (⟨nameKind word, word, pos⟩, ⟨rest.drop body.length, by simp⟩)
    else .error (.unexpectedChar pos b)

/-- Reads the token that starts with byte `b`, followed by `rest`, at offset `pos`: the
token and the bytes after it. Two-byte operators come first. -/
def token (b : UInt8) (rest : Bytes) (pos : Nat) :
    Except SyntaxError (Token × {r : Bytes // r.length ≤ rest.length}) :=
  match rest with
  | c :: rest' =>
    match twoByteKind b c with
    | some k => .ok (⟨k, asciiText [b, c], pos⟩, ⟨rest', by simp⟩)
    | none => tokenOne b (c :: rest') pos
  | [] => tokenOne b [] pos

/-- Reads the tokens of the bytes `s`, the first at offset `pos`. -/
def tokens (s : Bytes) (pos : Nat) : Stream :=
  match s with
  | [] => .eof pos
  | b :: rest =>
    if isBlank b then tokens rest (pos + 1)
    else
      match token b rest pos with
      | .error e => .fail e
      | .ok (t, ⟨r, h⟩) => .cons t (tokens r (pos + 1 + (rest.length - r.length)))
termination_by s.length
decreasing_by
  · simp only [List.length_cons]; omega
  · simp only [List.length_cons]; omega

end Lexer

/-- The tokens of a filter text. -/
def Stream.ofText (text : String) : Stream := Lexer.tokens (Bytes.ofString text) 0

end EdgeQuery.Query
