import EdgeQuery.Number.Binary64
import EdgeQuery.Text.Quote
/-! # Reading numbers and truth values from text

Numbers are read by the common rules of programming languages:

* an integer is an optional sign and decimal digits, and must fit in 64 bits;
* a floating-point number is an optional sign and either `inf`, `infinity` or `nan` in any
  letter case (no sign before `nan`), a decimal with an optional point and an exponent
  `e±d`, or a hexadecimal `0x` mantissa with a mandatory binary exponent `p±d`;
  underscores may separate digits, or a base prefix from a digit; the value is the exact
  number rounded to the nearest binary64, and a number too large for binary64 is out of
  range;
* a truth value is one of `1 t T TRUE true True 0 f F FALSE false False`.

A failed reading says which reader failed, on what text, and whether the text was no
number at all or a number out of range; `NumberError.message` writes that down. -/

namespace EdgeQuery

/-- The readers whose failures are reported. -/
inductive NumberReader where
  | atoi
  | parseInt
  | parseUint
  | parseFloat
  | parseBool
  deriving DecidableEq, Repr

/-- Why a reading failed. -/
inductive ReadFailure where
  /-- The text is not a number of the reader's form. -/
  | notNumber
  /-- The number does not fit. -/
  | range
  deriving DecidableEq, Repr

/-- A failed reading. -/
structure NumberError where
  reader : NumberReader
  input : String
  failure : ReadFailure
  deriving DecidableEq, Repr

namespace NumberError

/-- The name under which a reader reports. -/
def readerName : NumberReader → String
  | .atoi => "strconv.Atoi"
  | .parseInt => "strconv.ParseInt"
  | .parseUint => "strconv.ParseUint"
  | .parseFloat => "strconv.ParseFloat"
  | .parseBool => "strconv.ParseBool"

/-- The text of a failed reading. -/
def message (e : NumberError) : String :=
  readerName e.reader ++ ": parsing " ++ Quote.text e.input ++ ": " ++
    (match e.failure with
     | .notNumber => "invalid syntax"
     | .range => "value out of range")

end NumberError

namespace Read

/-- Whether a character is a decimal digit. -/
def isDigit (c : Char) : Bool := '0' ≤ c ∧ c ≤ '9'

/-- The value of decimal digits. -/
def digitsValue (ds : List Char) : Nat := ds.foldl (fun n c => n * 10 + (c.toNat - 48)) 0

/-- A signed decimal integer of 64 bits. -/
def int64 (reader : NumberReader) (s : String) : Except NumberError Int :=
  let fail := fun f => Except.error (NumberError.mk reader s f)
  let (neg, ds) := match s.toList with
    | '+' :: r => (false, r)
    | '-' :: r => (true, r)
    | r => (false, r)
  if ds.isEmpty ∨ ¬ds.all isDigit then fail .notNumber
  else
    let n := digitsValue ds
    let v : Int := if neg then -(n : Int) else n
    if v < -Int.pow 2 63 ∨ v ≥ Int.pow 2 63 then fail .range else .ok v

/-- A signed decimal integer, reported as a parse of a 64-bit integer. -/
def parseInt (s : String) : Except NumberError Int := int64 .parseInt s

/-- A signed decimal integer, reported as a conversion to a machine integer. -/
def atoi (s : String) : Except NumberError Int := int64 .atoi s

/-- A truth value. -/
def parseBool (s : String) : Except NumberError Bool :=
  match s with
  | "1" | "t" | "T" | "TRUE" | "true" | "True" => .ok true
  | "0" | "f" | "F" | "FALSE" | "false" | "False" => .ok false
  | _ => .error ⟨.parseBool, s, .notNumber⟩

/-! ## Floating-point numbers -/

/-- Lower-cases an ASCII letter. -/
def lower (c : Char) : Char := if 'A' ≤ c ∧ c ≤ 'Z' then Char.ofNat (c.toNat + 32) else c

/-- How many leading characters of `s` match `word` ignoring ASCII case. -/
def commonPrefixIgnoringCase : List Char → List Char → Nat
  | c :: s, w :: ws => if lower c = w then 1 + commonPrefixIgnoringCase s ws else 0
  | _, _ => 0

/-- The special values: infinities (with an optional sign) and not-a-number, which
must make up the whole text. -/
def special (cs : List Char) : Option Float :=
  let (neg, signed, rest) := match cs with
    | '+' :: r => (false, true, r)
    | '-' :: r => (true, true, r)
    | r => (false, false, r)
  let n := commonPrefixIgnoringCase rest "infinity".toList
  let n := if 3 < n ∧ n < 8 then 3 else n
  if (n = 3 ∨ n = 8) ∧ rest.length = n then some (Binary64.infinity neg)
  else if ¬signed ∧ commonPrefixIgnoringCase rest "nan".toList = 3 ∧ rest.length = 3 then
    some Binary64.nan
  else none

/-- What the last character was, for the underscore rule: the start, a digit (or a
base prefix), an underscore, or something else. -/
inductive Seen where
  | start | digit | underscore | other
  deriving DecidableEq

/-- Walks the number after an optional base prefix. -/
def underscoresAfter (hex : Bool) : Seen → List Char → Bool
  | seen, [] => seen != .underscore
  | seen, c :: rest =>
    if isDigit c ∨ (hex ∧ 'a' ≤ lower c ∧ lower c ≤ 'f') then underscoresAfter hex .digit rest
    else if c = '_' then seen == .digit && underscoresAfter hex .underscore rest
    else seen != .underscore && underscoresAfter hex .other rest

/-- Whether underscores stand only between digits, or between a base prefix and a
digit. -/
def underscoresFit (cs : List Char) : Bool :=
  let cs := match cs with
    | '+' :: r => r
    | '-' :: r => r
    | r => r
  match cs with
  | '0' :: c :: rest =>
    if lower c = 'x' ∨ lower c = 'b' ∨ lower c = 'o' then underscoresAfter (lower c = 'x') .digit rest
    else underscoresAfter false .start cs
  | _ => underscoresAfter false .start cs

/-- Reads mantissa digits: their value, the number of digits after the point (if there
is a point), whether a digit was seen, whether an underscore was seen, and what follows. -/
def mantissaDigits (hex : Bool) :
    List Char → Nat → Option Nat → Bool → Bool → Nat × Option Nat × Bool × Bool × List Char
  | [], v, frac, saw, us => (v, frac, saw, us, [])
  | c :: rest, v, frac, saw, us =>
    if c = '_' then mantissaDigits hex rest v frac saw true
    else if c = '.' then
      match frac with
      | some _ => (v, frac, saw, us, c :: rest)
      | none => mantissaDigits hex rest v (some 0) saw us
    else
      let d? : Option Nat :=
        if isDigit c then some (c.toNat - 48)
        else if hex ∧ 'a' ≤ lower c ∧ lower c ≤ 'f' then some ((lower c).toNat - 87)
        else none
      match d? with
      | some d =>
        mantissaDigits hex rest (v * (if hex then 16 else 10) + d) (frac.map (· + 1)) true us
      | none => (v, frac, saw, us, c :: rest)

/-- Reads an exponent: optional sign and decimal digits, possibly with underscores. -/
def exponentPart (cs : List Char) : Option (Int × Bool × List Char) :=
  let (neg, rest) := match cs with
    | '+' :: r => (false, r)
    | '-' :: r => (true, r)
    | r => (false, r)
  match rest with
  | c :: _ =>
    if isDigit c then
      let ds := rest.takeWhile (fun c => isDigit c ∨ c = '_')
      let after := rest.dropWhile (fun c => isDigit c ∨ c = '_')
      -- Digits past an exponent of 10000 no longer count: such a number is zero or
      -- out of range whatever they are.
      let v := (ds.filter isDigit).foldl
        (fun (n : Nat) c => if n < 10000 then n * 10 + (c.toNat - 48) else n) 0
      some (if neg then -(v : Int) else v, ds.contains '_', after)
    else none
  | [] => none

/-- The exact value of a number text, as sign, mantissa, exponent and base, when the whole
text is a number. -/
def exactValue? (cs : List Char) : Option (Bool × Nat × Int × Bool) :=
  let (neg, body) := match cs with
    | '+' :: r => (false, r)
    | '-' :: r => (true, r)
    | r => (false, r)
  let (hex, digits) := match body with
    | '0' :: x :: r :: rest => if lower x = 'x' then (true, r :: rest) else (false, body)
    | _ => (false, body)
  let (v, frac, saw, us, rest) := mantissaDigits hex digits 0 none false false
  if ¬saw then none
  else
    let fracDigits : Int := (frac.getD 0 : Nat)
    let scale : Int := if hex then 4 * fracDigits else fracDigits
    match rest with
    | c :: more =>
      if (hex ∧ lower c = 'p') ∨ (¬hex ∧ lower c = 'e') then
        match exponentPart more with
        | some (e, us2, []) =>
          if (us ∨ us2) ∧ ¬underscoresFit cs then none
          else some (neg, v, e - scale, hex)
        | _ => none
      else none
    | [] =>
      if hex then none
      else if us ∧ ¬underscoresFit cs then none
      else some (neg, v, -scale, hex)

/-- A floating-point number. -/
def parseFloat (s : String) : Except NumberError Float :=
  let cs := s.toList
  match special cs with
  | some x => .ok x
  | none =>
    match exactValue? cs with
    | none => .error ⟨.parseFloat, s, .notNumber⟩
    | some (neg, m, e, hex) =>
      let x := if hex then Binary64.ofBinary neg m e else Binary64.ofDecimal neg m e
      if Binary64.isInfinite x then .error ⟨.parseFloat, s, .range⟩ else .ok x

end Read

end EdgeQuery
