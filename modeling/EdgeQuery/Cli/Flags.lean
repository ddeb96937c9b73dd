import EdgeQuery.Duration
import EdgeQuery.Number.Read
/-! # Command-line flags

A flag has a long name, maybe a one-letter short name, and a kind: text, truth value,
whole number, duration or list of texts. On the command line a flag is written
`--name value`, `--name=value`, `-n value`, `-nvalue` or `-n=value`; several short flags
may share one dash. A truth-value flag needs no value (`--all` means `--all=true`), so
`--all false` sets it and leaves `false` as an argument. A whole number is read in any of
the bases its prefix names (`0x`, `0o`, `0b`, a leading `0` for octal), with underscores
between digits; a list reads its value as comma-separated fields (double quotes protect
commas) and adds them to what earlier uses of the flag gave. `--` ends the flags.

Failures name what went wrong: an unknown flag, a missing value, or a value its kind does
not read. -/

namespace EdgeQuery.Cli

/-- What a flag holds. -/
inductive FlagKind where
  | text
  | truth
  | whole
  | duration
  | texts
  deriving DecidableEq, Repr

/-- A flag a command takes. -/
structure FlagSpec where
  name : String
  short : Option Char := none
  kind : FlagKind
  deriving Repr

/-- A value given to a flag. -/
inductive FlagValue where
  | text (s : String)
  | truth (b : Bool)
  | whole (n : Int)
  | duration (nanos : Int)
  | texts (xs : List String)
  deriving Repr, Inhabited

/-! ### Reading values -/

/-- The value of a digit in bases up to 36. -/
def digitValue (c : Char) : Option Nat :=
  if c.isDigit then some (c.toNat - 48)
  else
    let l := c.toLower
    if 'a' ≤ l ∧ l ≤ 'z' then some (l.toNat - 87) else none

/-- Whether the underscores of a number stand between digits, a base prefix counting
as a digit. -/
def underscoresFit (cs : List Char) : Bool :=
  let cs := match cs with
    | '+' :: r | '-' :: r => r
    | r => r
  let (start, hex, cs) := match cs with
    | '0' :: b :: r =>
      let l := b.toLower
      if l == 'b' || l == 'o' || l == 'x' then ('0', l == 'x', r) else ('^', false, cs)
    | r => ('^', false, r)
  let step := fun (saw : Option Char) (c : Char) =>
    match saw with
    | none => none
    | some saw =>
      if c.isDigit || (hex && 'a' ≤ c.toLower && c.toLower ≤ 'f') then some '0'
      else if c == '_' then (if saw == '0' then some '_' else none)
      else if saw == '_' then none
      else some '!'
  match cs.foldl step (some start) with
  | some last => last != '_'
  | none => false

/-- Reads the digits of an unsigned number in a base, stopping at the first digit that
does not fit 64 bits: the value, or whether the failure is a range failure. -/
def readDigits (base : Nat) : List Char → Nat → Bool → Except Bool (Nat × Bool)
  | [], n, under => .ok (n, under)
  | c :: cs, n, under =>
    if c == '_' then readDigits base cs n true
    else
      match digitValue c with
      | none => .error false
      | some d =>
        if d ≥ base then .error false
        else if n * base + d ≥ Nat.pow 2 64 then .error true
        else readDigits base cs (n * base + d) under

/-- Reads a whole number as a 64-bit flag value takes it: an optional sign, then digits
in the base a prefix names (`0b`, `0o`, `0x`, or a bare leading `0` for octal), with
underscores allowed between digits. -/
def readWhole (s : String) : Except String Int :=
  let syntaxError : Except String Int := .error ("strconv.ParseInt: parsing " ++ Quote.text s ++ ": invalid syntax")
  let rangeError : Except String Int := .error ("strconv.ParseInt: parsing " ++ Quote.text s ++ ": value out of range")
  let (neg, body) := match s.toList with
    | '+' :: r => (false, r)
    | '-' :: r => (true, r)
    | r => (false, r)
  if body.isEmpty then syntaxError
  else
    let (base, digits) := match body with
      | '0' :: b :: c :: r =>
        let l := b.toLower
        if l == 'b' then (2, c :: r) else if l == 'o' then (8, c :: r) else if l == 'x' then (16, c :: r)
        else (8, b :: c :: r)
      | '0' :: r => (8, r)
      | r => (10, r)
    match readDigits base digits 0 false with
    | .error true => rangeError
    | .error false => syntaxError
    | .ok (n, under) =>
      if under && !underscoresFit body then syntaxError
      else if neg then (if n > Nat.pow 2 63 then rangeError else .ok (-(n : Int)))
      else if n ≥ Nat.pow 2 63 then rangeError else .ok n

/-- Splits a list value into its comma-separated fields; double quotes protect commas,
and a doubled quote inside quotes stands for one. -/
def csvFields (s : String) : Except String (List String) :=
  if s.isEmpty then .ok []
  else go s.toList [] "" false false 1 (s.length + 1)
where
  go : List Char → List String → String → Bool → Bool → Nat → Nat → Except String (List String)
    | _, _, _, _, _, _, 0 => .ok []
    | [], acc, cur, inQuotes, _, col, _ =>
      if inQuotes then .error ("parse error on line 1, column " ++ toString col ++ ": extraneous or missing \" in quoted-field")
      else .ok (acc ++ [cur])
    | c :: rest, acc, cur, inQuotes, quoted, col, fuel + 1 =>
      if inQuotes then
        if c == '"' then
          match rest with
          | '"' :: more => go more acc (cur.push '"') true quoted (col + 2) fuel
          | ',' :: more => go more (acc ++ [cur]) "" false false (col + 2) fuel
          | [] => .ok (acc ++ [cur])
          | _ => .error ("parse error on line 1, column " ++ toString col ++
              ": extraneous or missing \" in quoted-field")
        else go rest acc (cur.push c) true quoted (col + 1) fuel
      else if c == ',' then go rest (acc ++ [cur]) "" false false (col + 1) fuel
      else if c == '\n' then .ok (acc ++ [cur])
      else if c == '"' then
        if cur.isEmpty && !quoted then go rest acc cur true true (col + 1) fuel
        else .error ("parse error on line 1, column " ++ toString col ++ ": bare \" in non-quoted-field")
      else go rest acc (cur.push c) false quoted (col + 1) fuel

/-- The name a flag is shown by in failures. -/
def FlagSpec.shown (f : FlagSpec) : String :=
  match f.short with
  | some c => "-" ++ String.singleton c ++ ", --" ++ f.name
  | none => "--" ++ f.name

/-- Gives a flag a value, on top of what it had. -/
def FlagSpec.read (f : FlagSpec) (old : Option FlagValue) (v : String) : Except String FlagValue :=
  let wrap (r : Except String FlagValue) : Except String FlagValue :=
    r.mapError fun e => "invalid argument " ++ Quote.text v ++ " for " ++ Quote.text f.shown ++ " flag: " ++ e
  wrap <| match f.kind with
    | .text => .ok (.text v)
    | .truth => (Read.parseBool v).map FlagValue.truth |>.mapError (·.message)
    | .whole => (readWhole v).map .whole
    | .duration => (Duration.parse v).map .duration
    | .texts => do
      let xs ← csvFields v
      match old with
      | some (.texts ys) => return .texts (ys ++ xs)
      | _ => return .texts xs

/-! ### Reading a command line -/

/-- Flags given on a command line, each with its value; and the arguments. -/
structure Parsed where
  values : List (String × FlagValue) := []
  args : List String := []
  deriving Inhabited

namespace Parsed

/-- Sets a flag. -/
def set (p : Parsed) (name : String) (v : FlagValue) : Parsed :=
  { p with values := (p.values.filter (·.1 != name)) ++ [(name, v)] }

/-- The value of a flag, if it was given. -/
def get? (p : Parsed) (name : String) : Option FlagValue := p.values.lookup name

/-- Whether a flag was given. -/
def changed (p : Parsed) (name : String) : Bool := (p.get? name).isSome

/-- A text flag, or its default. -/
def text (p : Parsed) (name : String) (default : String := "") : String :=
  match p.get? name with
  | some (.text s) => s
  | _ => default

/-- A truth-value flag, or false. -/
def truth (p : Parsed) (name : String) : Bool :=
  match p.get? name with
  | some (.truth b) => b
  | _ => false

/-- A whole-number flag, or zero. -/
def whole (p : Parsed) (name : String) : Int :=
  match p.get? name with
  | some (.whole n) => n
  | _ => 0

/-- A duration flag, or zero. -/
def duration (p : Parsed) (name : String) : Int :=
  match p.get? name with
  | some (.duration n) => n
  | _ => 0

/-- A list flag, or nothing. -/
def texts (p : Parsed) (name : String) : List String :=
  match p.get? name with
  | some (.texts xs) => xs
  | _ => []

end Parsed

/-- Gives a flag its value. -/
def assign (p : Parsed) (f : FlagSpec) (v : String) : Except String Parsed := do
  return p.set f.name (← f.read (p.get? f.name) v)

/-- Reads a run of short flags after one dash. -/
def readShorts (specs : List FlagSpec) : List Char → Parsed → List String → Nat →
    Except String (Parsed × List String)
  | [], p, rest, _ => .ok (p, rest)
  | _, p, rest, 0 => .ok (p, rest)
  | c :: more, p, rest, fuel + 1 =>
    let all := String.ofList (c :: more)
    match specs.find? (·.short == some c) with
    | none => .error ("unknown shorthand flag: " ++ Quote.char c ++ " in -" ++ all)
    | some f =>
      match more with
      | '=' :: v :: vs => do return (← assign p f (String.ofList (v :: vs)), rest)
      | _ =>
        if f.kind == .truth then do readShorts specs more (← assign p f "true") rest fuel
        else if !more.isEmpty then do return (← assign p f (String.ofList more), rest)
        else
          match rest with
          | v :: rest' => do return (← assign p f v, rest')
          | [] => .error ("flag needs an argument: " ++ Quote.char c ++ " in -" ++ all)

/-- Reads a command line against the flags a command takes. -/
def parseArgs (specs : List FlagSpec) : List String → Parsed → Nat → Except String Parsed
  | [], p, _ => .ok p
  | _, p, 0 => .ok p
  | s :: rest, p, fuel + 1 =>
    if s == "--" then .ok { p with args := p.args ++ rest }
    else if s.length < 2 || !s.startsWith "-" then parseArgs specs rest { p with args := p.args ++ [s] } fuel
    else if s.startsWith "--" then
      let body := (s.drop 2).toString
      if body.isEmpty || body.startsWith "-" || body.startsWith "=" then .error ("bad flag syntax: " ++ s)
      else
        let (name, value) := match body.splitOn "=" with
          | n :: v :: vs => (n, some ("=".intercalate (v :: vs)))
          | _ => (body, none)
        match specs.find? (·.name == name) with
        | none => .error ("unknown flag: --" ++ name)
        | some f =>
          match value with
          | some v => do parseArgs specs rest (← assign p f v) fuel
          | none =>
            if f.kind == .truth then do parseArgs specs rest (← assign p f "true") fuel
            else
              match rest with
              | v :: rest' => do parseArgs specs rest' (← assign p f v) fuel
              | [] => .error ("flag needs an argument: " ++ s)
    else do
      let (p, rest) ← readShorts specs (s.drop 1).toString.toList p rest (s.length + 1)
      parseArgs specs rest p fuel

/-- Reads a command line. -/
def parse (specs : List FlagSpec) (args : List String) : Except String Parsed :=
  parseArgs specs args {} (args.length + 1)

end EdgeQuery.Cli
