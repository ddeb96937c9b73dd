import EdgeQuery.Text.Bytes
/-! # Durations

A duration is a whole number of nanoseconds, within the 64-bit range.

It is written as a sequence of decimal numbers, each with an optional fraction and a unit
(`ns`, `us`, `µs`, `μs`, `ms`, `s`, `m`, `h`), the whole optionally signed: `1h30m`,
`1.5s`, `-2m`; `0` alone needs no unit. Each number is scaled by its unit and the results
add up; a fraction is scaled in binary64 arithmetic and cut to whole nanoseconds. A total
beyond the 64-bit range is refused.

A duration prints as hours, minutes and seconds (`1h30m0s`, `1.5s`, `0s`), or below a
second in the largest of `ms`, `µs` and `ns` that keeps a whole part (`1.5ms`), with no
trailing zeros in the fraction. -/

namespace EdgeQuery.Duration

def second : Nat := 1000000000

/-- The nanoseconds of a unit. -/
def unitValue? : String → Option Nat
  | "ns" => some 1
  | "us" | "µs" | "μs" => some 1000
  | "ms" => some 1000000
  | "s" => some second
  | "m" => some (60 * second)
  | "h" => some (3600 * second)
  | _ => none

/-- A text in double quotes as durations quote it: the quote and the backslash escaped,
and every byte of a character outside printable ASCII written `\xHH`. -/
def quote (s : String) : String :=
  let hex := "0123456789abcdef".toList
  let byte (b : UInt8) : List Char := ['\\', 'x', hex.getD (b.toNat / 16) '0', hex.getD (b.toNat % 16) '0']
  let piece (c : Char) : List Char :=
    if c.toNat ≥ 0x80 || c.toNat < 0x20 then (Bytes.ofString (String.singleton c)).flatMap byte
    else if c == '"' || c == '\\' then ['\\', c]
    else [c]
  String.ofList ('"' :: s.toList.flatMap piece ++ ['"'])

/-- The limit of the magnitudes read: two to the 63rd. -/
def bound : Nat := Nat.pow 2 63

/-- Reads leading decimal digits: the value, or none when it passes `bound`, and the rest. -/
def leadingInt : List Char → Nat → Option (Nat × List Char)
  | c :: cs, x =>
    if c.isDigit then
      if x > bound / 10 then none
      else
        let y := x * 10 + (c.toNat - 48)
        if y > bound then none else leadingInt cs y
    else some (x, c :: cs)
  | [], x => some (x, [])

/-- Reads the leading digits of a fraction: the value of the digits kept, their scale and
the rest. Digits that would pass `bound` are skipped. -/
def leadingFraction : List Char → Nat → Float → Bool → Nat × Float × List Char
  | c :: cs, x, scale, skipping =>
    if c.isDigit then
      if skipping then leadingFraction cs x scale true
      else if x > (bound - 1) / 10 then leadingFraction cs x scale true
      else
        let y := x * 10 + (c.toNat - 48)
        if y > bound then leadingFraction cs x scale true else leadingFraction cs y (scale * 10) false
    else (x, scale, c :: cs)
  | [], x, scale, _ => (x, scale, [])

/-- Reads the numbers with units of a duration text (after its sign), adding up to `d`. -/
def terms (given : String) : List Char → Nat → Nat → Except String Nat
  | [], d, _ => .ok d
  | _, _, 0 => .ok 0
  | s, d, fuel + 1 =>
    let invalid : Except String Nat := .error ("time: invalid duration " ++ quote given)
    match s with
    | [] => .ok d
    | c :: _ =>
      if !(c == '.' || c.isDigit) then invalid
      else
        match leadingInt s 0 with
        | none => invalid
        | some (v, rest) =>
          let pre := rest.length != s.length
          let (f, scale, rest, post) := match rest with
            | '.' :: r =>
              let (f, scale, r') := leadingFraction r 0 1 false
              (f, scale, r', r'.length != r.length)
            | r => (0, 1, r, false)
          if !pre && !post then invalid
          else
            let unit := rest.takeWhile fun c => !(c == '.' || c.isDigit)
            let rest := rest.drop unit.length
            if unit.isEmpty then .error ("time: missing unit in duration " ++ quote given)
            else
              match unitValue? (String.ofList unit) with
              | none => .error ("time: unknown unit " ++ quote (String.ofList unit) ++ " in duration " ++ quote given)
              | some u =>
                if v > bound / u then invalid
                else
                  let v := v * u
                  let v := if f > 0 then
                      v + ((UInt64.ofNat f).toFloat * ((UInt64.ofNat u).toFloat / scale)).toUInt64.toNat
                    else v
                  if v > bound then invalid
                  else if d + v > bound then invalid
                  else terms given rest (d + v) fuel

/-- Reads a duration. -/
def parse (given : String) : Except String Int :=
  let (neg, s) := match given.toList with
    | '-' :: r => (true, r)
    | '+' :: r => (false, r)
    | r => (false, r)
  if s == ['0'] then .ok 0
  else if s.isEmpty then .error ("time: invalid duration " ++ quote given)
  else do
    let d ← terms given s 0 (s.length + 1)
    if neg then return -(d : Int)
    else if d > bound - 1 then throw ("time: invalid duration " ++ quote given)
    else return d

/-- The fraction of `v / 10^prec` as `.ddd` without trailing zeros (nothing when it is
zero), and the whole part. -/
def fraction (v prec : Nat) : String × Nat :=
  let digits := (List.range prec).map fun i => (v / Nat.pow 10 i) % 10
  let kept := (digits.dropWhile (· == 0)).reverse
  (if kept.isEmpty then "" else "." ++ String.ofList (kept.map fun d => Char.ofNat (48 + d)), v / Nat.pow 10 prec)

/-- The text of a duration. -/
def render (d : Int) : String :=
  let u := d.natAbs
  let sign := if d < 0 then "-" else ""
  if u = 0 then "0s"
  else if u < second then
    let (prec, unit) := if u < 1000 then (0, "ns") else if u < 1000000 then (3, "µs") else (6, "ms")
    let (frac, whole) := fraction u prec
    sign ++ toString whole ++ frac ++ unit
  else
    let (frac, secs) := fraction u 9
    let mins := secs / 60
    let hours := mins / 60
    sign ++ (if hours > 0 then toString hours ++ "h" else "") ++
      (if mins > 0 then toString (mins % 60) ++ "m" else "") ++ toString (secs % 60) ++ frac ++ "s"

example : render (90 * 60 * 1000000000) = "1h30m0s" := by decide +kernel
example : render 1500000 = "1.5ms" := by decide +kernel

end EdgeQuery.Duration
