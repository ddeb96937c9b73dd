import EdgeQuery.Date
import EdgeQuery.Duration
/-! # Timestamps

A timestamp is written `yyyy-mm-ddThh:mm:ss` with an optional fraction of a second (after
a point or a comma, at most nine digits counted) and a zone: `Z` or `±hh:mm`. The hour may
have a single digit. A month outside 1 to 12, an hour from 24, a minute or second from 60,
a day its month does not have, or a zone offset beyond 24 hours or 60 minutes is out of
range.

A text that is no timestamp is refused with the part that failed: the rest of the text
and the element of the layout `2006-01-02T15:04:05Z07:00` it should have matched, or the
field out of range, or the text left over at the end.

A point in time is written back in UTC, with the fraction of its second when it has one,
trailing zeros dropped. -/

namespace EdgeQuery.Timestamp

/-- The layout named in failures. -/
def layout : String := "2006-01-02T15:04:05Z07:00"

/-- A failure that cannot match `rest` to the layout element `elem`. -/
def cannotParse (value : String) (rest : List Char) (elem : String) : String :=
  "parsing time " ++ Duration.quote value ++ " as " ++ Duration.quote layout ++ ": cannot parse " ++
    Duration.quote (String.ofList rest) ++ " as " ++ Duration.quote elem

/-- A failure with a message of its own. -/
def failure (value : String) (message : String) : String :=
  "parsing time " ++ Duration.quote value ++ message

/-- Reads one or two digits (exactly two when `fixed`). -/
def number (cs : List Char) (fixed : Bool) : Option (Nat × List Char) :=
  match cs with
  | a :: b :: rest =>
    if !a.isDigit then none
    else if b.isDigit then some ((a.toNat - 48) * 10 + (b.toNat - 48), rest)
    else if fixed then none else some (a.toNat - 48, b :: rest)
  | [a] => if a.isDigit && !fixed then some (a.toNat - 48, []) else none
  | [] => none

/-- The value of digits. -/
def digitsValue (ds : List Char) : Nat := ds.foldl (fun n c => n * 10 + (c.toNat - 48)) 0

/-- A read timestamp: seconds since 1970 in UTC and nanoseconds. -/
structure Moment where
  seconds : Int
  nanos : Nat
  deriving DecidableEq, Repr

/-- Reads a timestamp. -/
def parse (value : String) : Except String Moment :=
  let v := value.toList
  let bad (rest : List Char) (elem : String) : Except String Moment := .error (cannotParse value rest elem)
  let range (what : String) : Except String Moment := .error (failure value (": " ++ what ++ " out of range"))
  let sep (rest : List Char) (c : Char) (k : List Char → Except String Moment) : Except String Moment :=
    match rest with
    | d :: more => if d == c then k more else bad rest (String.singleton c)
    | [] => bad rest (String.singleton c)
  -- year
  if v.length < 4 || !(v.take 4).all Char.isDigit then bad v "2006" else
  let year := digitsValue (v.take 4)
  sep (v.drop 4) '-' fun r =>
  match number r true with
  | none => bad r "01"
  | some (month, r2) =>
  if month < 1 || month > 12 then range "month" else
  sep r2 '-' fun r =>
  match number r true with
  | none => bad r "02"
  | some (day, r3) =>
  sep r3 'T' fun r =>
  match number r false with
  | none => bad r "15"
  | some (hour, r4) =>
  if hour ≥ 24 then range "hour" else
  sep r4 ':' fun r =>
  match number r true with
  | none => bad r "04"
  | some (minute, r5) =>
  if minute ≥ 60 then range "minute" else
  sep r5 ':' fun r =>
  match number r true with
  | none => bad r "05"
  | some (second, r6) =>
  if second ≥ 60 then range "second" else
  let (nanos, r7) := match r6 with
    | p :: d :: more =>
      if (p == '.' || p == ',') && d.isDigit then
        let ds := d :: more.takeWhile Char.isDigit
        let kept := ds.take 9
        (digitsValue kept * Nat.pow 10 (9 - kept.length), more.dropWhile Char.isDigit)
      else (0, r6)
    | _ => (0, r6)
  let zone : Except String (Int × List Char) :=
    match r7 with
    | 'Z' :: rest => .ok (0, rest)
    | s :: h1 :: h2 :: ':' :: m1 :: m2 :: rest =>
      match number [h1, h2] true, number [m1, m2] true with
      | some (hh, _), some (mm, _) =>
        if hh > 24 then .error (failure value ": time zone offset hour out of range")
        else if mm > 60 then .error (failure value ": time zone offset minute out of range")
        else if s == '+' then .ok ((hh * 60 + mm) * 60, rest)
        else if s == '-' then .ok (-(((hh * 60 + mm) * 60 : Nat) : Int), rest)
        else .error (cannotParse value r7 "Z07:00")
      | _, _ => .error (cannotParse value r7 "Z07:00")
    | _ => .error (cannotParse value r7 "Z07:00")
  match zone with
  | .error e => .error e
  | .ok (offset, r8) =>
  if !r8.isEmpty then .error (failure value (": extra text: " ++ Duration.quote (String.ofList r8))) else
  if day < 1 || day > Date.daysIn year month then range "day" else
  let days := Date.toEpochDays ⟨year, month, day⟩
  .ok ⟨days * 86400 + hour * 3600 + minute * 60 + second - offset, nanos⟩

/-- The UTC date of a point in time. -/
def Moment.date (m : Moment) : Date := Date.ofEpochDays (m.seconds.fdiv 86400)

/-- Writes a point in time in UTC: `yyyy-mm-ddThh:mm:ss`, the fraction of its second if
it has one, and `Z`. -/
def render (seconds : Int) (nanos : Nat) : String :=
  let d := Date.ofEpochDays (seconds.fdiv 86400)
  let s := (seconds.fmod 86400).toNat
  let two (n : Nat) := Date.padded 2 n
  let frac :=
    if nanos = 0 then ""
    else "." ++ String.ofList ((Date.padded 9 nanos).toList.reverse.dropWhile (· == '0')).reverse
  Date.padded 4 d.year ++ "-" ++ two d.month ++ "-" ++ two d.day ++ "T" ++ two (s / 3600) ++ ":" ++
    two (s / 60 % 60) ++ ":" ++ two (s % 60) ++ frac ++ "Z"

end EdgeQuery.Timestamp
