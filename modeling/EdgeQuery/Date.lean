/-! # Calendar dates

Edges are dated by day. A date is written as eight digits, `yyyymmdd`: a four-digit year,
a two-digit month from 1 to 12 and a two-digit day that exists in that month of the
proleptic Gregorian calendar. Nothing else is read as a date: no sign, no blank, no
shorter field.

Dates are ordered by year, month and day, which is also the order of their written
forms. The first day of year 1 is the zero date: a time that was never set reads as it, so
it stands for "no date" where a date is optional. -/

namespace EdgeQuery

/-- A day of the proleptic Gregorian calendar. -/
structure Date where
  year : Nat
  month : Nat
  day : Nat
  deriving DecidableEq, Inhabited, Repr

namespace Date

/-- Leap years: every fourth year, except centuries not divisible by 400. -/
def isLeap (y : Nat) : Bool := y % 4 == 0 && (y % 100 != 0 || y % 400 == 0)

/-- The number of days of a month (1 to 12) in a year. -/
def daysIn (y m : Nat) : Nat :=
  match m with
  | 2 => if isLeap y then 29 else 28
  | 4 | 6 | 9 | 11 => 30
  | _ => 31

/-- The value of a run of decimal digits, if every character is one. -/
def digits? (cs : List Char) : Option Nat :=
  if cs.all Char.isDigit then some (cs.foldl (fun n c => n * 10 + (c.toNat - 48)) 0) else none

/-- Reads `yyyymmdd`. -/
def parse? (s : String) : Option Date :=
  let cs := s.toList
  if cs.length != 8 then none
  else
    match digits? (cs.take 4), digits? ((cs.drop 4).take 2), digits? (cs.drop 6) with
    | some y, some m, some d =>
      if 1 ≤ m && m ≤ 12 && 1 ≤ d && d ≤ daysIn y m then some ⟨y, m, d⟩ else none
    | _, _, _ => none

/-- A number written with at least `width` digits, zeros in front. -/
def padded (width n : Nat) : String :=
  let s := toString n
  String.ofList (List.replicate (width - s.length) '0') ++ s

/-- Writes `yyyymmdd`. -/
def render (d : Date) : String := padded 4 d.year ++ padded 2 d.month ++ padded 2 d.day

/-- The zero date, 1 January of year 1. -/
def zero : Date := ⟨1, 1, 1⟩

/-- Whether a date is the zero date. -/
def isZero (d : Date) : Bool := d == zero

/-- Dates in calendar order. -/
def compare (a b : Date) : Ordering :=
  (Ord.compare a.year b.year).then ((Ord.compare a.month b.month).then (Ord.compare a.day b.day))

instance : Ord Date := ⟨Date.compare⟩

/-- Whether `a` is a strictly earlier day than `b`. -/
def before (a b : Date) : Bool := Date.compare a b == .lt

/-- The number of days from 1 January 1970 to a date, negative before it. -/
def toEpochDays (d : Date) : Int :=
  let y : Int := if d.month ≤ 2 then d.year - 1 else d.year
  let era := y.fdiv 400
  let yoe := y - era * 400
  let m : Int := d.month
  let mp := if m > 2 then m - 3 else m + 9
  let doy := (153 * mp + 2) / 5 + d.day - 1
  let doe := yoe * 365 + yoe / 4 - yoe / 100 + doy
  era * 146097 + doe - 719468

/-- The date a number of days after 1 January 1970 (before it, for a negative number);
dates before year 0 are not represented and come out in year 0. -/
def ofEpochDays (n : Int) : Date :=
  let z := n + 719468
  let era := z.fdiv 146097
  let doe := z - era * 146097
  let yoe := (doe - doe / 1460 + doe / 36524 - doe / 146096) / 365
  let y := yoe + era * 400
  let doy := doe - (365 * yoe + yoe / 4 - yoe / 100)
  let mp := (5 * doy + 2) / 153
  let d := doy - (153 * mp + 2) / 5 + 1
  let m := if mp < 10 then mp + 3 else mp - 9
  ⟨(if m ≤ 2 then y + 1 else y).toNat, m.toNat, d.toNat⟩

example : (parse? "20240229").map render = some "20240229" := by decide
example : parse? "20230229" = none := by decide
example : toEpochDays ⟨1970, 1, 1⟩ = 0 ∧ ofEpochDays 19723 = ⟨2024, 1, 1⟩ := by decide

end Date

end EdgeQuery
