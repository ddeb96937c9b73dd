import EdgeQuery.Date
import EdgeQuery.Duration
import EdgeQuery.Text.Quote
/-! # Cron schedules

A cron schedule names the moments a periodic job runs: six fields for the second, minute,
hour, day of month, month and day of week, or five fields without the second (which is
then `0`). A field is a comma-separated list of items; an item is `*` or `?` (every
value), a value, or a range `a-b`, optionally followed by a step `/n` (a single value with
a step runs to the end of the field's range). Months and days of the week may be given by
their three-letter English names. A schedule may instead be a descriptor: `@yearly`,
`@annually`, `@monthly`, `@weekly`, `@daily`, `@midnight`, `@hourly` or `@every` with a
duration. A leading `TZ=zone` or `CRON_TZ=zone` names the time zone.

A day matches when its day of month and its day of week both match, or, when neither field
is written as every value, when either matches. A schedule that matches no day in the
current year and the five after it is refused as never running. -/

namespace EdgeQuery.Schedule

/-- The values a field may take, and the names it accepts. -/
structure Bounds where
  lo : Nat
  hi : Nat
  names : List (String × Nat) := []

def seconds : Bounds := ⟨0, 59, []⟩
def minutes : Bounds := ⟨0, 59, []⟩
def hours : Bounds := ⟨0, 23, []⟩
def daysOfMonth : Bounds := ⟨1, 31, []⟩
def months : Bounds :=
  ⟨1, 12, [("jan", 1), ("feb", 2), ("mar", 3), ("apr", 4), ("may", 5), ("jun", 6), ("jul", 7),
    ("aug", 8), ("sep", 9), ("oct", 10), ("nov", 11), ("dec", 12)]⟩
def daysOfWeek : Bounds :=
  ⟨0, 6, [("sun", 0), ("mon", 1), ("tue", 2), ("wed", 3), ("thu", 4), ("fri", 5), ("sat", 6)]⟩

/-- The values a field allows, and whether it was written as every value. -/
structure FieldSet where
  values : List Nat := []
  every : Bool := false

/-- Reads a whole number of a field. -/
def readNumber (s : String) : Except String Nat :=
  let cs := s.toList
  let (neg, ds) := match cs with
    | '-' :: r => (true, r)
    | '+' :: r => (false, r)
    | r => (false, r)
  if ds.isEmpty || !ds.all Char.isDigit || ds.length > 18 then
    .error ("failed to parse int from " ++ s ++ ": strconv.Atoi: parsing " ++ Quote.text s ++
      ": invalid syntax")
  else
    let n := ds.foldl (fun n c => n * 10 + (c.toNat - 48)) 0
    if neg && n != 0 then .error ("negative number (-" ++ toString n ++ ") not allowed: " ++ s)
    else .ok n

/-- Reads a value or a name of a field. -/
def readValue (b : Bounds) (s : String) : Except String Nat :=
  match b.names.find? (·.1 == String.ofList (s.toList.map Char.toLower)) with
  | some (_, n) => .ok n
  | none => readNumber s

/-- Reads the range part of an item: its first and last value, and whether it is every
value. -/
def readRange (b : Bounds) (item : String) (lowAndHigh : List String) :
    Except String (Nat × Nat × Bool) :=
  match lowAndHigh with
  | [] => .ok (b.lo, b.hi, true)
  | l :: rest =>
    if l == "*" || l == "?" then .ok (b.lo, b.hi, true)
    else
      match rest with
      | [] => (readValue b l).map fun v => (v, v, false)
      | [h] =>
        match readValue b l, readValue b h with
        | .ok lo, .ok hi => .ok (lo, hi, false)
        | .error e, _ => .error e
        | _, .error e => .error e
      | _ => .error ("too many hyphens: " ++ item)

/-- Reads one item of a field. -/
def readItem (b : Bounds) (item : String) : Except String FieldSet := do
  let rangeAndStep := item.splitOn "/"
  let lowAndHigh := (rangeAndStep.headD "").splitOn "-"
  let single := lowAndHigh.length == 1
  let (start, stop, every) ← readRange b item lowAndHigh
  let (stop, step, every) ← match rangeAndStep with
    | [_] => pure (stop, 1, every)
    | [_, s] => do
      let step ← readNumber s
      pure (if single then b.hi else stop, step, every && step ≤ 1)
    | _ => throw ("too many slashes: " ++ item)
  if start < b.lo then
    throw ("beginning of range (" ++ toString start ++ ") below minimum (" ++ toString b.lo ++ "): " ++ item)
  if stop > b.hi then
    throw ("end of range (" ++ toString stop ++ ") above maximum (" ++ toString b.hi ++ "): " ++ item)
  if start > stop then
    throw ("beginning of range (" ++ toString start ++ ") beyond end of range (" ++ toString stop ++ "): " ++ item)
  if step == 0 then throw ("step of range should be a positive number: " ++ item)
  return { values := ((List.range (stop - start + 1)).filter (· % step == 0)).map (start + ·), every }

/-- Reads a field: the union of its items. -/
def readField (b : Bounds) (field : String) : Except String FieldSet :=
  ((field.splitOn ",").filter (· != "")).foldlM (fun acc item => do
    let s ← readItem b item
    pure { values := acc.values ++ s.values, every := acc.every || s.every }) {}

/-- A parsed schedule: the allowed days, or a fixed period. -/
inductive Spec where
  | fields (dom months dow : FieldSet)
  | period

/-- The fields of a text, split at white space. -/
def words (s : String) : List String :=
  (s.splitToList fun c => c == ' ' || c == '\t' || c == '\n' || c == '\r' || c == '\x0b' || c == '\x0c').filter
    (· != "")

/-- Reads a schedule text (after any time zone). -/
def readSpec (spec : String) : Except String Spec := do
  if spec.startsWith "@" then
    if ["@yearly", "@annually", "@monthly", "@weekly", "@daily", "@midnight", "@hourly"].contains spec then
      return .period
    if spec.startsWith "@every " then
      match Duration.parse (spec.drop 7).toString with
      | .ok _ => return .period
      | .error e => throw ("failed to parse duration " ++ spec ++ ": " ++ e)
    throw ("unrecognized descriptor: " ++ spec)
  let fs := words spec
  if fs.length < 5 || fs.length > 6 then
    throw ("expected 5 to 6 fields, found " ++ toString fs.length ++ ": [" ++ " ".intercalate fs ++ "]")
  let fs := if fs.length == 5 then "0" :: fs else fs
  let _ ← readField seconds (fs.getD 0 "")
  let _ ← readField minutes (fs.getD 1 "")
  let _ ← readField hours (fs.getD 2 "")
  let dom ← readField daysOfMonth (fs.getD 3 "")
  let mon ← readField months (fs.getD 4 "")
  let dow ← readField daysOfWeek (fs.getD 5 "")
  return .fields dom mon dow

/-- Whether a day matches the day fields. -/
def dayMatches (dom months dow : FieldSet) (d : Date) (weekday : Nat) : Bool :=
  months.values.contains d.month &&
    (if dom.every || dow.every then dom.values.contains d.day && dow.values.contains weekday
     else dom.values.contains d.day || dow.values.contains weekday)

/-- Whether a schedule runs on some day from `today` to the end of the fifth year after. -/
def runsSoon (s : Spec) (today : Int) : Bool :=
  match s with
  | .period => true
  | .fields dom mon dow =>
    let year := (Date.ofEpochDays today).year
    let last := Date.toEpochDays ⟨year + 5, 12, 31⟩
    (List.range (last - today + 1).toNat).any fun i =>
      let n := today + i
      dayMatches dom mon dow (Date.ofEpochDays n) ((n + 4) % 7).toNat

/-- Checks a schedule as a sweep job takes it, with the day it is set up on. -/
def check (crontab : String) (today : Int) : Except String Unit := do
  let spec ← (do
    let withZone := if crontab.startsWith "TZ=" || crontab.startsWith "CRON_TZ=" then crontab
      else "CRON_TZ=Local " ++ crontab
    let cs := withZone.toList
    let eq := cs.findIdx (· == '=')
    let sp := cs.findIdx (· == ' ')
    let zone := String.ofList ((cs.drop (eq + 1)).take (sp - (eq + 1)))
    if !(zone == "" || zone == "UTC" || zone == "Local" || zone.contains '/') then
      throw ("provided bad location " ++ zone ++ ": unknown time zone " ++ zone)
    readSpec (String.ofList (cs.drop sp)).trimAscii.toString).mapError
      ("gocron: CronJob: crontab parse failure\n" ++ ·)
  if !runsSoon spec today then throw "gocron: CronJob: invalid crontab"

end EdgeQuery.Schedule
