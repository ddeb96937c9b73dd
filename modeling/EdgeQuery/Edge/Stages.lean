import EdgeQuery.Edge.Basic
import EdgeQuery.Edge.DateType
import EdgeQuery.Edge.Prefilter
import EdgeQuery.Store.Scan
import EdgeQuery.Eval.Evaluate
import EdgeQuery.Number.Read
/-! # Edge filter stages

Four stage kinds filter edges during a scan:

* `date-range` keeps the edges whose key date lies between the `begin` and `end` options
  (`yyyymmdd`, both included);
* `load-date` keeps the edges whose load date lies between them and whose date code the
  `date_type` option (a load date type) accepts;
* `date-type` keeps the edges whose date code the `date_type` option accepts;
* `expression` keeps the edges that pass the `prefilter` option and match the filter text
  of the `query` option; statistics edges pass only when the `stats` option is true.

The two date filters also check a `skip_limit` and a `scan_limit` (whole numbers, zero or
more); with a positive scan limit, the entry after that many ends the scan with a failure.
Entries that do not read as edges are dropped with a warning of the `edge-filter`
component, by the first filter that reads them: `date-range` looks only at the date in the
key and drops them without a word, `date-type` reads only the key. -/

namespace EdgeQuery.Edge

open Store

/-- The options shared by the date filters. -/
structure DateBounds where
  first : String
  last : String
  scanLimit : Int := 0

/-- A date option: present and a valid date. -/
def dateOption (st : Stage) (name : String) : Except Report String :=
  match st.option? name with
  | none => .error (badOption ("missing " ++ name))
  | some v =>
    if (Date.parse? v).isSome then .ok v
    else .error (badOption (name ++ "=" ++ Quote.text v ++ " is not a 20060102 date"))

/-- A count option, when present: a whole number, zero or more. -/
def countOption (st : Stage) (name : String) (read : String → Except NumberError Int) :
    Except Report Int :=
  match st.option? name with
  | none => .ok 0
  | some v =>
    match read v with
    | .ok n => if n < 0 then .error (badOption (name ++ "=" ++ Quote.text v)) else .ok n
    | .error _ => .error (badOption (name ++ "=" ++ Quote.text v))

/-- Reads the options of a date filter. -/
def DateBounds.ofStage (st : Stage) : Except Report DateBounds := do
  let first ← dateOption st "begin"
  let last ← dateOption st "end"
  if first > last then throw (badOption ("begin " ++ first ++ " is after end " ++ last))
  let _ ← countOption st "skip_limit" Read.atoi
  let scanLimit ← countOption st "scan_limit" Read.parseInt
  return { first, last, scanLimit }

/-- Whether a written date lies in the bounds. -/
def DateBounds.contains (b : DateBounds) (date : Bytes) : Bool :=
  Bytes.ofString b.first ≤ date && date ≤ Bytes.ofString b.last

/-- The failure of a date filter that has seen more entries than its limit allows. -/
def scanLimitReached (limit : Int) : Report :=
  { message := "date filter scan limit reached (" ++ toString limit ++ ")", causes := [.scanLimit] }

/-- A date filter's test, with the scan limit in front. -/
def DateBounds.limited {α : Type} (b : DateBounds) (keep : Entry → α) (seen : Nat) (e : Entry) :
    Except Report α :=
  if b.scanLimit > 0 && (seen : Int) + 1 > b.scanLimit then .error (scanLimitReached b.scanLimit)
  else .ok (keep e)

/-- The warning for an entry that does not read as an edge. -/
def malformedWarning (e : Entry) (r : Report) : Log.Event :=
  Log.Event.scoped "edge-filter" Log.warn "dropping malformed edge"
    [("key", .text (String.ofList (Utf8.chars e.key.render))), ("error", .text r.message)]

/-- Drops an entry that does not read, with the warning. -/
def dropped (e : Entry) (r : Report) : Bool × List Log.Event := (false, [malformedWarning e r])

/-- The date type option of a stage. -/
def dateTypeOption (st : Stage) : Except Report DateType :=
  match st.option? "date_type" with
  | none => .error (badOption "missing date_type")
  | some v => (DateType.parse v).mapError badOption

/-- The date in an entry's qualifier: the text before the first slash. -/
def qualifierDate (e : Entry) : Bytes := (Bytes.cut e.key.qualifier 47).1

/-- The `date-range` filter. -/
def dateRangeFilter (st : Stage) : Except Report Filter := do
  let b ← DateBounds.ofStage st
  return Filter.select (b.limited fun e => b.contains (qualifierDate e))

/-- The `load-date` filter, reading edge values in the serial form `S`. -/
def loadDateFilter (S : Serial Stored) (st : Stage) : Except Report Filter := do
  let b ← DateBounds.ofStage st
  let dt ← dateTypeOption st
  if !dt.isLoad then throw (badOption ("date_type=" ++ dt.name ++ " is not a load date type"))
  return Filter.note (b.limited fun e =>
    match decode S e with
    | .error r => dropped e r
    | .ok edge =>
      match edge.loadDate with
      | none => (false, [])
      | some d => (dt.accepts edge.dateCode && b.contains (Bytes.ofString d.render), []))

/-- The `date-type` filter. -/
def dateTypeFilter (st : Stage) : Except Report Filter := do
  let dt ← dateTypeOption st
  return Filter.note fun _ e =>
    match splitKey e.key with
    | .error r => .ok (dropped e r)
    | .ok p => .ok (dt.accepts p.code, [])

/-- The `expression` filter, reading edge values in the serial form `S` and the prefilter
by the token codec `P`. -/
def expressionFilter (S : Serial Stored) (P : TokenCodec Prefilter) (st : Stage) :
    Except Report Filter := do
  let query := (st.option? "query").getD ""
  if (Bytes.trimSpace (Bytes.ofString query)).isEmpty then throw (badOption "missing query")
  let ev ← (Eval.Evaluation.compileQuery query).mapError fun r =>
    { r with message := "invalid stage option: query: " ++ r.message
             causes := .stageOption :: r.causes }
  let prefilter ← match st.option? "prefilter" with
    | none => pure {}
    | some t => (Prefilter.decode P t).mapError fun r =>
      { r with message := "invalid stage option: " ++ r.message, causes := .stageOption :: r.causes }
  let stats ← match st.option? "stats" with
    | none => pure false
    | some v => (Read.parseBool v).mapError fun _ => badOption ("stats=" ++ Quote.text v)
  return Filter.note fun _ e =>
    match decode S e with
    | .error r => .ok (dropped e r)
    | .ok edge =>
      if edge.isStats && !stats then .ok (false, [])
      else
        let ctx := edge.context
        .ok (prefilter.allows ctx && ev.matches? ctx, [])

/-- Registers the four edge stage kinds, which read edge values in the serial form `S` and
prefilters by the token codec `P`. -/
def registerStages (S : Serial Stored) (P : TokenCodec Prefilter) (r : Registry) : Registry :=
  ((r.register "date-range" dateRangeFilter).register "load-date" (loadDateFilter S)
    |>.register "date-type" dateTypeFilter).register "expression" (expressionFilter S P)

end EdgeQuery.Edge
