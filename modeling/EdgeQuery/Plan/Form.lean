import EdgeQuery.Plan.Compile
import EdgeQuery.Edge.Form
import EdgeQuery.Cli.Codec
/-! # JSON forms of plans and entries

A unit travels as `{"ranges", "stages", "column_families", "last_key"}`; written, a stage
with a `prefilter` option shows it decoded as `"prefilter"` (or `{"error": ...}` when it
does not decode) instead of among its options. Limits travel as `{"max_query_terms",
"max_prefilter_values", "base_priority", "max_branches", "date_filter_skip_limit",
"date_filter_scan_limit", "max_ranges_per_unit", "custom_stages"}`, missing members taking
their defaults, and parameters as `{"begin", "end", "date_type", "include_stats",
"stages"}` with `yyyymmdd` dates.

An entry is read from `{"key", "value_hex"}`, from `{"key", "offsets"}` (a term entry
holding the sorted offsets) or from `{"edge"}`; a scanned entry is written as `{"key"}`,
with `"edge"` added when it decodes as an edge. Values are in the command line's serial
forms. -/

namespace EdgeQuery.Plan

open Store

/-- The JSON form of a stage, its prefilter shown decoded. -/
def stageJson (s : Stage) : Json :=
  match s.option? "prefilter" with
  | none => s.toJson
  | some t => s.toJson ["prefilter"] [("prefilter", match Edge.Prefilter.decode Cli.prefilterTokens t with
      | .ok p => p.toJson
      | .error r => .object [("error", .string r.message)])]

/-- The JSON form of a unit. -/
def ScanUnit.toJson (u : ScanUnit) : Json :=
  .object [("ranges", .array (u.ranges.map Range.toJson)), ("stages", .array (u.stages.map stageJson)),
    ("column_families", .array (u.families.map Bytes.toJson)),
    ("last_key", match u.lastKey with | some k => k.toJson | none => .null)]

/-- Reads a unit. -/
def ScanUnit.ofJson (j : Json) : ScanUnit :=
  { ranges := (j.get "ranges").items.map Range.ofJson, stages := (j.get "stages").items.map Stage.ofJson
    families := (j.get "column_families").items.map Bytes.ofJson
    lastKey := if j.has "last_key" then some (Key.ofJson (j.get "last_key")) else none }

/-- Reads limits. -/
def Limits.ofJson (j : Json) : Limits :=
  let d (k : String) (x : Int) : Int := if j.has k then (j.get k).int else x
  { maxQueryTerms := d "max_query_terms" 50, maxPrefilterValues := d "max_prefilter_values" 10
    basePriority := d "base_priority" 30, maxBranches := d "max_branches" 256
    dateFilterSkipLimit := (j.get "date_filter_skip_limit").int
    dateFilterScanLimit := (j.get "date_filter_scan_limit").int
    maxRangesPerUnit := (j.get "max_ranges_per_unit").int
    customStages := (j.get "custom_stages").items.map Stage.ofJson }

/-- The JSON form of limits. -/
def Limits.toJson (l : Limits) : Json :=
  .object [("base_priority", Json.ofInt l.basePriority), ("custom_stages", .array (l.customStages.map (·.toJson))),
    ("date_filter_scan_limit", Json.ofInt l.dateFilterScanLimit),
    ("date_filter_skip_limit", Json.ofInt l.dateFilterSkipLimit), ("max_branches", Json.ofInt l.maxBranches),
    ("max_prefilter_values", Json.ofInt l.maxPrefilterValues), ("max_query_terms", Json.ofInt l.maxQueryTerms),
    ("max_ranges_per_unit", Json.ofInt l.maxRangesPerUnit)]

/-- Reads a `yyyymmdd` date member, if present. -/
def dateMember (j : Json) (k : String) : Except String (Option Date) :=
  if !j.has k then .ok none
  else
    match Date.parse? (j.get k).text with
    | some d => .ok (some d)
    | none => .error ("bad date " ++ (j.get k).text)

/-- Reads parameters. -/
def Params.ofJson (j : Json) : Except String Params := do
  return { beginDate := ← dateMember j "begin", endDate := ← dateMember j "end", dateType := (j.get "date_type").text
           includeStats := (j.get "include_stats").truth, stages := (j.get "stages").items.map Stage.ofJson }

/-- Reads an entry of a request, where it sits at `place`; an edge without a date is dated
`undated`. -/
def entryOfJson (place : Json.Place) (undated : Date) (j : Json) : Except String Entry := do
  if j.has "edge" then
    return (← Edge.ofJson { place with path := place.path ++ ["edge"] } undated (j.get "edge")).entry
      Cli.storedSerial
  let k := Key.ofJson (j.get "key")
  if j.has "offsets" then
    return ⟨k, Cli.offsetsSerial.write (((j.get "offsets").items.map Json.int).mergeSort (· ≤ ·))⟩
  match Bytes.ofHex? (j.get "value_hex").text with
  | some v => return ⟨k, v⟩
  | none => throw "bad hex"

/-- The JSON form of a scanned entry. -/
def scannedJson (e : Entry) : Json :=
  .object ([("key", e.key.toJson)] ++ match Edge.decode Cli.storedSerial e with
    | .ok edge => [("edge", edge.toJson)]
    | .error _ => [])

end EdgeQuery.Plan
