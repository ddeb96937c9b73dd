import EdgeQuery.Config.Basic
import EdgeQuery.Json.Decode
import EdgeQuery.Json.Write
/-! # Settings as JSON

Settings are written as a JSON object with their fields in a fixed order, leaving out
every field past the first three that is zero, false or empty; an added stage leaves out
an empty name and empty options, whose keys are written sorted.

Settings are read over a starting value, strictly: a member that names no field is a
fault, as is a value of the wrong kind, or a number that is not whole (for a whole-number
field) or out of range. Member names match fields exactly or else ignoring ASCII case. -/

namespace EdgeQuery

/-- The JSON form of an added stage. -/
def StageSpec.toJson (s : StageSpec) : Json :=
  .object ((if s.name.isEmpty then [] else [("name", .string s.name)]) ++ [("kind", .string s.kind)] ++
    (if s.options.isEmpty then []
     else [("options", .object ((s.options.mergeSort fun a b => a.1 ≤ b.1).map fun (k, v) => (k, .string v)))]))

namespace Config

/-- The JSON form of settings. -/
def toJson (c : Config) : Json :=
  let int (k : String) (n : Int) : List (String × Json) := if n = 0 then [] else [(k, Json.ofInt n)]
  let text (k v : String) : List (String × Json) := if v.isEmpty then [] else [(k, .string v)]
  .object ([("maxQueryTerms", Json.ofInt c.maxQueryTerms), ("maxPrefilterValues", Json.ofInt c.maxPrefilterValues),
      ("basePriority", Json.ofInt c.basePriority)] ++
    int "dateFilterSkipLimit" c.dateFilterSkipLimit ++ int "dateFilterScanLimit" c.dateFilterScanLimit ++
    int "maxRangesPerUnit" c.maxRangesPerUnit ++ int "maxBranches" c.maxBranches ++
    (if c.includeStats then [("includeStats", .bool true)] else []) ++
    text "excerptFields" c.excerptFields ++
    (if c.excerptRate == 0 then [] else [("excerptRatePerSecond", .number (FloatStyle.json.render c.excerptRate))]) ++
    int "evalWorkers" c.evalWorkers ++ text "checkpointTtl" c.checkpointTtl ++
    text "checkpointSweepCron" c.checkpointSweepCron ++ text "logLevel" c.logLevel ++
    (if c.customStages.isEmpty then [] else [("customStages", .array (c.customStages.map StageSpec.toJson))]))

/-- The decoder of added stages. -/
def stageDecoder : Json.Decoder StageSpec :=
  Json.Decoder.structured "StageConfig" "config.StageConfig" true [
    ⟨"name", fun p j s => (fun v => { s with name := v }) <$> Json.Decoder.text p j s.name⟩,
    ⟨"kind", fun p j s => (fun v => { s with kind := v }) <$> Json.Decoder.text p j s.kind⟩,
    ⟨"options", fun p j s => (fun v => { s with options := v }) <$>
      Json.Decoder.map "map[string]string" Json.Decoder.text "" p j s.options⟩]

/-- A whole-number field. -/
def intField (name : String) (get : Config → Int) (set : Config → Int → Config) (typeName : String := "int") :
    Json.Decoder.Field Config :=
  ⟨name, fun p j c => set c <$> Json.Decoder.int64 typeName p j (get c)⟩

/-- A text field. -/
def textField (name : String) (get : Config → String) (set : Config → String → Config) :
    Json.Decoder.Field Config :=
  ⟨name, fun p j c => set c <$> Json.Decoder.text p j (get c)⟩

/-- The decoder of settings. -/
def decoder : Json.Decoder Config :=
  Json.Decoder.structured "Config" "config.Config" true [
    intField "maxQueryTerms" (·.maxQueryTerms) fun c v => { c with maxQueryTerms := v },
    intField "maxPrefilterValues" (·.maxPrefilterValues) fun c v => { c with maxPrefilterValues := v },
    intField "basePriority" (·.basePriority) fun c v => { c with basePriority := v },
    intField "dateFilterSkipLimit" (·.dateFilterSkipLimit) fun c v => { c with dateFilterSkipLimit := v },
    intField "dateFilterScanLimit" (·.dateFilterScanLimit) (fun c v => { c with dateFilterScanLimit := v }) "int64",
    intField "maxRangesPerUnit" (·.maxRangesPerUnit) fun c v => { c with maxRangesPerUnit := v },
    intField "maxBranches" (·.maxBranches) fun c v => { c with maxBranches := v },
    ⟨"includeStats", fun p j c => (fun v => { c with includeStats := v }) <$> Json.Decoder.truth p j c.includeStats⟩,
    textField "excerptFields" (·.excerptFields) fun c v => { c with excerptFields := v },
    ⟨"excerptRatePerSecond", fun p j c => (fun v => { c with excerptRate := v }) <$>
      Json.Decoder.binary64 p j c.excerptRate⟩,
    intField "evalWorkers" (·.evalWorkers) fun c v => { c with evalWorkers := v },
    textField "checkpointTtl" (·.checkpointTtl) fun c v => { c with checkpointTtl := v },
    textField "checkpointSweepCron" (·.checkpointSweepCron) fun c v => { c with checkpointSweepCron := v },
    textField "logLevel" (·.logLevel) fun c v => { c with logLevel := v },
    ⟨"customStages", fun p j c => (fun v => { c with customStages := v }) <$>
      Json.Decoder.list "[]config.StageConfig" stageDecoder {} p j c.customStages⟩]

/-- Reads settings from JSON over a starting value. -/
def ofJson (start : Config) (j : Json) : Except String Config := (decoder {} j start).result

end Config

end EdgeQuery
