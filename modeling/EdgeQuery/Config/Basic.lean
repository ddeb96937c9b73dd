import EdgeQuery.Plan.Compile
import EdgeQuery.Excerpt.Fields
import EdgeQuery.Log.Level
import EdgeQuery.Duration
import EdgeQuery.Schedule
import EdgeQuery.Number.FloatText
/-! # Settings

The settings of the tools: the limits queries compile within, the excerpt fields and
rate, the number of evaluation workers, how long checkpoints are kept and when expired
ones are swept, the log levels, and stages added to every plan.

The zero settings (every number zero, every text empty) are what a settings file that
names nothing holds; the defaults are those of a fresh installation. Settings are valid
when the query term limit is positive, no other limit, rate or count is negative, the
excerpt fields, the retention time, the sweep schedule and the log levels read, and every
added stage has a kind and a name no other added stage has. -/

namespace EdgeQuery

/-- A stage added to every plan. -/
structure StageSpec where
  /-- The stage name; the kind when empty. -/
  name : String := ""
  kind : String := ""
  options : List (String × String) := []
  deriving Inhabited, Repr

/-- The name a stage is known by. -/
def StageSpec.effectiveName (s : StageSpec) : String := if s.name.isEmpty then s.kind else s.name

/-- Settings. -/
structure Config where
  maxQueryTerms : Int := 0
  maxPrefilterValues : Int := 0
  basePriority : Int := 0
  dateFilterSkipLimit : Int := 0
  dateFilterScanLimit : Int := 0
  maxRangesPerUnit : Int := 0
  maxBranches : Int := 0
  includeStats : Bool := false
  excerptFields : String := ""
  /-- Excerpt lookups per second; zero or less is no limit. -/
  excerptRate : Float := 0
  evalWorkers : Int := 0
  /-- How long checkpoints are kept, as a duration text; empty keeps them. -/
  checkpointTtl : String := ""
  /-- When expired checkpoints are swept, as a cron schedule; empty never. -/
  checkpointSweepCron : String := ""
  logLevel : String := ""
  customStages : List StageSpec := []
  deriving Inhabited, Repr

namespace Config

/-- The settings of a fresh installation. -/
def defaults : Config :=
  { maxQueryTerms := 50, maxPrefilterValues := 10, basePriority := 30, maxBranches := 256
    excerptRate := 100, evalWorkers := 4, checkpointTtl := "24h", checkpointSweepCron := "*/15 * * * *"
    logLevel := "info" }

/-- Checks a sweep schedule, on the day `today` (days since 1970-01-01). -/
def checkCron (today : Int) (expr : String) : Except String Unit :=
  if expr.isEmpty then .ok ()
  else (Schedule.check expr today).mapError ("invalid cron expression: " ++ ·)

/-- The problems of an added stage, given the names of the stages before it. -/
def stageProblems (seen : List String) (i : Nat) (s : StageSpec) : List String × List String :=
  let at_ := "customStages[" ++ toString i ++ "]: "
  if (Unicode.trimSpace s.kind).isEmpty then ([at_ ++ "kind is required"], seen)
  else
    let name := s.effectiveName
    ((if seen.contains name then [at_ ++ "duplicate stage name " ++ Quote.text name] else []), name :: seen)

/-- The problems of settings, each `field: what`, in field order. -/
def problems (today : Int) (c : Config) : List String :=
  let check (ok : Bool) (field what : String) : List String := if ok then [] else [field ++ ": " ++ what]
  let notNegative (field : String) (n : Int) : List String :=
    check (n ≥ 0) field ("must not be negative, got " ++ toString n)
  let fromError (field : String) : Except String Unit → List String
    | .ok () => []
    | .error e => [field ++ ": " ++ e]
  check (c.maxQueryTerms > 0) "maxQueryTerms" ("must be positive, got " ++ toString c.maxQueryTerms) ++
  notNegative "maxPrefilterValues" c.maxPrefilterValues ++
  notNegative "basePriority" c.basePriority ++
  notNegative "dateFilterSkipLimit" c.dateFilterSkipLimit ++
  notNegative "dateFilterScanLimit" c.dateFilterScanLimit ++
  notNegative "maxRangesPerUnit" c.maxRangesPerUnit ++
  notNegative "maxBranches" c.maxBranches ++
  fromError "excerptFields" ((Excerpt.Fields.parse c.excerptFields).map (fun _ => ()) |>.mapError (·.message)) ++
  check (!decide (c.excerptRate < 0)) "excerptRatePerSecond"
    ("must not be negative, got " ++ FloatStyle.general.render c.excerptRate) ++
  notNegative "evalWorkers" c.evalWorkers ++
  (if c.checkpointTtl.isEmpty then []
   else match Duration.parse c.checkpointTtl with
     | .error e => ["checkpointTtl: " ++ e]
     | .ok d => check (d > 0) "checkpointTtl" "must be positive") ++
  fromError "checkpointSweepCron" (checkCron today c.checkpointSweepCron) ++
  fromError "logLevel" ((Log.Levels.parse c.logLevel).map fun _ => ()) ++
  (c.customStages.zipIdx.foldl (fun (acc, seen) (s, i) =>
    let (ps, seen) := stageProblems seen i s
    (acc ++ ps, seen)) ([], [])).1

/-- The failure of invalid settings: their problems, one a line; none when valid. -/
def validate (today : Int) (c : Config) : Except String Unit :=
  match c.problems today with
  | [] => .ok ()
  | ps => .error ("\n".intercalate ps)

/-- The limits queries compile within. -/
def limits (c : Config) : Plan.Limits :=
  { maxQueryTerms := c.maxQueryTerms, maxPrefilterValues := c.maxPrefilterValues
    basePriority := c.basePriority, dateFilterSkipLimit := c.dateFilterSkipLimit
    dateFilterScanLimit := c.dateFilterScanLimit, maxRangesPerUnit := c.maxRangesPerUnit
    maxBranches := c.maxBranches
    customStages := c.customStages.map fun s =>
      { name := s.effectiveName, kind := s.kind, options := s.options } }

/-- The excerpt fields. -/
def excerpts (c : Config) : Except Report Excerpt.Fields := Excerpt.Fields.parse c.excerptFields

/-- Whether excerpt lookups are rate limited. -/
def limited (c : Config) : Bool := c.excerptRate > 0

/-- How long checkpoints are kept, in nanoseconds; zero when they are kept for ever. -/
def retention (c : Config) : Int :=
  match Duration.parse c.checkpointTtl with
  | .ok d => if d ≤ 0 then 0 else d
  | .error _ => 0

/-- The kinds of the added stages, sorted, each once. -/
def stageKinds (c : Config) : List String :=
  ((c.customStages.map (·.kind)).mergeSort fun a b => a ≤ b).foldr
    (fun k acc => if acc.head? == some k then acc else k :: acc) []

end Config

end EdgeQuery
