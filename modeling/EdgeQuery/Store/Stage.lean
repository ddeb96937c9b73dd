import EdgeQuery.Report
import EdgeQuery.Text.Quote
/-! # Filter stages

A scan passes the entries it reads through filter stages. A stage has a priority (stages
run from the lowest priority up, equal priorities in the order given), a name, a kind that
says which filter to build, and text options.

A stage is written `priority:name(kind){key=value,...}` with its options sorted by key.
A stage that cannot be built is reported with its name and kind in front of the reason. -/

namespace EdgeQuery.Store

/-- A filter stage of a scan. -/
structure Stage where
  priority : Int := 0
  name : String
  kind : String
  /-- The options, each key once. -/
  options : List (String × String) := []
  deriving DecidableEq, Inhabited, Repr

namespace Stage

/-- The options sorted by key. -/
def sortedOptions (s : Stage) : List (String × String) :=
  s.options.mergeSort fun a b => a.1 ≤ b.1

/-- The value of an option, if it is set. -/
def option? (s : Stage) (key : String) : Option String :=
  (s.options.find? (·.1 == key)).map (·.2)

/-- Sets an option, replacing any value it had. -/
def setOption (s : Stage) (key value : String) : Stage :=
  { s with options := (s.options.filter (·.1 != key)) ++ [(key, value)] }

/-- Removes an option. -/
def eraseOption (s : Stage) (key : String) : Stage :=
  { s with options := s.options.filter (·.1 != key) }

/-- The text of a stage: `priority:name(kind){key=value,...}`. -/
def render (s : Stage) : String :=
  toString s.priority ++ ":" ++ s.name ++ "(" ++ s.kind ++ ")\x7b" ++
    ",".intercalate (s.sortedOptions.map fun (k, v) => k ++ "=" ++ v) ++ "\x7d"

/-- A stage that cannot be built: the stage's name and kind, then the reason. -/
def failure (s : Stage) (reason : Report) : Report :=
  { reason with
    message := "stage " ++ s.name ++ " (" ++ s.kind ++ "): " ++ reason.message
    causes := .stage :: reason.causes.erase .stage }

/-- Stages in the order they run: by priority, equal priorities as given. -/
def runOrder (stages : List Stage) : List Stage :=
  stages.mergeSort fun a b => a.priority ≤ b.priority

end Stage

/-- The reason for a stage kind that no filter is known for. -/
def unknownKind (kind : String) : Report :=
  { message := "unknown stage kind: " ++ Quote.text kind, causes := [.unknownStage] }

/-- The reason for a stage option that is missing or wrong. -/
def badOption (detail : String) : Report :=
  { message := "invalid stage option: " ++ detail, causes := [.stageOption] }

end EdgeQuery.Store
