import EdgeQuery.Text.Bytes
/-! # Log events

Operations that degrade quietly, or that pass a milestone, say so with a log event: a
level, a message and attributes. Levels are whole numbers; the named ones are `debug`
(-4), `info` (0), `warn` (4) and `error` (8), and any number between is a level too. A
component scopes its events by a `component` attribute in front of the others. -/

namespace EdgeQuery.Log

/-- The severity of an event; higher is more severe. -/
abbrev Level := Int

def debug : Level := -4
def info : Level := 0
def warn : Level := 4
def error : Level := 8

/-- The value of an attribute. -/
inductive Value where
  | text (s : String)
  | int (n : Int)
  | bool (b : Bool)
  deriving DecidableEq, Inhabited, Repr

/-- A log event. -/
structure Event where
  level : Level
  message : String
  attrs : List (String × Value) := []
  deriving Inhabited, Repr

/-- The attribute key that names a component. -/
def componentKey : String := "component"

/-- An event of a component. -/
def Event.scoped (component : String) (level : Level) (message : String)
    (attrs : List (String × Value) := []) : Event :=
  { level, message, attrs := (componentKey, .text component) :: attrs }

/-- The component of an event: the value of its first `component` attribute. -/
def Event.component (e : Event) : Option String :=
  (e.attrs.find? (·.1 == componentKey)).map fun
    | (_, .text s) => s
    | (_, .int n) => toString n
    | (_, .bool b) => toString b

end EdgeQuery.Log
