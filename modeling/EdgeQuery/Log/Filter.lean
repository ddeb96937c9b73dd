import EdgeQuery.Log.Text
/-! # Filtering events by component

A filtered logger keeps an event when its level is at least the level set for the
event's component, or the default level when the component has none. The component of an
event is the value of its first `component` attribute, else the component bound to the
logger, else none (the default level applies).

Asked beforehand whether a level is wanted at all, a logger bound to a component answers
for that component; an unbound one cannot know the component of events to come and
answers whether the level reaches the lowest level set anywhere. So a wanted level is not
always kept, but a kept one is always wanted.

A logger without a writer filters all the same and writes nothing, and the discarding
logger wants nothing. -/

namespace EdgeQuery.Log

/-- The text of a value, as a component name. -/
def Value.plain : Value → String
  | .text s => s
  | .int n => toString n
  | .bool b => toString b

/-- A logger filtered by component levels. -/
structure Logger where
  /-- The component bound to the logger, or empty. -/
  component : String := ""
  /-- Where kept events are written, if anywhere. -/
  writer : Option TextWriter := some {}
  /-- The lowest level the writer accepts, if it has one. -/
  floor : Option Level := none
  /-- Whether the logger discards everything. -/
  discards : Bool := false
  deriving Inhabited, Repr

namespace Logger

/-- The logger that discards everything. -/
def discarding : Logger := { writer := none, discards := true }

/-- Binds attributes; a `component` attribute among them binds that component. -/
def withAttrs (lg : Logger) (attrs : List (String × Value)) : Logger :=
  { lg with
    component := attrs.foldl (fun c (k, v) => if k == componentKey then v.plain else c) lg.component
    writer := lg.writer.map (·.withAttrs attrs) }

/-- Opens a group for later attributes. -/
def withGroup (lg : Logger) (name : String) : Logger :=
  { lg with writer := lg.writer.map (·.withGroup name) }

/-- The logger of a component. -/
def forComponent (lg : Logger) (component : String) (attrs : List (String × Value) := []) : Logger :=
  lg.withAttrs ((componentKey, .text component) :: attrs)

/-- Whether events of a level are wanted. -/
def enabled (ls : Levels) (lg : Logger) (level : Level) : Bool :=
  let threshold := if lg.component.isEmpty then ls.lowest else ls.get lg.component
  !lg.discards && decide (threshold ≤ level) &&
    (lg.writer.isNone || lg.floor.all fun f => decide (f ≤ level))

/-- The component an event is filtered by. -/
def eventComponent (lg : Logger) (attrs : List (String × Value)) : String :=
  match attrs.find? (·.1 == componentKey) with
  | some (_, v) => v.plain
  | none => lg.component

/-- What logging an event writes. -/
def log (ls : Levels) (lg : Logger) (level : Level) (message : String) (attrs : List (String × Value)) :
    String :=
  if lg.enabled ls level && decide (ls.get (lg.eventComponent attrs) ≤ level) then
    (lg.writer.map (·.line level message attrs)).getD ""
  else ""

/-- What logging an event record writes. -/
def emit (ls : Levels) (lg : Logger) (e : Event) : String := lg.log ls e.level e.message e.attrs

end Logger

example : (Logger.forComponent {} "engine").log { components := [("engine", debug)] } debug "m" [] =
    "level=DEBUG msg=m component=engine\n" := by decide +kernel

end EdgeQuery.Log
