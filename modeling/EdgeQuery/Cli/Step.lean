import EdgeQuery.Cli.Commands
import EdgeQuery.Cli.World
import EdgeQuery.Cli.Forms
import EdgeQuery.Cli.Codec
import EdgeQuery.Config.Store
import EdgeQuery.Plan.Engine
import EdgeQuery.Edge.Stages
import EdgeQuery.Excerpt.Stage
import EdgeQuery.Log.Filter
import EdgeQuery.Text.Tabwriter
/-! # Running a command

A command runs in steps over what it has done so far: the world as it has left it, what it
printed on standard output and on standard error, the log levels, and the settings once
they are loaded. A step may fail with a message; what was printed and done before stays.

Log events go to standard error through the level filter: each event is written when its
component's level (or the default level, for events of no component) allows it.

The settings are loaded once per run, from the file the `--config` flag names or else
from the home directory, where the defaults are saved when there are none. Unless the
`--log-level` flag was given, the settings' log level then takes effect.

An edge database is opened from the file the `--db` flag names or else the home
directory's. A session is an open database with an engine over it: the stage kinds every
added stage names must be known before it opens, and the engine keeps its checkpoints in
the database. -/

namespace EdgeQuery.Cli

open Plan Store

/-- What a run has done so far. -/
structure Progress where
  world : World
  out : String := ""
  err : String := ""
  levels : Log.Levels := {}
  settings : Option Config := none

/-- A step of a run. -/
abbrev Step := ExceptT String (StateM Progress)

/-- Prints on standard output. -/
def print (s : String) : Step Unit := modify fun p => { p with out := p.out ++ s }

/-- Prints on standard error. -/
def printErr (s : String) : Step Unit := modify fun p => { p with err := p.err ++ s }

/-- Logs an event. -/
def logEvent (e : Log.Event) : Step Unit :=
  modify fun p => { p with err := p.err ++ Log.Logger.emit p.levels {} e }

/-- Logs events in order. -/
def logAll (es : List Log.Event) : Step Unit := es.forM logEvent

/-- An event of no component. -/
def event (level : Log.Level) (message : String) (attrs : List (String × Log.Value)) : Log.Event :=
  { level, message, attrs }

/-- Takes the value of an outcome, or fails with its message. -/
def check {α : Type} (x : Except String α) : Step α :=
  match x with
  | .ok a => pure a
  | .error e => throw e

/-- Takes the value of an outcome, or fails with its report's message. -/
def checkReport {α : Type} (x : Except Report α) : Step α := check (x.mapError (·.message))

/-- The world as it is now. -/
def world : Step World := return (← get).world

/-- Replaces the world. -/
def setWorld (w : World) : Step Unit := modify fun p => { p with world := w }

/-- The day of the run, in days since 1970-01-01. -/
def today : Step Int := return (← world).now.seconds.fdiv 86400

/-- Sets the log levels from a setting. -/
def configureLevels (spec : String) : Step Unit := do
  let ls ← check (Log.Levels.parse spec)
  modify fun p => { p with levels := ls }

/-- Patterns as a list is shown in failures: each quoted, in brackets. -/
def quotedList (xs : List String) : String := "[" ++ " ".intercalate (xs.map Quote.text) ++ "]"

/-- Reads a file's bytes. -/
def readBytes (path : String) : Step Bytes := do
  check (((← world).read path).mapError (·.message))

/-- Whether the output is to be JSON. -/
def wantsJson (p : Parsed) : Bool := p.text "output" "table" == "json"

/-- A value as indented JSON, on lines of its own. -/
def indentedJson (j : Json) : String := Json.render { indent := true } j ++ "\n"

/-- A value as JSON on one line. -/
def jsonLine (j : Json) : String := Json.render {} j ++ "\n"

/-- Rows laid out in aligned columns, the header first. -/
def table (header : List String) (rows : List (List String)) : String := Tabwriter.table (header :: rows)

/-- Pairs laid out as `key:` and value in aligned columns. -/
def details (pairs : List (String × String)) : String :=
  Tabwriter.render (String.join (pairs.map fun (k, v) => k ++ ":\t" ++ v ++ "\n"))

/-! ### The home directory -/

/-- The home directory, made if it is not there. -/
def ensuredHome (p : Parsed) : Step String := do
  let w ← world
  let root ← check (w.home (p.text "home"))
  setWorld (← check (w.ensureHome root))
  return root

/-! ### Settings -/

/-- A settings file in the world. -/
structure SettingsIn where
  world : World
  path : String

instance : Keeper SettingsIn where
  load f :=
    match f.world.read f.path with
    | .ok b => SettingsFile.load f.path (some b)
    | .error e => if e.errno == .noEntry then .ok none else .error ("read config file: " ++ e.message)
  save today f c := do
    let b ← SettingsFile.save today c
    let w ← (f.world.mkdirAll (Path.dir f.path)).mapError fun e => "create config directory: " ++ e.message
    let w ← (w.write f.path b).mapError fun e => "rename config file: " ++ e.message
    return { f with world := w }

/-- The settings of the run. -/
def settings (p : Parsed) : Step Config := do
  if let some c := (← get).settings then return c
  let path ← match p.text "config" with
    | "" => do pure (Path.join [← ensuredHome p, "config.json"])
    | path => pure path
  let (c, kept) ← check ((Config.bootstrap (← today) (SettingsIn.mk (← world) path)).mapError
    fun e => "config " ++ path ++ ": " ++ e)
  setWorld kept.world
  if !p.changed "log-level" then configureLevels c.logLevel
  logEvent (event Log.debug "config loaded" [("path", .text path)])
  modify fun s => { s with settings := some c }
  return c

/-! ### Databases and sessions -/

/-- The stage kinds scans can use. -/
def registry : Registry :=
  Excerpt.registerStage offsetsSerial (Edge.registerStages storedSerial prefilterTokens {})

/-- Checks that every added stage names a known kind. -/
def checkKinds (c : Config) : Step Unit := do
  let known := registry.kinds
  match c.stageKinds.find? (!known.contains ·) with
  | some kind =>
    throw ("custom stage kind " ++ Quote.text kind ++ " is not registered (known: [" ++ " ".intercalate known ++ "])")
  | none => pure ()

/-- The path of the edge database. -/
def databasePath (p : Parsed) : Step String := do
  match p.text "db" with
  | "" => do pure (Path.join [← ensuredHome p, "sieve.db"])
  | path => pure path

/-- Opens the edge database: its path and what it holds. -/
def openDatabase (p : Parsed) (readOnly : Bool) : Step (String × Database) := do
  let path ← databasePath p
  let (d, w) ← check ((← world).openDatabase path readOnly)
  setWorld w
  logEvent (Log.Event.scoped "store" Log.debug "store opened" [("path", .text path), ("read_only", .bool readOnly)])
  return (path, d)

/-- An open database with its engine. -/
structure Session where
  path : String
  engine : Engine

/-- Opens a session. -/
def openSession (p : Parsed) : Step Session := do
  let c ← settings p
  checkKinds c
  let (path, d) ← openDatabase p false
  let w ← world
  let engine : Engine := { table := d.table, registry := registry
                           checkpointStore := some (.persisted checkpointSerial d.checkpoints), now := w.now, tag := w.tag }
  return ⟨path, engine⟩

/-- The stored checkpoints of a session. -/
def Session.records (s : Session) : List (Uuid × Bytes) :=
  match s.engine.checkpointStore with
  | some (.persisted _ rs) => rs
  | _ => []

/-- Writes what a session holds back to its database. -/
def Session.keep (s : Session) : Step Unit := do
  setWorld ((← world).keepDatabase s.path { table := s.engine.table, checkpoints := s.records })

/-- The checkpoint store of a session. -/
def Session.store (s : Session) : CheckpointStore := .persisted checkpointSerial s.records

/-- Replaces the checkpoint store of a session and keeps it. -/
def Session.withStore (s : Session) (store : CheckpointStore) : Step Session := do
  let s := { s with engine := { s.engine with checkpointStore := some store } }
  s.keep
  return s

end EdgeQuery.Cli
