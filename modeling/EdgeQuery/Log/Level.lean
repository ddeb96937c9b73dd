import EdgeQuery.Log.Event
import EdgeQuery.Number.Read
import EdgeQuery.Text.Unicode.Case
/-! # Level names and level settings

A level is written as the named level at or below it, followed by its distance from that
level when there is one: `DEBUG-4`, `INFO`, `WARN+1`, `ERROR+2`. Levels below `INFO` are
counted from `DEBUG`, so `-8` is `DEBUG-4`.

A level is read back from a name in any letter case, optionally followed by a signed
distance: `info`, `Warn+3`, `error-8` (which is `INFO`). Levels are 64-bit whole numbers, and
adding the distance wraps around.

A level setting is a comma-separated list of entries, each a level (the default) or
`component=level`; blanks around entries, names and levels are ignored, empty entries are
skipped, and the last entry of a kind wins. The default is `INFO` when none is given. -/

namespace EdgeQuery.Log

/-- Wraps a whole number into the 64-bit range. -/
def wrapLevel (n : Int) : Level := (Int64.ofInt n).toInt

/-- A level's distance from a named level, with its sign, or nothing when it is zero. -/
def offsetText (d : Int) : String :=
  if d = 0 then "" else if d > 0 then "+" ++ toString d else toString d

/-- The name of a level. -/
def levelName (l : Level) : String :=
  if l < info then "DEBUG" ++ offsetText (wrapLevel (l - debug))
  else if l < warn then "INFO" ++ offsetText (l - info)
  else if l < error then "WARN" ++ offsetText (l - warn)
  else "ERROR" ++ offsetText (l - error)

/-- The level of a name, in upper case. -/
def namedLevel? : String → Option Level
  | "DEBUG" => some debug
  | "INFO" => some info
  | "WARN" => some warn
  | "ERROR" => some error
  | _ => none

/-- Reads a level: a name, then optionally a signed distance. -/
def parseLevel (s : String) : Except String Level :=
  let fail (why : String) : Except String Level := .error ("slog: level string " ++ Quote.text s ++ ": " ++ why)
  let cs := s.toList
  let name := cs.takeWhile fun c => c != '+' && c != '-'
  let distance : Except String Int :=
    if name.length = cs.length then .ok 0
    else (Read.atoi (String.ofList (cs.drop name.length))).mapError NumberError.message
  match distance with
  | .error e => fail e
  | .ok d =>
    match namedLevel? (String.ofList (name.map Unicode.toUpper)) with
    | some l => .ok (wrapLevel (l + d))
    | none => fail "unknown name"

/-- A default level and the levels set for single components, in name order. -/
structure Levels where
  default : Level := info
  components : List (String × Level) := []
  deriving Inhabited, Repr

namespace Levels

/-- Sets the level of a component. -/
def set (ls : Levels) (component : String) (l : Level) : Levels :=
  let others := ls.components.filter (·.1 != component)
  { ls with components := (others ++ [(component, l)]).mergeSort fun a b => a.1 ≤ b.1 }

/-- Removes the level of a component, which then has the default level. -/
def clear (ls : Levels) (component : String) : Levels :=
  { ls with components := ls.components.filter (·.1 != component) }

/-- The level of a component. -/
def get (ls : Levels) (component : String) : Level :=
  (ls.components.lookup component).getD ls.default

/-- The lowest level of all: below it no component logs. -/
def lowest (ls : Levels) : Level :=
  ls.components.foldl (fun m (_, l) => min m l) ls.default

/-- Reads one entry of a setting into the levels. -/
def readEntry (ls : Levels) (entry : String) : Except String Levels :=
  let entry := Unicode.trimSpace entry
  let fail (why : String) : Except String Levels := .error ("log level " ++ Quote.text entry ++ ": " ++ why)
  if entry.isEmpty then .ok ls
  else
    match entry.splitOn "=" with
    | [] | [_] =>
      match parseLevel (Unicode.trimSpace entry) with
      | .ok l => .ok { ls with default := l }
      | .error e => fail e
    | name :: rest =>
      match parseLevel (Unicode.trimSpace ("=".intercalate rest)) with
      | .error e => fail e
      | .ok l =>
        let name := Unicode.trimSpace name
        if name.isEmpty then fail "missing component" else .ok (ls.set name l)

/-- Reads a level setting. -/
def parse (spec : String) : Except String Levels := (spec.splitOn ",").foldlM readEntry {}

end Levels

example : levelName (-8) = "DEBUG-4" := by decide
example : levelName 10 = "ERROR+2" := by decide

end EdgeQuery.Log
