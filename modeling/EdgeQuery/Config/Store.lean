import EdgeQuery.Config.Form
/-! # Keeping settings

Settings are kept in memory or in a file. A keeper may hold no settings yet; saving
refuses invalid settings.

A settings file holds the JSON object `{"version": 1, "config": {...}}`, written indented
and followed by a line feed. Reading it is strict; a version of zero (or none) is refused,
as is one newer than 1, while a negative version is taken as it is. A file whose `config`
is missing or null holds no settings, and one that names some fields leaves the others at
zero, not at their defaults.

Starting up loads the settings; when there are none, the defaults are saved and used. The
settings used must be valid. Validity depends on the day (days since 1970-01-01), since a
sweep schedule must run within a few years. -/

namespace EdgeQuery

/-- A place settings are kept. -/
class Keeper (σ : Type) where
  /-- The settings kept, if any. -/
  load : σ → Except String (Option Config)
  /-- Keeps settings, checked on the given day. -/
  save : Int → σ → Config → Except String σ

/-- Loads the settings, saving and using the defaults when there are none; they must be
valid. -/
def Config.bootstrap {σ : Type} [Keeper σ] (today : Int) (s : σ) : Except String (Config × σ) := do
  let found ← (Keeper.load s).mapError ("load config: " ++ ·)
  let (c, s) ← match found with
    | some c => pure (c, s)
    | none => do
      let s ← (Keeper.save today s Config.defaults).mapError ("save default config: " ++ ·)
      pure (Config.defaults, s)
  (c.validate today).mapError ("invalid config: " ++ ·)
  return (c, s)

/-- Checks settings before they are kept. -/
def Config.checkSave (today : Int) (c : Config) : Except String Unit :=
  (c.validate today).mapError ("refusing to save invalid config: " ++ ·)

/-- Settings kept in memory. -/
structure MemoryKeeper where
  saved : Option Config := none
  deriving Inhabited

instance : Keeper MemoryKeeper where
  load m := .ok m.saved
  save today _ c := do Config.checkSave today c; return { saved := some c }

namespace SettingsFile

/-- The version of the file format. -/
def version : Int := 1

/-- What a file holds: its version and its settings, if any. -/
structure Envelope where
  version : Int := 0
  config : Option Config := none

/-- The decoder of a file. -/
def decoder : Json.Decoder Envelope :=
  Json.Decoder.structured "envelope" "file.envelope" true [
    ⟨"version", fun p j e => (fun v => { e with version := v }) <$> Json.Decoder.int64 "int" p j e.version⟩,
    ⟨"config", fun p j e =>
      match j with
      | .null => pure { e with config := none }
      | j => (fun c => { e with config := some c }) <$> Config.decoder p j (e.config.getD {})⟩]

/-- Reads the settings of a file's text. -/
def read (data : Bytes) : Except String (Option Config) := do
  let e ← Json.decodeText decoder {} data
  if e.version = 0 then
    throw ("unversioned config; expected \x7b\"version\": " ++ toString version ++ ", \"config\": \x7b...\x7d\x7d")
  if e.version > version then
    throw ("config version " ++ toString e.version ++ " is newer than supported version " ++ toString version)
  return e.config

/-- The text of a file holding settings. -/
def render (c : Config) : Bytes :=
  Bytes.ofString (Json.render { indent := true }
    (.object [("version", Json.ofInt version), ("config", c.toJson)]) ++ "\n")

/-- Loads the settings of the file at `path`, given its text if it exists. -/
def load (path : String) (content : Option Bytes) : Except String (Option Config) :=
  match content with
  | none => .ok none
  | some data => (read data).mapError fun e => "parse config file " ++ path ++ ": " ++ e

/-- The text to write for settings, when they are valid. -/
def save (today : Int) (c : Config) : Except String Bytes := do
  Config.checkSave today c
  return render c

end SettingsFile

/-- Settings kept in a file: its path and its text, if it exists. -/
structure FileKeeper where
  path : String
  content : Option Bytes := none

instance : Keeper FileKeeper where
  load f := SettingsFile.load f.path f.content
  save today f c := do return { f with content := some (← SettingsFile.save today c) }

end EdgeQuery
