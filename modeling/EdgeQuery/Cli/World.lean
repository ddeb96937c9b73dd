import EdgeQuery.System.Glob
import EdgeQuery.Plan.Checkpoint
import EdgeQuery.Store.Table
/-! # The world a command runs in

A command sees a tree of files, the environment, a working directory, the time and a tag
that tells the identifiers it makes from those of other runs. Files hold bytes or an edge
database: the database's entries and its stored checkpoints.

The home directory holds the settings (`config.json`) and the database (`sieve.db`). It is
the directory the `--home` flag names, else `$SIEVE_HOME`, else `sieve` in the user's
configuration directory (`$XDG_CONFIG_HOME`, which must be absolute, or else
`$HOME/.config`).

Patterns of file names are taken from the working directory; what they match is every
regular file, by absolute path, sorted and each once. -/

namespace EdgeQuery.Cli

open Plan Store

/-- An edge database: its entries, and its stored checkpoints by id. -/
structure Database where
  table : Table := {}
  checkpoints : List (Uuid × Bytes) := []
  deriving Inhabited

/-- What a file holds. -/
inductive Content where
  | bytes (b : Bytes)
  | database (d : Database)
  deriving Inhabited

/-- The bytes a file reads as; a database is not read as text and reads as nothing. -/
def Content.text : Content → Bytes
  | .bytes b => b
  | .database _ => []

/-- The world a command runs in. -/
structure World where
  files : Files.Tree Content := {}
  env : List (String × String) := []
  cwd : String := "/"
  now : Instant := ⟨0, 0⟩
  /-- Tells the identifiers made in this run from those of other runs. -/
  tag : Nat := 1
  deriving Inhabited

namespace World

/-- The value of an environment variable; an unset one is empty. -/
def getenv (w : World) (name : String) : String := (w.env.lookup name).getD ""

/-- The user's configuration directory. -/
def userConfigDir (w : World) : Except String String :=
  let xdg := w.getenv "XDG_CONFIG_HOME"
  if xdg.isEmpty then
    let home := w.getenv "HOME"
    if home.isEmpty then .error "neither $XDG_CONFIG_HOME nor $HOME are defined"
    else .ok (home ++ "/.config")
  else if !Path.isAbs xdg then .error "path in $XDG_CONFIG_HOME is relative"
  else .ok xdg

/-- The home directory, given the `--home` flag. -/
def home (w : World) (given : String) : Except String String :=
  if !given.isEmpty then .ok (Path.clean given)
  else
    let fromEnv := w.getenv "SIEVE_HOME"
    if !fromEnv.isEmpty then .ok (Path.clean fromEnv)
    else
      match w.userConfigDir with
      | .ok base => .ok (Path.join [base, "sieve"])
      | .error e => .error ("resolve home directory: no SIEVE_HOME and no user config directory: " ++ e)

/-- Makes a directory and its parents. -/
def mkdirAll (w : World) (path : String) : Except Files.IoError World := do
  return { w with files := ← w.files.mkdirAll w.cwd path }

/-- Makes the home directory. -/
def ensureHome (w : World) (root : String) : Except String World :=
  if root.isEmpty || root == "." then .error "home directory not set"
  else (w.mkdirAll root).mapError fun e => "create home directory " ++ root ++ ": " ++ e.message

/-- Reads a file. -/
def read (w : World) (path : String) : Except Files.IoError Bytes := (w.files.readFile w.cwd path).map Content.text

/-- Creates or replaces a file in an existing directory. -/
def write (w : World) (path : String) (b : Bytes) : Except Files.IoError World := do
  return { w with files := ← w.files.writeFile w.cwd path (.bytes b) }

/-- Whether a path is a regular file. -/
def isFile (w : World) (path : String) : Bool :=
  match w.files.stat w.cwd path with
  | .ok (.file _) => true
  | _ => false

/-- The regular files that patterns match: absolute paths, sorted, each once. A malformed
pattern fails with its absolute form. -/
def discover (w : World) (patterns : List String) : Except String (List String) := do
  let found ← patterns.mapM fun pat =>
    let full := if Path.isAbs pat then pat else Path.join [w.cwd, pat]
    match Glob.glob w.files full with
    | none => .error ("glob " ++ full ++ ": syntax error in pattern")
    | some ms => .ok (ms.filter w.isFile)
  return (found.flatten.mergeSort (· ≤ ·)).eraseDups

/-- Opens the database at a path. Opened for writing, a database is created where there
is none; opened for reading, it must exist. -/
def openDatabase (w : World) (path : String) (readOnly : Bool) : Except String (Database × World) :=
  let failed (why : String) : Except String (Database × World) := .error ("open " ++ path ++ ": " ++ why)
  let create : Except String (Database × World) :=
    match w.files.writeFile w.cwd path (.database {}) with
    | .ok t => .ok ({}, { w with files := t })
    | .error e => failed e.message
  match w.files.stat w.cwd path with
  | .ok (.file (.database d)) => .ok (d, w)
  | .ok (.file (.bytes b)) => if b.isEmpty then create else failed "invalid database"
  | .ok .dir => if readOnly then failed "invalid database" else failed ("open " ++ path ++ ": is a directory")
  | .error e => if readOnly then failed ("open " ++ path ++ ": " ++ e.text) else create

/-- Writes files at paths relative to a directory, making the directories they need. -/
def populate (w : World) (dir : String) (files : List (String × Bytes)) : World :=
  files.foldl (fun w (p, b) =>
    let f := Path.join [dir, p]
    match w.mkdirAll (Path.dir f) >>= fun w => w.write f b with
    | .ok w => w
    | .error _ => w) ((w.mkdirAll dir).toOption.getD w)

/-- Sets environment variables, or unsets those given no value. -/
def withEnv (w : World) (changes : List (String × Option String)) : World :=
  { w with env := changes.foldl (fun e (k, v) => e.filter (·.1 != k) ++ v.toList.map fun v => (k, v)) w.env }

/-- Keeps a database at a path. -/
def keepDatabase (w : World) (path : String) (d : Database) : World :=
  { w with files := w.files.set (Path.components (Path.absolute w.cwd path)) (.file (.database d)) }

end World

end EdgeQuery.Cli
