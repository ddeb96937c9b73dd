import EdgeQuery.Cli.Run
import EdgeQuery.Cli.Archive
import Std.Time.DateTime.Timestamp
/-! # The command line

The program runs one command over the machine's files. Before the command runs, the files
it may touch are read into a world: every file an argument names, the settings and
database under every directory an argument names, and those of the home directory the
environment gives. The command runs over that world. Afterwards the directories it made
are made, every file it made or changed is written, and what it printed goes to standard
output and standard error. A failed command exits with status 1.

Patterns of file names match among the files read in: the file system is not listed. -/

namespace EdgeQuery.Cli

/-- The environment variables the tool reads. -/
def consulted : List String := ["SIEVE_HOME", "XDG_CONFIG_HOME", "HOME"]

/-- The paths an argument may name: itself, for `--flag=value` its value, and the
settings and database under each. -/
def namedPaths (arg : String) : List String :=
  let direct := match arg.splitOn "=" with
    | _ :: v :: more => [arg, "=".intercalate (v :: more)]
    | _ => [arg]
  direct ++ direct.flatMap fun p => [Path.join [p, "config.json"], Path.join [p, "sieve.db"]]

/-- The absolute paths of the files worth reading before a command runs. -/
def candidates (w : World) (args : List String) : List String :=
  let homes := (w.home "").toOption.toList.flatMap fun h => [Path.join [h, "config.json"], Path.join [h, "sieve.db"]]
  ((args.flatMap namedPaths).filter (!·.isEmpty) ++ homes).map (Path.absolute w.cwd) |>.eraseDups

/-- Puts a file into the world with the directories above it. -/
def withFile (w : World) (path : String) (c : Content) : World :=
  match w.mkdirAll (Path.dir path) with
  | .ok w' =>
    match w'.files.writeFile "/" path c with
    | .ok t => { w' with files := t }
    | .error _ => w
  | .error _ => w

/-- The absolute path of tree components. -/
def pathOf (p : List String) : String := "/" ++ "/".intercalate p

/-- The directories a run made: those of the world after it that were not there before. -/
def madeDirectories (before after : World) : List String :=
  after.files.nodes.filterMap fun (p, n) =>
    match n, before.files.find? p with
    | .dir, none => some (pathOf p)
    | _, _ => none

/-- The files a run made or changed, with the bytes to write. -/
def writtenFiles (before after : World) : List (String × Bytes) :=
  after.files.nodes.filterMap fun (p, n) =>
    match n with
    | .dir => none
    | .file c =>
      let b := Archive.bytes c
      match before.files.find? p with
      | some (.file old) => if Archive.bytes old == b then none else some (pathOf p, b)
      | _ => some (pathOf p, b)

/-- Reads a file, if it can be read. -/
def readIfThere (path : String) : IO (Option Bytes) := do
  try
    return some (← IO.FS.readBinFile path).toList
  catch _ =>
    return none

/-- The world of this machine for a command: the environment, the working directory,
the time, and the files the command may touch. -/
def snapshot (args : List String) : IO World := do
  let env ← consulted.filterMapM fun k => do return (← IO.getEnv k).map fun v => (k, v)
  let cwd := ((← IO.getEnv "PWD").filter Path.isAbs).getD "/"
  let ns := (← Std.Time.Timestamp.now).toNanosecondsSinceUnixEpoch.val
  let w : World := { env, cwd, now := ⟨ns.fdiv 1000000000, (ns.fmod 1000000000).toNat⟩,
                     tag := ns.toNat % Nat.pow 2 64 }
  let w := (w.mkdirAll cwd).toOption.getD w
  (candidates w args).foldlM (fun w path => do
    match ← readIfThere path with
    | some b => return withFile w path (Archive.content b)
    | none => return w) w

/-- Runs a command over this machine's files; the exit status is 1 when it fails. -/
def runOnMachine (args : List String) : IO UInt32 := do
  let before ← snapshot args
  let (outcome, after) := run before args true
  for d in madeDirectories before after do
    IO.FS.createDirAll d
  for (path, b) in writtenFiles before after do
    IO.FS.writeBinFile path b.toByteArray
  IO.print outcome.stdout
  IO.eprint outcome.stderr
  return if outcome.failure.isSome then 1 else 0

end EdgeQuery.Cli

/-- The command line of the tool. -/
def main (args : List String) : IO UInt32 := EdgeQuery.Cli.runOnMachine args
