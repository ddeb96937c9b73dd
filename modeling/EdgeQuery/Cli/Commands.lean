import EdgeQuery.Cli.Flags
import EdgeQuery.Text.Bytes
/-! # The command tree

The tool's commands form a tree under the top command `sieve`: each command has a path of
names below the top, the flags it takes, the flags it hands down to the commands below it,
and how many arguments it takes. A group (such as `checkpoints`) does nothing itself and
only holds its subcommands.

Finding the command of a command line walks down the tree by the words that are not flags:
a word that names a subcommand goes one level down and is removed from the line. Words are
told from flag values by the flags the command reached so far knows: a flag that needs a
value and is written without `=` takes the next word as its value.

An unknown word at the top is refused and answered with the commands whose name is within
two edits of it, or begins with it. -/

namespace EdgeQuery.Cli

/-- How many arguments a command takes. -/
inductive Arity where
  /-- Any number; a group at the top refuses a first word that names no subcommand. -/
  | free
  /-- Exactly this many. -/
  | exactly (n : Nat)
  /-- None. -/
  | nothing
  /-- At least this many. -/
  | atLeast (n : Nat)
  deriving DecidableEq, Repr

/-- A command of the tree. -/
structure Command where
  /-- Its names below the top command. -/
  path : List String
  /-- What it does, in one line. -/
  summary : String := ""
  arity : Arity := .free
  /-- The flags only it takes. -/
  flags : List FlagSpec := []
  /-- The flags it takes and hands down to every command below it. -/
  inherited : List FlagSpec := []
  /-- Whether it runs; a group only holds subcommands. -/
  runs : Bool := true
  /-- Whether it is offered when a command name is mistyped. -/
  offered : Bool := true
  /-- The flags that must be given. -/
  required : List String := []
  deriving Repr

/-- The name of the top command. -/
def programName : String := "sieve"

/-- A text flag. -/
def textFlag (name : String) (short : Option Char := none) : FlagSpec := { name, short, kind := .text }
/-- A truth-value flag. -/
def truthFlag (name : String) : FlagSpec := { name, kind := .truth }
/-- A whole-number flag. -/
def wholeFlag (name : String) : FlagSpec := { name, kind := .whole }
/-- A list flag. -/
def textsFlag (name : String) : FlagSpec := { name, kind := .texts }

/-- The flag that asks for help, which every command takes. -/
def helpFlag : FlagSpec := { name := "help", short := some 'h', kind := .truth }

/-- The flags of compiling a query. -/
def compileFlags : List FlagSpec :=
  [textFlag "begin", textFlag "end", textFlag "date-type", wholeFlag "max-terms", truthFlag "stats"]

/-- The flags of reading records. -/
def recordFlags : List FlagSpec :=
  [textsFlag "records", textFlag "format", textsFlag "text", textsFlag "incomplete", wholeFlag "workers"]

/-- The flags of running a scan. -/
def scanFlags : List FlagSpec :=
  [textFlag "db", wholeFlag "limit", textFlag "checkpoint-out", truthFlag "save"]

/-- The commands, in the order they are offered; `version` only in the built program. -/
def commands (withVersion : Bool) : List Command :=
  [{ path := [], summary := "Compile, evaluate and execute edge queries", runs := false
     inherited := [textFlag "home", textFlag "config", textFlag "log-level", textFlag "output" (some 'o')] },
   { path := ["rewrite"], summary := "Print the normalized form of a query", arity := .exactly 1 },
   { path := ["compile"], summary := "Compile a query into a scan plan", arity := .exactly 1
     flags := compileFlags },
   { path := ["eval"], summary := "Evaluate a query against records", arity := .exactly 1
     flags := recordFlags ++ [truthFlag "all"], required := ["records"] },
   { path := ["excerpt"], summary := "Evaluate a query against records and extract phrase excerpts"
     arity := .exactly 1, flags := recordFlags ++ [textFlag "db", textFlag "fields"], required := ["records"] },
   { path := ["load"], summary := "Load edges and record text into the edge database", arity := .nothing
     flags := [textFlag "db", textsFlag "edges", textsFlag "records", textFlag "format", textsFlag "text"] },
   { path := ["scan"], summary := "Execute a query against the edge database", arity := .exactly 1
     flags := compileFlags ++ scanFlags },
   { path := ["resume"], summary := "Resume paused scans from checkpoint tokens or stored checkpoints"
     arity := .nothing, flags := scanFlags ++ [textFlag "token", textFlag "id"] },
   { path := ["checkpoints"], summary := "Manage stored checkpoints", runs := false
     inherited := [textFlag "db"] },
   { path := ["checkpoints", "list"], summary := "List stored checkpoints, oldest first", arity := .nothing },
   { path := ["checkpoints", "delete"], summary := "Delete stored checkpoints", arity := .atLeast 1 },
   { path := ["checkpoints", "sweep"], summary := "Delete checkpoints older than the configured TTL"
     arity := .nothing, flags := [{ name := "ttl", kind := .duration }, truthFlag "schedule"] },
   { path := ["config"], summary := "Inspect the configuration", runs := false },
   { path := ["config", "show"], summary := "Print the effective configuration", arity := .nothing }] ++
  (if withVersion then [{ path := ["version"], summary := "Print version information" }] else []) ++
  [{ path := ["help"], summary := "Help about any command", offered := false },
   { path := ["completion"], summary := "Generate the autocompletion script for the specified shell"
     arity := .nothing, runs := false }] ++
  (["bash", "fish", "powershell", "zsh"].map fun shell =>
    { path := ["completion", shell], arity := .nothing, flags := [truthFlag "no-descriptions"]
      summary := "Generate the autocompletion script for " ++ shell })

namespace Command

/-- The commands directly below a command, in order. -/
def children (table : List Command) (c : Command) : List Command :=
  table.filter fun d => d.path.length == c.path.length + 1 && d.path.take c.path.length == c.path

/-- Whether a command has commands below it. -/
def isGroup (table : List Command) (c : Command) : Bool := !(c.children table).isEmpty

/-- The flags a command takes: its own, and those handed down to it. -/
def allFlags (table : List Command) (c : Command) : List FlagSpec :=
  c.flags ++ (table.filter fun d => d.path.length ≤ c.path.length && c.path.take d.path.length == d.path).flatMap
    (·.inherited)

/-- The command's full name, as shown in failures. -/
def fullName (c : Command) : String := " ".intercalate (programName :: c.path)

/-- The last name of a command. -/
def name (c : Command) : String := c.path.getLastD programName

end Command

/-- Whether a long flag of that name takes no value. -/
def takesNoValue (flags : List FlagSpec) (name : String) : Bool :=
  flags.any fun f => f.name == name && f.kind == .truth

/-- Whether a short flag of that letter takes no value. -/
def shortTakesNoValue (flags : List FlagSpec) (letter : String) : Bool :=
  flags.any fun f => f.short.map String.singleton == some letter && f.kind == .truth

/-- Whether a word is a flag that takes the next word as its value. -/
def takesNextWord (flags : List FlagSpec) (s : String) : Bool :=
  (s.startsWith "--" && !s.contains '=' && !takesNoValue flags (s.drop 2).toString) ||
  (s.startsWith "-" && !s.contains '=' && s.utf8ByteSize == 2 && !shortTakesNoValue flags (s.drop 1).toString)

/-- The words of a command line that are not flags or flag values. -/
def bareWords (flags : List FlagSpec) : List String → List String
  | [] => []
  | s :: rest =>
    if s == "--" then []
    else if takesNextWord flags s then
      match rest with
      | [] | [_] => []
      | _ :: more => bareWords flags more
    else if s != "" && !s.startsWith "-" then s :: bareWords flags rest
    else bareWords flags rest

/-- Removes the first bare word equal to `x` from a command line. -/
def removeWord (flags : List FlagSpec) (x : String) : List String → List String
  | [] => []
  | s :: rest =>
    if s == "--" then s :: rest
    else if takesNextWord flags s then
      match rest with
      | [] => [s]
      | v :: more => s :: v :: removeWord flags x more
    else if !s.startsWith "-" && s == x then rest
    else s :: removeWord flags x rest

/-- The number of edits (insertions, deletions, replacements of bytes) between two
texts. -/
def editDistance (s t : List UInt8) : Nat :=
  let step (prev : List Nat) (a : UInt8) : List Nat :=
    let start := prev.headD 0 + 1
    let (row, _) := (t.zip (prev.zip prev.tail)).foldl (fun (acc : List Nat × Nat) (b, diag, up) =>
      let (row, left) := acc
      let v := if a == b then diag else min (min up left) diag + 1
      (v :: row, v)) ([start], start)
    row.reverse
  (s.foldl step (List.range (t.length + 1))).getLastD 0

/-- The commands below a group to offer for a mistyped name. -/
def suggestions (table : List Command) (group : Command) (typed : String) : List String :=
  let lowered := Bytes.ofString typed.toLower
  ((group.children table).filter fun c =>
      c.offered && (c.runs || c.isGroup table) &&
      (editDistance lowered (Bytes.ofString c.name.toLower) ≤ 2 ||
        (c.name.toLower).startsWith typed.toLower)).map Command.name

/-- The failure for an unknown command at the top. -/
def unknownCommand (table : List Command) (group : Command) (word : String) : String :=
  let offered := suggestions table group word
  "unknown command " ++ Quote.text word ++ " for " ++ Quote.text group.fullName ++
    (if offered.isEmpty then ""
     else "\n\nDid you mean this?\n" ++ String.join (offered.map fun s => "\t" ++ s ++ "\n"))

/-- Walks down from a command by the bare words of a command line: the command reached and
the command line without the words that named commands. -/
def descend (table : List Command) : Nat → Command → List String → Command × List String
  | 0, c, args => (c, args)
  | fuel + 1, c, args =>
    let flags := c.allFlags table
    match bareWords flags args with
    | [] => (c, args)
    | word :: _ =>
      match (c.children table).find? (·.name == word) with
      | some d => descend table fuel d (removeWord flags word args)
      | none => (c, args)

/-- Finds the command of a command line: the command, the rest of the line, and a failure
when the top command is given a word that names no command. -/
def find (table : List Command) (args : List String) : Command × List String × Option String :=
  let top := (table.find? (·.path.isEmpty)).getD { path := [] }
  let (c, rest) := descend table (args.length + 1) top args
  if c.arity == .free && c.isGroup table && c.path.isEmpty then
    match bareWords (c.allFlags table) rest with
    | word :: _ => (c, rest, some (unknownCommand table c word))
    | [] => (c, rest, none)
  else (c, rest, none)

/-- Checks the number of arguments a command is given. -/
def Command.checkArgs (c : Command) (args : List String) : Except String Unit :=
  match c.arity with
  | .free => .ok ()
  | .exactly n =>
    if args.length == n then .ok ()
    else .error ("accepts " ++ toString n ++ " arg(s), received " ++ toString args.length)
  | .nothing =>
    match args with
    | [] => .ok ()
    | a :: _ => .error ("unknown command " ++ Quote.text a ++ " for " ++ Quote.text c.fullName)
  | .atLeast n =>
    if args.length ≥ n then .ok ()
    else .error ("requires at least " ++ toString n ++ " arg(s), only received " ++ toString args.length)

/-- Checks that the required flags were given. -/
def Command.checkRequired (c : Command) (p : Parsed) : Except String Unit :=
  match c.required.filter (!p.changed ·) with
  | [] => .ok ()
  | missing => .error ("required flag(s) \"" ++ "\", \"".intercalate missing ++ "\" not set")

/-- The help text of a command: what it does, how it is called, and what is below it. -/
def Command.helpText (table : List Command) (c : Command) : String :=
  let below := (c.children table).filter fun d => d.offered || d.name == "help"
  let width := below.foldl (fun w d => max w d.name.length) 0
  let pad (s : String) : String := s ++ String.ofList (List.replicate (width - s.length) ' ')
  c.summary ++ "\n\nUsage:\n" ++
    (if c.runs then "  " ++ c.fullName ++ (if c.arity == .nothing then "" else " [args]") ++ " [flags]\n" else "") ++
    (if below.isEmpty then ""
     else "  " ++ c.fullName ++ " [command]\n\nAvailable Commands:\n" ++
       String.join (below.map fun d => "  " ++ pad d.name ++ " " ++ d.summary ++ "\n")) ++
    "\nFlags:\n" ++ String.join ((c.allFlags table ++ [helpFlag]).map fun f =>
      "  " ++ (match f.short with | some s => "-" ++ String.singleton s ++ ", " | none => "    ") ++
        "--" ++ f.name ++ "\n")

end EdgeQuery.Cli
