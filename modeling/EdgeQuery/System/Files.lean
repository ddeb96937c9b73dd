import EdgeQuery.System.Path
/-! # A tree of files

A file tree maps absolute clean paths to nodes: directories and files holding some
content. The root directory always exists. Every node's parent is a directory.

Operations fail as a file system does, naming the operation and the path as given:
a path through a file is `not a directory`, a path through nothing is `no such file or
directory`, reading a directory is `is a directory`. -/

namespace EdgeQuery.Files

/-- Why an operation failed. -/
inductive Errno where
  | noEntry
  | notDirectory
  | isDirectory
  deriving DecidableEq, Repr

/-- The text of a failure cause. -/
def Errno.text : Errno → String
  | .noEntry => "no such file or directory"
  | .notDirectory => "not a directory"
  | .isDirectory => "is a directory"

/-- A failed operation on a path. -/
structure IoError where
  op : String
  path : String
  errno : Errno
  deriving Repr

/-- The text of a failed operation. -/
def IoError.message (e : IoError) : String := e.op ++ " " ++ e.path ++ ": " ++ e.errno.text

/-- A node: a directory or a file. -/
inductive Node (α : Type) where
  | dir
  | file (content : α)
  deriving Inhabited

/-- A tree: nodes by their absolute path components. -/
structure Tree (α : Type) where
  nodes : List (List String × Node α) := []
  deriving Inhabited

namespace Tree

variable {α : Type}

/-- The node at a path, if any; the root is a directory. -/
def find? (t : Tree α) (p : List String) : Option (Node α) :=
  if p.isEmpty then some .dir else (t.nodes.find? (·.1 == p)).map (·.2)

/-- Finds a node, walking down from the root: a file on the way is `not a directory`,
a missing component `no such file or directory`. -/
def walk (t : Tree α) (p : List String) : Except Errno (Node α) :=
  let prefixes := (List.range p.length).map fun i => p.take (i + 1)
  prefixes.foldl (fun acc q => do
    match ← acc with
    | .file _ => throw .notDirectory
    | .dir =>
      match t.find? q with
      | some n => pure n
      | none => throw .noEntry) (.ok .dir)

/-- Looks up a path given as text, relative to `cwd`. -/
def stat (t : Tree α) (cwd path : String) : Except Errno (Node α) :=
  t.walk (Path.components (Path.absolute cwd path))

/-- Reads a file. -/
def readFile (t : Tree α) (cwd path : String) : Except IoError α :=
  match t.stat cwd path with
  | .ok (.file c) => .ok c
  | .ok .dir => .error ⟨"read", path, .isDirectory⟩
  | .error e => .error ⟨"open", path, e⟩

/-- Sets the node at absolute components, replacing what was there. -/
def set (t : Tree α) (p : List String) (n : Node α) : Tree α :=
  { nodes := (t.nodes.filter (·.1 != p)) ++ [(p, n)] }

/-- Writes a file whose parent directory exists, creating or replacing it. -/
def writeFile (t : Tree α) (cwd path : String) (c : α) : Except IoError (Tree α) :=
  let p := Path.components (Path.absolute cwd path)
  match t.walk p.dropLast with
  | .error e => .error ⟨"open", path, e⟩
  | .ok (.file _) => .error ⟨"open", path, .notDirectory⟩
  | .ok .dir =>
    match t.find? p with
    | some .dir => .error ⟨"open", path, .isDirectory⟩
    | _ => .ok (t.set p (.file c))

/-- Makes a directory and its missing parents; a file on the way fails with that file's
path. -/
def mkdirAll (t : Tree α) (cwd path : String) : Except IoError (Tree α) :=
  let p := Path.components (Path.absolute cwd path)
  let prefixes := (List.range p.length).map fun i => p.take (i + 1)
  let rooted := Path.isAbs path
  let shown (q : List String) : String :=
    let rel := (Path.components path).take (q.length - (p.length - (Path.components path).length))
    (if rooted then "/" else "") ++ "/".intercalate rel
  prefixes.foldlM (fun t q =>
    match t.find? q with
    | some .dir => .ok t
    | some (.file _) => .error ⟨"mkdir", shown q, .notDirectory⟩
    | none => .ok (t.set q .dir)) t

/-- The names in a directory, sorted. -/
def children (t : Tree α) (p : List String) : List (String × Node α) :=
  ((t.nodes.filter fun (q, _) => q.length == p.length + 1 && q.take p.length == p).map
    fun (q, n) => (q.getLastD "", n)).mergeSort fun a b => a.1 ≤ b.1

/-- Whether components come before others in name order, or are the same: a directory
comes right before what is below it. -/
def componentsLe : List String → List String → Bool
  | [], _ => true
  | _ :: _, [] => false
  | a :: as, b :: bs => a < b || (a == b && componentsLe as bs)

/-- Every path below a directory (not the directory itself), depth first in name order. -/
def below (t : Tree α) (p : List String) : List (List String × Node α) :=
  (t.nodes.filter fun (q, _) => q.length > p.length && q.take p.length == p).mergeSort
    fun a b => componentsLe a.1 b.1

end Tree

end EdgeQuery.Files
