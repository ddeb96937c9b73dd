/-! # Slash-separated paths

Paths are texts of components separated by `/`; a path that starts with `/` is absolute.
The clean form of a path is its shortest equivalent by purely lexical rules: repeated
slashes become one, `.` components go, a `..` component removes the component before it
(and is dropped right after the root), and no slash ends it. The clean form of the empty
path is `.`. -/

namespace EdgeQuery.Path

/-- Whether a path is absolute. -/
def isAbs (p : String) : Bool := p.startsWith "/"

/-- Pushes a component onto the components kept so far (kept in reverse). -/
def push (rooted : Bool) (acc : List String) (c : String) : List String :=
  if c.isEmpty || c == "." then acc
  else if c == ".." then
    match acc with
    | top :: rest => if top == ".." then c :: acc else rest
    | [] => if rooted then [] else [c]
  else c :: acc

/-- The components of the clean form of a path, in order. -/
def components (p : String) : List String :=
  ((p.splitOn "/").foldl (push (isAbs p)) []).reverse

/-- The clean form of a path. -/
def clean (p : String) : String :=
  let cs := "/".intercalate (components p)
  if isAbs p then "/" ++ cs else if cs.isEmpty then "." else cs

/-- Joins paths with slashes, ignoring empty ones, and cleans the result; the join of
nothing is empty. -/
def join (ps : List String) : String :=
  match ps.filter (!·.isEmpty) with
  | [] => ""
  | qs => clean ("/".intercalate qs)

/-- The absolute clean form of a path, relative paths taken from `cwd`. -/
def absolute (cwd p : String) : String := if isAbs p then clean p else join [cwd, p]

/-- The last component of a path (`.` for the empty path, `/` for the root). -/
def base (p : String) : String :=
  let trimmed := (p.toList.reverse.dropWhile (· == '/')).reverse
  if p.isEmpty then "."
  else if trimmed.isEmpty then "/"
  else String.ofList ((trimmed.reverse.takeWhile (· != '/')).reverse)

/-- All but the last component of a path, cleaned. -/
def dir (p : String) : String :=
  let cs := p.toList
  let keep := (cs.reverse.dropWhile (· != '/')).reverse
  clean (String.ofList keep)

end EdgeQuery.Path
