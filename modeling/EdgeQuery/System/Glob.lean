import EdgeQuery.System.Files
/-! # Glob patterns

A pattern matches slash-separated paths:

* `*` matches any run of characters other than `/`, and `?` any one of them;
* `[abc]`, `[a-z]`, and their negations `[^...]` or `[!...]` match one character other
  than `/` in (or not in) the class;
* `{one,two}` matches either alternative;
* `**` as a whole component matches any number of components, none included;
* a backslash makes the next character stand for itself.

A pattern is malformed when a backslash ends it, a class is empty or not closed, or its
braces do not pair up.

Globbing a pattern over a file tree splits off the longest leading directory without
special characters and matches the rest against every path below that directory. -/

namespace EdgeQuery.Glob

/-- Whether a pattern is well formed. -/
def valid (p : String) : Bool :=
  go p.toList 0 (p.length + 1)
where
  /-- Checks the characters left, with `depth` braces open. -/
  go : List Char → Nat → Nat → Bool
    | [], depth, _ => depth == 0
    | _, _, 0 => false
    | c :: cs, depth, fuel + 1 =>
      match c with
      | '\\' => match cs with
        | [] => false
        | _ :: rest => go rest depth fuel
      | '[' =>
        let cs := match cs with
          | '^' :: r | '!' :: r => r
          | r => r
        match cs with
        | [] | ']' :: _ => false
        | _ => closeClass cs depth fuel
      | '{' => go cs (depth + 1) fuel
      | '}' => depth > 0 && go cs (depth - 1) fuel
      | _ => go cs depth fuel
  /-- Skips to the end of a class, then goes on. -/
  closeClass : List Char → Nat → Nat → Bool
    | [], _, _ => false
    | _, _, 0 => false
    | c :: cs, depth, fuel + 1 =>
      match c, cs with
      | '\\', _ :: rest => closeClass rest depth fuel
      | '\\', [] => false
      | ']', rest => go rest depth fuel
      | _, rest => closeClass rest depth fuel

/-- Splits the alternatives of a brace group's inside at its top-level commas. -/
def alternatives (cs : List Char) : List (List Char) :=
  let step := fun (acc : List (List Char) × List Char × Nat × Bool) (c : Char) =>
    let (alts, cur, depth, esc) := acc
    if esc then (alts, cur ++ [c], depth, false)
    else if c == '\\' then (alts, cur ++ [c], depth, true)
    else if c == '{' then (alts, cur ++ [c], depth + 1, false)
    else if c == '}' then (alts, cur ++ [c], depth - 1, false)
    else if c == ',' && depth == 0 then (alts ++ [cur], [], depth, false)
    else (alts, cur ++ [c], depth, false)
  let (alts, cur, _, _) := cs.foldl step ([], [], 0, false)
  alts ++ [cur]

/-- The first top-level brace group: what stands before it, its inside and what follows. -/
def braceGroup (cs : List Char) : Option (List Char × List Char × List Char) :=
  go cs [] (cs.length + 1)
where
  go : List Char → List Char → Nat → Option (List Char × List Char × List Char)
    | [], _, _ => none
    | _, _, 0 => none
    | '\\' :: c :: rest, pre, fuel + 1 => go rest (pre ++ ['\\', c]) fuel
    | '{' :: rest, pre, _ =>
      let (inside, after) := closing rest [] 0 (rest.length + 1)
      some (pre, inside, after)
    | c :: rest, pre, fuel + 1 => go rest (pre ++ [c]) fuel
  closing : List Char → List Char → Nat → Nat → List Char × List Char
    | [], acc, _, _ => (acc, [])
    | _, acc, _, 0 => (acc, [])
    | '\\' :: c :: rest, acc, depth, fuel + 1 => closing rest (acc ++ ['\\', c]) depth fuel
    | '}' :: rest, acc, 0, _ => (acc, rest)
    | '}' :: rest, acc, depth + 1, fuel + 1 => closing rest (acc ++ ['}']) depth fuel
    | '{' :: rest, acc, depth, fuel + 1 => closing rest (acc ++ ['{']) (depth + 1) fuel
    | c :: rest, acc, depth, fuel + 1 => closing rest (acc ++ [c]) depth fuel

/-- The patterns without braces that a pattern stands for. -/
def expand (cs : List Char) : List (List Char) :=
  go cs (cs.length + 1)
where
  go : List Char → Nat → List (List Char)
    | cs, 0 => [cs]
    | cs, fuel + 1 =>
      match braceGroup cs with
      | none => [cs]
      | some (pre, inside, after) =>
        (alternatives inside).flatMap fun alt => go (pre ++ alt ++ after) fuel

/-- Whether a character is in a class (its inside, without the brackets). -/
def inClass (c : Char) : List Char → Bool
  | a :: '-' :: b :: rest => (a ≤ c && c ≤ b) || inClass c rest
  | '\\' :: a :: rest => a == c || inClass c rest
  | a :: rest => a == c || inClass c rest
  | [] => false

/-- Splits a class after its opening bracket: whether it is negated, its inside, and the
rest of the pattern. -/
def readClass (cs : List Char) : Bool × List Char × List Char :=
  let (neg, cs) := match cs with
    | '^' :: r | '!' :: r => (true, r)
    | r => (false, r)
  let rec go : List Char → List Char → List Char × List Char
    | [], acc => (acc, [])
    | '\\' :: c :: rest, acc => go rest (acc ++ ['\\', c])
    | ']' :: rest, acc => if acc.isEmpty then go rest (acc ++ [']']) else (acc, rest)
    | c :: rest, acc => go rest (acc ++ [c])
  let (inside, rest) := go cs []
  (neg, inside, rest)

/-- Whether a brace-free pattern matches a path; `start` says the pattern is at the start
of a component. -/
def matchChars (pat name : List Char) (start : Bool) (fuel : Nat) : Bool :=
  match fuel with
  | 0 => false
  | fuel + 1 =>
    match pat with
    | [] => name.isEmpty
    | '*' :: '*' :: rest =>
      if start && (rest.isEmpty || rest.head? == some '/') then
        match rest with
        | [] => true
        | _ :: after =>
          -- zero components, or one more component and then again
          matchChars after name true fuel ||
            (match name.dropWhile (· != '/') with
             | _ :: more => !name.isEmpty && matchChars pat more true fuel
             | [] => false)
      else matchChars ('*' :: rest) name false fuel
    | '*' :: rest =>
      let run := (name.takeWhile (· != '/')).length
      (List.range (run + 1)).any fun k => matchChars rest (name.drop k) false fuel
    | '?' :: rest =>
      match name with
      | c :: more => c != '/' && matchChars rest more false fuel
      | [] => false
    | '[' :: rest =>
      let (neg, inside, after) := readClass rest
      match name with
      | c :: more => c != '/' && (inClass c inside != neg) && matchChars after more false fuel
      | [] => false
    | '\\' :: c :: rest =>
      match name with
      | d :: more => c == d && matchChars rest more (c == '/') fuel
      | [] => false
    | c :: rest =>
      match name with
      | d :: more => c == d && matchChars rest more (c == '/') fuel
      | [] => false

/-- Whether a pattern matches a relative path. -/
def matchPath (pat path : String) : Bool :=
  (expand pat.toList).any fun p => matchChars p path.toList true (p.length + path.length + 2)

/-- Splits a pattern into its leading directory without special characters and the rest. -/
def split (p : String) : String × String :=
  let cs := p.toList
  let rec scan : List Char → Nat → Option Nat → Option Nat
    | [], _, last => last
    | '\\' :: _ :: rest, i, last => scan rest (i + 2) last
    | c :: rest, i, last =>
      if c == '*' || c == '?' || c == '[' || c == '{' then last
      else scan rest (i + 1) (if c == '/' then some i else last)
  match scan cs 0 none with
  | some 0 => ("/", String.ofList (cs.drop 1))
  | some i => (String.ofList (cs.take i), String.ofList (cs.drop (i + 1)))
  | none => (".", p)

/-- Removes the escaping backslashes of a pattern without special characters. -/
def unescape (p : String) : String :=
  let rec go : List Char → List Char
    | '\\' :: c :: rest => c :: go rest
    | c :: rest => c :: go rest
    | [] => []
  String.ofList (go p.toList)

/-- The paths of a tree an absolute pattern matches, or `none` for a malformed pattern. -/
def glob {α : Type} (t : Files.Tree α) (pattern : String) : Option (List String) :=
  let pattern := Path.clean pattern
  let (base, rest) := split pattern
  if rest.isEmpty || rest == "." || rest == ".." then
    if !valid pattern then none
    else
      let p := unescape pattern
      match t.stat "/" p with
      | .ok _ => some [p]
      | .error _ => some []
  else if !valid rest then none
  else
    let baseParts := Path.components base
    match t.walk baseParts with
    | .ok .dir =>
      some ((t.below baseParts).filterMap fun (q, _) =>
        let rel := "/".intercalate (q.drop baseParts.length)
        if matchPath rest rel then some (Path.join [base, rel]) else none)
    | _ => some []

end EdgeQuery.Glob
