import EdgeQuery.Pattern.Class
/-! # Reading patterns

A pattern is read left to right onto a stack, in the RE2 manner. Literal characters are
pushed one at a time and the two topmost literals are merged into one string when a
further node arrives, so that a repetition operator always applies to the last character
only (`ab*` repeats `b`). An opening parenthesis and a vertical bar are markers on the
stack: at a vertical bar the nodes above the innermost marker become one concatenation,
and at a closing parenthesis (or the end) the concatenations become one alternation.

Alternations are factored as they are built: alternatives with a common literal prefix
share it (`abc|abd` is `ab(?:c|d)`), alternatives starting with the same one-character
piece share that, runs of one-character alternatives become one class (`a|b` is `[a-b]`),
and repeated empty alternatives collapse. A class of one code point is a literal, and a
class of exactly the two case variants of a letter is a case-folding literal.

No node may be higher than `maxHeight`: the first node built higher stops the reading, so
that a pattern nested too deeply is refused before any other fault after that node.

A pattern that does not read gives a `PatternError`: a code and the piece of the pattern
at fault. -/

namespace EdgeQuery.Pattern

/-- Why a pattern does not read. -/
inductive ErrorCode where
  | invalidCharClass
  | invalidCharRange
  | invalidEscape
  | invalidNamedCapture
  | invalidPerlOp
  | invalidRepeatOp
  | invalidRepeatSize
  | invalidUtf8
  | missingBracket
  | missingParen
  | missingRepeatArgument
  | trailingBackslash
  | unexpectedParen
  | nestingDepth
  | tooLarge
  deriving DecidableEq, Repr

/-- The words for each reason. -/
def ErrorCode.text : ErrorCode → String
  | .invalidCharClass => "invalid character class"
  | .invalidCharRange => "invalid character class range"
  | .invalidEscape => "invalid escape sequence"
  | .invalidNamedCapture => "invalid named capture"
  | .invalidPerlOp => "invalid or unsupported Perl syntax"
  | .invalidRepeatOp => "invalid nested repetition operator"
  | .invalidRepeatSize => "invalid repeat count"
  | .invalidUtf8 => "invalid UTF-8"
  | .missingBracket => "missing closing ]"
  | .missingParen => "missing closing )"
  | .missingRepeatArgument => "missing argument to repetition operator"
  | .trailingBackslash => "trailing backslash at end of expression"
  | .unexpectedParen => "unexpected )"
  | .nestingDepth => "expression nests too deeply"
  | .tooLarge => "expression too large"

/-- A pattern that does not read: why, and the piece of the pattern at fault. -/
structure PatternError where
  code : ErrorCode
  piece : String
  deriving Repr

/-- The text of a pattern error. -/
def PatternError.message (e : PatternError) : String :=
  "error parsing regexp: " ++ e.code.text ++ ": `" ++ e.piece ++ "`"

/-- The part of `before` that is not in its suffix `after`. -/
def consumed (before after : List Char) : String :=
  String.ofList (before.take (before.length - after.length))

/-- An error naming the text consumed from `before` to `after`. -/
def failAt {α : Type} (code : ErrorCode) (before after : List Char) : Except PatternError α :=
  .error ⟨code, consumed before after⟩

/-! ## Factoring alternations -/

/-- The literal string an alternative starts with, and whether it folds case. -/
def leadingString : Regex → List Nat × Bool
  | .concat (.literal r f :: _) => (r, f.foldCase)
  | .literal r f => (r, f.foldCase)
  | _ => ([], false)

/-- Removes the first `n` code points of the leading literal string. -/
def removeLeadingString (n : Nat) : Regex → Regex
  | .concat (.literal r f :: rest) =>
    match r.drop n with
    | [] =>
      match rest with
      | [] => .emptyMatch
      | [x] => x
      | xs => .concat xs
    | r' => .concat (.literal r' f :: rest)
  | .literal r f =>
    match r.drop n with
    | [] => .emptyMatch
    | r' => .literal r' f
  | re => re

/-- The first piece of an alternative, none for an empty one. -/
def leadingRegex : Regex → Option Regex
  | .emptyMatch => none
  | .concat (.emptyMatch :: _) => none
  | .concat (x :: _) => some x
  | re => some re

/-- Removes the first piece of an alternative. -/
def removeLeadingRegex : Regex → Regex
  | .concat (_ :: rest) =>
    match rest with
    | [] => .emptyMatch
    | [x] => x
    | xs => .concat xs
  | _ => .emptyMatch

/-- The length of the common prefix of two lists. -/
def commonPrefix : List Nat → List Nat → Nat
  | a :: as, b :: bs => if a = b then commonPrefix as bs + 1 else 0
  | _, _ => 0

/-- Whether a first piece may be shared: a one-character piece or a fixed repetition of
one. -/
def shareable : Regex → Bool
  | .rep min max _ sub => min == max && sub.isCharClass
  | re => re.isCharClass

/-- How many code points a one-character piece lists, to pick the most complex one. -/
def runeCount : Regex → Nat
  | .literal r _ => r.length
  | .charClass r => 2 * r.length
  | _ => 0

/-- Merges a run of one-character pieces into one, starting from the most complex. -/
def mergeRun (run : List Regex) : Regex :=
  match run with
  | [] => .noMatch
  | first :: _ =>
    let best := run.foldl (fun b x =>
      if b.rank < x.rank || (b.rank == x.rank && runeCount b < runeCount x) then x else b) first
    -- every member is merged into the most complex one; merging is a union, so the order
    -- of the others does not matter
    (run.foldl (fun acc x => acc.mergeClass x) best).cleanAlt

/-- Flattens nested alternations. -/
def alternatives (subs : List Regex) : List Regex :=
  subs.flatMap fun s => match s with | .alternate xs => xs | s => [s]

mutual

/-- Builds an alternation of the given alternatives, factoring it; one alternative
stands alone. `fuel` bounds the nesting of factored suffixes. -/
def collapseAlt : Nat → List Regex → Regex
  | _, [s] => s
  | 0, subs => .alternate (alternatives subs)
  | fuel + 1, subs =>
    match factor fuel (alternatives subs) with
    | [s] => s
    | fs => .alternate fs

/-- Factors a list of alternatives (see the module comment). -/
def factor : Nat → List Regex → List Regex
  | _, [] => []
  | _, [s] => [s]
  | fuel, subs =>
    -- Round 1: common literal prefixes.
    let runs1 := (subs.foldl (fun (runs : List (List Nat × Bool × List Regex)) s =>
      let (istr, ifold) := leadingString s
      match runs with
      | (str, fold, members) :: rest =>
        let same := commonPrefix str istr
        if ifold == fold && same > 0 then (str.take same, fold, members ++ [s]) :: rest
        else (istr, ifold, [s]) :: runs
      | [] => [(istr, ifold, [s])]) []).reverse
    let subs := runs1.flatMap fun (str, fold, members) =>
      match members with
      | [m] => [m]
      | ms =>
        let lead := Regex.literal str { foldCase := fold, oneLine := false }
        [.concat [lead, collapseAlt fuel (ms.map (removeLeadingString str.length))]]
    -- Round 2: a common first piece of one character.
    let runs2 := (subs.foldl (fun (runs : List (Option Regex × List Regex)) s =>
      let ifirst := leadingRegex s
      match runs with
      | (some f, members) :: rest =>
        match ifirst with
        | some g =>
          if f.same g && shareable f then (some f, members ++ [s]) :: rest
          else (ifirst, [s]) :: runs
        | none => (ifirst, [s]) :: runs
      | _ => (ifirst, [s]) :: runs) []).reverse
    let subs := runs2.flatMap fun (first, members) =>
      match first, members with
      | some f, _ :: _ :: _ =>
        [.concat [f, collapseAlt fuel (members.map removeLeadingRegex)]]
      | _, ms => ms
    -- Round 3: runs of one-character alternatives become one class.
    let (out, run) := subs.foldl (fun (acc : List Regex × List Regex) s =>
      let (out, run) := acc
      if s.isCharClass then (out, run ++ [s])
      else
        match run with
        | [] => (out ++ [s], [])
        | [x] => (out ++ [x, s], [])
        | xs => (out ++ [mergeRun xs, s], [])) ([], [])
    let subs := match run with
      | [] => out
      | [x] => out ++ [x]
      | xs => out ++ [mergeRun xs]
    -- Round 4: repeated empty alternatives collapse.
    let rec dropEmpties : List Regex → List Regex
      | .emptyMatch :: .emptyMatch :: rest => dropEmpties (.emptyMatch :: rest)
      | x :: rest => x :: dropEmpties rest
      | [] => []
    dropEmpties subs

end

/-! ## The stack -/

/-- An entry of the parse stack: a node, an opening parenthesis (with its group number,
0 for a non-capturing group, its name, and the flags in force before it), or a vertical
bar. -/
inductive Item where
  | re (r : Regex)
  | group (index : Nat) (name : String) (saved : Flags)
  | bar
  deriving Inhabited

/-- The greatest height of a node a pattern may have. -/
def maxHeight : Nat := 1000

/-- The state of a parse. -/
structure Parser where
  flags : Flags := {}
  /-- The stack, topmost entry first. -/
  stack : List Item := []
  /-- The number of capturing groups opened so far. -/
  groups : Nat := 0
  /-- A bound on the nesting of factored alternatives. -/
  fuel : Nat := 0
  /-- Whether a node higher than `maxHeight` was built. -/
  tooDeep : Bool := false
  deriving Inhabited

namespace Parser

/-- Merges the two topmost entries when both are literals of the same case sensitivity;
with a code point to push, the merged literal is followed by a fresh literal of it, and
the answer says it was pushed. -/
def maybeConcat (p : Parser) (next : Option (Nat × Flags)) : Parser × Bool :=
  match p.stack with
  | .re (.literal r1 f1) :: .re (.literal r2 f2) :: rest =>
    if f1.foldCase == f2.foldCase then
      let merged := Item.re (.literal (r2 ++ r1) f2)
      match next with
      | some (c, f) => ({ p with stack := .re (.literal [c] f) :: merged :: rest }, true)
      | none => ({ p with stack := merged :: rest }, false)
    else (p, false)
  | _ => (p, false)

/-- Pushes a node. A class of one code point becomes a literal, and a class of exactly
two case variants a case-folding literal. -/
def push (p : Parser) (re : Regex) : Parser :=
  let single := fun (c : Nat) (f : Flags) =>
    match p.maybeConcat (some (c, f)) with
    | (q, true) => q
    | (q, false) => { q with stack := .re (.literal [c] f) :: q.stack }
  let plain := fun (_ : Unit) =>
    let (q, _) := p.maybeConcat none
    { q with stack := .re re :: q.stack, tooDeep := q.tooDeep || re.height > maxHeight }
  let folding := { p.flags with foldCase := true }
  let exact := { p.flags with foldCase := false }
  match re with
  | .charClass [(a, b)] =>
    if a == b then single a exact
    else if a + 1 == b && Unicode.foldNext a == b && Unicode.foldNext b == a then single a folding
    else plain ()
  | .charClass [(a, b), (c, d)] =>
    if a == b && c == d && Unicode.foldNext a == c && Unicode.foldNext c == a then
      single a folding
    else plain ()
  | _ => plain ()

/-- Pushes a marker. -/
def pushMarker (p : Parser) (it : Item) : Parser :=
  let (q, _) := p.maybeConcat none
  { q with stack := it :: q.stack }

/-- Pushes a literal code point, as its smallest case variant when folding case. -/
def literal (p : Parser) (c : Nat) : Parser :=
  p.push (.literal [if p.flags.foldCase then minFoldRune c else c] p.flags)

/-- The nodes above the innermost marker, topmost first, and the entries below. -/
def nodesAbove : List Item → List Regex × List Item
  | .re r :: rest => let (rs, below) := nodesAbove rest; (r :: rs, below)
  | rest => ([], rest)

/-- Replaces the nodes above the innermost marker by their concatenation. -/
def concat (p : Parser) : Parser :=
  let (p, _) := p.maybeConcat none
  let (subs, below) := nodesAbove p.stack
  let p := { p with stack := below }
  match subs.reverse with
  | [] => p.push .emptyMatch
  | [s] => p.push s
  | subs => p.push (.concat (subs.flatMap fun s => match s with | .concat xs => xs | s => [s]))

/-- Replaces the alternatives above the innermost marker by their alternation. -/
def alternate (p : Parser) : Parser :=
  let (subs, below) := nodesAbove p.stack
  let p := { p with stack := below }
  match subs with
  | [] => p.push .noMatch
  | top :: rest => p.push (collapseAlt p.fuel ((top.cleanAlt :: rest).reverse))

/-- When a finished concatenation stands above a vertical bar, moves it below the bar
(merging it into the alternative below when both match one character) and answers true. -/
def swapBar (p : Parser) : Parser × Bool :=
  match p.stack with
  | .re r1 :: .bar :: .re r3 :: rest =>
    if r1.isCharClass && r3.isCharClass then
      let (lo, hi) := if r1.rank > r3.rank then (r3, r1) else (r1, r3)
      ({ p with stack := .bar :: .re (hi.mergeClass lo) :: rest }, true)
    else ({ p with stack := .bar :: .re r1 :: .re r3.cleanAlt :: rest }, true)
  | .re r1 :: .bar :: rest => ({ p with stack := .bar :: .re r1 :: rest }, true)
  | _ => (p, false)

/-- Handles a vertical bar. -/
def verticalBar (p : Parser) : Parser :=
  let p := p.concat
  match p.swapBar with
  | (q, true) => q
  | (q, false) => q.pushMarker .bar

/-- Ends the innermost alternation: the last concatenation is built, a pending vertical
bar dropped, and the alternatives joined. -/
def finishAlternation (p : Parser) : Parser :=
  let p := p.concat
  let p := match p.swapBar with
    | (q, true) => { q with stack := q.stack.drop 1 }
    | (q, false) => q
  p.alternate

/-- Handles a closing parenthesis. -/
def rightParen (p : Parser) (whole : List Char) : Except PatternError Parser :=
  let p := p.finishAlternation
  if p.tooDeep then .ok p else
  match p.stack with
  | .re r :: .group index name saved :: rest =>
    let p := { p with stack := rest, flags := saved }
    .ok (if index == 0 then p.push r else p.push (.capture index name r))
  | _ => .error ⟨.unexpectedParen, String.ofList whole⟩

/-- Whether repetitions nested in `re` repeat at most `n` times in all. -/
def repeatFits : Regex → Int → Bool
  | .rep min max _ sub, n =>
    let m := if max == -1 then min else max
    if max == 0 then true
    else if m > n then false
    else repeatFits sub (if m > 0 then n / m else n)
  | .capture _ _ sub, n | .star _ sub, n | .plus _ sub, n | .quest _ sub, n => repeatFits sub n
  | .concat subs, n | .alternate subs, n => repeatFitsAll subs n
  | _, _ => true
where
  repeatFitsAll : List Regex → Int → Bool
    | [], _ => true
    | s :: ss, n => repeatFits s n && repeatFitsAll ss n

/-- Applies a repetition operator to the topmost node. `before` starts at the operator
and `after` follows it; `last` starts at the previous operator when the previous token was
one. -/
def repetition (p : Parser) (mk : Bool → Regex → Regex) (isCount : Bool) (min max : Int)
    (before after last : List Char) : Except PatternError (Parser × List Char) :=
  let (after, lazy) := match after with
    | '?' :: rest => (rest, !p.flags.nonGreedy)
    | _ => (after, p.flags.nonGreedy)
  if !last.isEmpty then failAt .invalidRepeatOp last after
  else
    match p.stack with
    | .re sub :: rest =>
      let re := mk lazy sub
      let p := { p with stack := .re re :: rest }
      if re.height > maxHeight then .ok ({ p with tooDeep := true }, after)
      else if isCount && (min ≥ 2 || max ≥ 2) && !repeatFits re 1000 then
        failAt .invalidRepeatSize before after
      else .ok (p, after)
    | _ => failAt .missingRepeatArgument before after

end Parser

/-! ## Escapes and classes -/

/-- The value of a hexadecimal digit. -/
def hexDigit? (c : Char) : Option Nat :=
  if '0' ≤ c && c ≤ '9' then some (c.toNat - 48)
  else if 'a' ≤ c && c ≤ 'f' then some (c.toNat - 87)
  else if 'A' ≤ c && c ≤ 'F' then some (c.toNat - 55)
  else none

/-- Whether a character is an ASCII letter or digit. -/
def isAlnum (c : Char) : Bool := c.isAlphanum && c.toNat < 128

/-- The code point stood for by a missing character. -/
def noRune : Nat := 0xFFFD

/-- Reads digits of a `\x{...}` escape; the result and the rest after the closing brace,
or the rest where reading stopped. -/
def hexBraces : List Char → Nat → Nat → Except (List Char) (Nat × List Char)
  | [], _, _ => .error []
  | '}' :: rest, value, count => if count == 0 then .error rest else .ok (value, rest)
  | c :: rest, value, count =>
    match hexDigit? c with
    | none => .error rest
    | some v =>
      let value := value * 16 + v
      if value > maxRune then .error rest else hexBraces rest value (count + 1)

/-- Reads an escape at the front of `s` (which starts with a backslash): the code point
and the rest. -/
def parseEscape (s : List Char) : Except PatternError (Nat × List Char) :=
  match s.drop 1 with
  | [] => .error ⟨.trailingBackslash, ""⟩
  | c :: t =>
    let octal := fun (first : Nat) (t : List Char) =>
      let isOct := fun (d : Char) => '0' ≤ d && d ≤ '7'
      match t with
      | d :: t' =>
        if isOct d then
          match t' with
          | e :: t'' => if isOct e then (first * 64 + (d.toNat - 48) * 8 + (e.toNat - 48), t'')
            else (first * 8 + (d.toNat - 48), t')
          | [] => (first * 8 + (d.toNat - 48), t')
        else (first, t)
      | [] => (first, t)
    if '1' ≤ c && c ≤ '7' then
      match t with
      | d :: _ =>
        if '0' ≤ d && d ≤ '7' then .ok (octal (c.toNat - 48) t) else failAt .invalidEscape s t
      | [] => failAt .invalidEscape s t
    else if c = '0' then .ok (octal 0 t)
    else if c = 'x' then
      match t with
      | [] => failAt .invalidEscape s t
      | '{' :: t' =>
        match hexBraces t' 0 0 with
        | .ok r => .ok r
        | .error stop => failAt .invalidEscape s stop
      | d :: t' =>
        let (e, t'') := match t' with
          | e :: t'' => (e, t'')
          | [] => (Char.ofNat noRune, [])
        match hexDigit? d, hexDigit? e with
        | some x, some y => .ok (x * 16 + y, t'')
        | _, _ => failAt .invalidEscape s t''
    else if c = 'a' then .ok (7, t)
    else if c = 'f' then .ok (12, t)
    else if c = 'n' then .ok (10, t)
    else if c = 'r' then .ok (13, t)
    else if c = 't' then .ok (9, t)
    else if c = 'v' then .ok (11, t)
    else if c.toNat < 128 && !isAlnum c then .ok (c.toNat, t)
    else failAt .invalidEscape s t

/-- Adds a named class to a set, closing it under case folding first when folding case. -/
def addGroup (fold : Bool) (r : Ranges) (g : Group) : Ranges :=
  let tab := if fold then g.ranges.foldClosure else g.ranges
  r.union (if g.negated then tab.complement else tab)

/-- Reads `\pX`, `\p{Name}`, `\PX` or `\P{Name}` at the front of `s`, adding its code
points to `r`; none when `s` starts otherwise. -/
def parseUnicodeClass (fold : Bool) (s : List Char) (r : Ranges) :
    Except PatternError (Option (Ranges × List Char)) :=
  match s with
  | '\\' :: p :: t =>
    if p != 'p' && p != 'P' then .ok none
    else
      let negated := p == 'P'
      let read : Except PatternError (List Char × List Char × List Char) :=
        match t with
        | [] => .ok (s, [], [])
        | '{' :: _ =>
          match s.findIdx? (· == '}') with
          | none => .error ⟨.invalidCharRange, String.ofList s⟩
          | some e => .ok (s.take (e + 1), (s.take e).drop 3, s.drop (e + 1))
        | c :: t' => .ok (s.take 3, [c], t')
      match read with
      | .error e => .error e
      | .ok (seq, name, rest) =>
        let (negated, name) := match name with
          | '^' :: n => (!negated, n)
          | n => (negated, n)
        match unicodeClass? (String.ofList name) with
        | none => .error ⟨.invalidCharRange, String.ofList seq⟩
        | some tab => .ok (some (addGroup fold r ⟨tab, negated⟩, rest))
  | _ => .ok none

/-- Reads a Perl class escape (`\d`, `\S`, ...) at the front of `s`. -/
def parsePerlClass (fold : Bool) (s : List Char) (r : Ranges) : Option (Ranges × List Char) :=
  match s with
  | '\\' :: c :: rest => (perlGroup? c).map fun g => (addGroup fold r g, rest)
  | _ => none

/-- Reads a POSIX class (`[:alpha:]`) at the front of `s`; none when there is none, an
error for an unknown name. -/
def parseNamedClass (fold : Bool) (s : List Char) (r : Ranges) :
    Except PatternError (Option (Ranges × List Char)) :=
  match s with
  | '[' :: ':' :: t =>
    if t.isEmpty then .ok none
    else
      let rec find : List Char → Nat → Option Nat
        | ':' :: ']' :: _, i => some i
        | _ :: cs, i => find cs (i + 1)
        | [], _ => none
      match find t 0 with
      | none => .ok none
      | some i =>
        let written := String.ofList (s.take (i + 4))
        match posixGroup? written with
        | none => .error ⟨.invalidCharRange, written⟩
        | some g => .ok (some (addGroup fold r g, s.drop (i + 4)))
  | _ => .ok none

/-- Reads one character of a class; `whole` is the class from its opening bracket. -/
def parseClassChar (s whole : List Char) : Except PatternError (Nat × List Char) :=
  match s with
  | [] => .error ⟨.missingBracket, String.ofList whole⟩
  | '\\' :: _ => parseEscape s
  | c :: rest => .ok (c.toNat, rest)

/-- Reads the items of a bracketed class until its closing bracket; `whole` is the class
from its opening bracket, and a closing bracket right at the start is an item. -/
def classItems (fold : Bool) (whole : List Char) :
    Nat → Bool → List Char → Ranges → Except PatternError (Ranges × List Char)
  | 0, _, t, r => .ok (r, t)
  | fuel + 1, first, t, r =>
    if !first && t.head? == some ']' then .ok (r, t.drop 1)
    else do
      match ← parseNamedClass fold t r with
      | some (r, t) => classItems fold whole fuel false t r
      | none =>
      match ← parseUnicodeClass fold t r with
      | some (r, t) => classItems fold whole fuel false t r
      | none =>
      match parsePerlClass fold t r with
      | some (r, t) => classItems fold whole fuel false t r
      | none =>
        let (lo, t1) ← parseClassChar t whole
        let (hi, t2) ← match t1 with
          | '-' :: c :: _ => if c != ']' then parseClassChar (t1.drop 1) whole else pure (lo, t1)
          | _ => pure (lo, t1)
        if hi < lo then failAt .invalidCharRange t t2
        else
          let r := if fold then r.union (foldedRange lo hi) else r.insert lo hi
          classItems fold whole fuel false t2 r

/-- Reads a bracketed class at the front of `s`: its code points and the rest. -/
def parseClass (fold : Bool) (s : List Char) : Except PatternError (Ranges × List Char) := do
  let t := s.drop 1
  let (negated, t) := match t with
    | '^' :: t' => (true, t')
    | _ => (false, t)
  let (r, rest) ← classItems fold s (t.length + 1) true t []
  pure (if negated then r.complement else r, rest)

/-- Reads a repetition count at the front of `s`: digits without a leading zero, with
`-1` for a number of more than eight digits. -/
def parseCount (s : List Char) : Option (Int × List Char) :=
  let digits := s.takeWhile Char.isDigit
  match digits with
  | [] => none
  | '0' :: _ :: _ => none
  | _ =>
    let value := digits.foldl (fun (n : Int) d =>
      if n < 0 || n ≥ 100000000 then -1 else n * 10 + (d.toNat - 48)) 0
    some (value, s.drop digits.length)

/-- Reads `{n}`, `{n,}` or `{n,m}` at the front of `s`: the bounds (`-1` for no upper
bound) and the rest; none when it is not a repetition count. -/
def parseRepeat (s : List Char) : Option (Int × Int × List Char) :=
  match s with
  | '{' :: s1 =>
    match parseCount s1 with
    | none => none
    | some (min, s2) =>
      let bounds : Option (Int × Int × List Char) :=
        match s2 with
        | [] => none
        | ',' :: s3 =>
          match s3 with
          | [] => none
          | '}' :: _ => some (min, -1, s3)
          | _ =>
            match parseCount s3 with
            | none => none
            | some (max, s4) => some (if max < 0 then -1 else min, max, s4)
        | _ => some (min, min, s2)
      match bounds with
      | some (min, max, '}' :: rest) => some (min, max, rest)
      | _ => none
  | _ => none

/-- Whether a group name is letters, digits and underscores, and not empty. -/
def validGroupName (name : List Char) : Bool :=
  !name.isEmpty && name.all fun c => c == '_' || isAlnum c

/-- The text before `\E`, and the rest after it (or nothing when there is no `\E`). -/
def quoted : List Char → List Char × List Char
  | '\\' :: 'E' :: rest => ([], rest)
  | c :: rest => let (q, r) := quoted rest; (c :: q, r)
  | [] => ([], [])

namespace Parser

/-- Reads the flag letters of `(?flags)` or `(?flags:`, from `t`; `s` starts at the
opening parenthesis. -/
def flagLetters (p : Parser) (s : List Char) :
    List Char → Flags → Bool → Bool → Except PatternError (Parser × List Char)
  | [], _, _, _ => failAt .invalidPerlOp s []
  | c :: t, flags, negating, saw =>
    if c == 'i' then flagLetters p s t { flags with foldCase := !negating } negating true
    else if c == 'm' then flagLetters p s t { flags with oneLine := negating } negating true
    else if c == 's' then flagLetters p s t { flags with dotNL := !negating } negating true
    else if c == 'U' then flagLetters p s t { flags with nonGreedy := !negating } negating true
    else if c == '-' then
      if negating then failAt .invalidPerlOp s t else flagLetters p s t flags true false
    else if c == ':' || c == ')' then
      if negating && !saw then failAt .invalidPerlOp s t
      else
        let q := if c == ':' then p.pushMarker (.group 0 "" p.flags) else p
        .ok ({ q with flags := flags }, t)
    else failAt .invalidPerlOp s t

/-- Reads a group or flag change starting with `(?` at the front of `s`. -/
def perlGroup (p : Parser) (s : List Char) : Except PatternError (Parser × List Char) :=
  let named := match s with
    | '(' :: '?' :: 'P' :: '<' :: _ :: _ => some 4
    | '(' :: '?' :: '<' :: _ :: _ => some 3
    | _ => none
  match named with
  | some start =>
    match s.findIdx? (· == '>') with
    | none => .error ⟨.invalidNamedCapture, String.ofList s⟩
    | some e =>
      let name := (s.take e).drop start
      if !validGroupName name then .error ⟨.invalidNamedCapture, String.ofList (s.take (e + 1))⟩
      else
        let index := p.groups + 1
        let q := p.pushMarker (.group index (String.ofList name) p.flags)
        .ok ({ q with groups := index }, s.drop (e + 1))
  | none => p.flagLetters s (s.drop 2) p.flags false false

/-- Reads an escape outside a class at the front of `t`. -/
def escape (p : Parser) (t : List Char) : Except PatternError (Parser × List Char) :=
  match t.drop 1 with
  | 'A' :: rest => .ok (p.push .beginText, rest)
  | 'b' :: rest => .ok (p.push .wordBoundary, rest)
  | 'B' :: rest => .ok (p.push .noWordBoundary, rest)
  | 'C' :: rest => failAt .invalidEscape t rest
  | 'Q' :: rest =>
    let (lit, after) := quoted rest
    .ok (lit.foldl (fun q c => q.literal c.toNat) p, after)
  | 'z' :: rest => .ok (p.push (.endText false), rest)
  | _ => do
    match ← parseUnicodeClass p.flags.foldCase t [] with
    | some (r, rest) => pure (p.push (.charClass r), rest)
    | none =>
      match parsePerlClass p.flags.foldCase t [] with
      | some (r, rest) => pure (p.push (.charClass r), rest)
      | none =>
        let (c, rest) ← parseEscape t
        pure (p.literal c, rest)

/-- Reads one token at the front of `t`: the parser after it, the rest, and the text
from the token on when it is a repetition operator (else empty). -/
def step (whole : List Char) (p : Parser) (t last : List Char) :
    Except PatternError (Parser × List Char × List Char) :=
  match t with
  | [] => .ok (p, [], [])
  | c :: rest =>
    if c == '(' then
      match rest with
      | '?' :: _ => do let (p, t') ← p.perlGroup t; pure (p, t', [])
      | _ =>
        let index := p.groups + 1
        let q := p.pushMarker (.group index "" p.flags)
        .ok ({ q with groups := index }, rest, [])
    else if c == '|' then .ok (p.verticalBar, rest, [])
    else if c == ')' then do let p ← p.rightParen whole; pure (p, rest, [])
    else if c == '^' then .ok (p.push (if p.flags.oneLine then .beginText else .beginLine), rest, [])
    else if c == '$' then .ok (p.push (if p.flags.oneLine then .endText true else .endLine), rest, [])
    else if c == '.' then .ok (p.push (if p.flags.dotNL then .anyChar else .anyCharNotNL), rest, [])
    else if c == '[' then do
      let (r, t') ← parseClass p.flags.foldCase t
      pure (p.push (.charClass r), t', [])
    else if c == '*' then do
      let (p, t') ← p.repetition .star false 0 0 t rest last
      pure (p, t', t)
    else if c == '+' then do
      let (p, t') ← p.repetition .plus false 0 0 t rest last
      pure (p, t', t)
    else if c == '?' then do
      let (p, t') ← p.repetition .quest false 0 0 t rest last
      pure (p, t', t)
    else if c == '{' then
      match parseRepeat t with
      | none => .ok (p.literal c.toNat, rest, [])
      | some (min, max, after) =>
        if min < 0 || min > 1000 || max > 1000 || (max ≥ 0 && min > max) then
          failAt .invalidRepeatSize t after
        else do
          let (p, t') ← p.repetition (fun lazy sub => .rep min max lazy sub) true min max t after last
          pure (p, t', t)
    else if c == '\\' then do
      let (p, t') ← p.escape t
      pure (p, t', [])
    else .ok (p.literal c.toNat, rest, [])

/-- Reads tokens until the text ends or a node is too high; each token takes at least one
character, so `fuel` at least the length of the text suffices. -/
def run (whole : List Char) : Nat → Parser → List Char → List Char → Except PatternError Parser
  | 0, p, _, _ => .ok p
  | fuel + 1, p, t, last =>
    match t with
    | [] => .ok p
    | _ => do
      let (p, t', rep) ← p.step whole t last
      if p.tooDeep then .error ⟨.nestingDepth, String.ofList whole⟩
      else run whole fuel p t' rep

end Parser

/-- Reads a pattern in the Perl-like RE2 syntax. -/
def Regex.parse (pattern : String) : Except PatternError Regex := do
  let whole := pattern.toList
  let p ← Parser.run whole (whole.length + 1) { fuel := whole.length + 1 } whole []
  let p := p.finishAlternation
  if p.tooDeep then .error ⟨.nestingDepth, pattern⟩ else
  match p.stack with
  | [.re r] => pure r
  | _ => .error ⟨.missingParen, pattern⟩

end EdgeQuery.Pattern
