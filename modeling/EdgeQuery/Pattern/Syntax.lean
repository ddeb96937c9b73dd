import EdgeQuery.Text.Unicode.Case
/-! # Regular expressions

The tree of a regular expression in the RE2 dialect: literals (with a case-folding
flag), character classes, the empty-width assertions, groups, repetition, concatenation
and alternation.

Character classes are sets of code points, kept as sorted lists of disjoint, non-adjacent
inclusive ranges (`Ranges`). Every set has exactly one such list, so equal classes have
equal lists.

`Regex.same` is structural equality as the factoring of alternations uses it: it looks at
the code points of literals and classes but not at their flags. -/

namespace EdgeQuery.Pattern

/-- The largest code point. -/
def maxRune : Nat := 0x10FFFF

/-- The parse flags that can change inside a pattern. -/
structure Flags where
  /-- Case-insensitive matching (`i`). -/
  foldCase : Bool := false
  /-- `.` matches a newline (`s`). -/
  dotNL : Bool := false
  /-- `^` and `$` match only at the ends of the text (cleared by `m`). -/
  oneLine : Bool := true
  /-- Repetitions prefer fewer matches (`U`). -/
  nonGreedy : Bool := false
  deriving DecidableEq, Inhabited

/-- Sets of code points as sorted, disjoint, non-adjacent inclusive ranges. -/
abbrev Ranges := List (Nat × Nat)

namespace Ranges

/-- Adds the range `lo..hi`, merging it with the ranges it overlaps or touches. -/
def insert : Ranges → Nat → Nat → Ranges
  | [], lo, hi => [(lo, hi)]
  | (a, b) :: rest, lo, hi =>
    if hi + 1 < a then (lo, hi) :: (a, b) :: rest
    else if b + 1 < lo then (a, b) :: insert rest lo hi
    else insert rest (min a lo) (max b hi)

/-- The union of two sets. -/
def union (r s : Ranges) : Ranges := s.foldl (fun acc p => insert acc p.1 p.2) r

/-- The code points from `next` on that are not in the set. -/
def gaps : Nat → Ranges → Ranges
  | next, [] => if next ≤ maxRune then [(next, maxRune)] else []
  | next, (a, b) :: rest => (if next < a then [(next, a - 1)] else []) ++ gaps (b + 1) rest

/-- The complement of a set among all code points. -/
def complement (r : Ranges) : Ranges := gaps 0 r

/-- Whether a code point is in the set. -/
def contains (r : Ranges) (c : Nat) : Bool := r.any fun p => p.1 ≤ c && c ≤ p.2

/-- The set of one code point. -/
def single (c : Nat) : Ranges := [(c, c)]

/-- A set given by possibly unsorted, overlapping ranges. -/
def ofList (ps : List (Nat × Nat)) : Ranges := union [] ps

end Ranges

/-- The smallest and largest code points with case-folding partners. -/
def minFold : Nat := 0x41
def maxFold : Nat := 0x1E943

/-- The code points equivalent to `c` under simple case folding, `c` included. -/
def orbit (c : Nat) : List Nat := c :: Unicode.foldOthers c

/-- The smallest code point equivalent to `c` under simple case folding. -/
def minFoldRune (c : Nat) : Nat := (orbit c).foldl min c

/-- A set closed under simple case folding: every code point of the set with all the
code points equivalent to it. -/
def Ranges.foldClosure (r : Ranges) : Ranges :=
  Unicode.foldTable.foldl (fun acc p =>
    if r.contains p.1 then acc.union (Ranges.ofList ((orbit p.1).map fun c => (c, c))) else acc) r

/-- The range `lo..hi` with every code point equivalent to one in it. -/
def foldedRange (lo hi : Nat) : Ranges := (Ranges.single lo |>.insert lo hi).foldClosure

/-- A regular expression. -/
inductive Regex where
  /-- Matches nothing. -/
  | noMatch
  /-- Matches the empty string. -/
  | emptyMatch
  /-- A sequence of code points; with `flags.foldCase` each stands for its case-folding
  orbit. -/
  | literal (runes : List Nat) (flags : Flags)
  /-- One code point of a set. -/
  | charClass (ranges : Ranges)
  /-- Any code point but a newline. -/
  | anyCharNotNL
  /-- Any code point. -/
  | anyChar
  | beginLine
  | endLine
  | beginText
  /-- The end of the text; `dollar` records that it was written `$`. -/
  | endText (dollar : Bool)
  | wordBoundary
  | noWordBoundary
  /-- A group, numbered from 1 (and maybe named), whose matches are reported. -/
  | capture (index : Nat) (name : String) (sub : Regex)
  | star (lazy : Bool) (sub : Regex)
  | plus (lazy : Bool) (sub : Regex)
  | quest (lazy : Bool) (sub : Regex)
  /-- Between `min` and `max` repetitions; `max = -1` bounds nothing. -/
  | rep (min max : Int) (lazy : Bool) (sub : Regex)
  | concat (subs : List Regex)
  | alternate (subs : List Regex)
  deriving Inhabited

namespace Regex

/-- The height of a node: one for a node without parts, else one more than its highest
part. -/
def height : Regex → Nat
  | capture _ _ sub | star _ sub | plus _ sub | quest _ sub | rep _ _ _ sub => height sub + 1
  | concat subs | alternate subs => heightAll subs + 1
  | _ => 1
where
  heightAll : List Regex → Nat
    | [] => 0
    | s :: ss => max (height s) (heightAll ss)

/-- The rank of a node's kind, in the order the factoring of alternations compares
kinds. -/
def rank : Regex → Nat
  | noMatch => 1
  | emptyMatch => 2
  | literal .. => 3
  | charClass _ => 4
  | anyCharNotNL => 5
  | anyChar => 6
  | beginLine => 7
  | endLine => 8
  | beginText => 9
  | endText _ => 10
  | wordBoundary => 11
  | noWordBoundary => 12
  | capture .. => 13
  | star .. => 14
  | plus .. => 15
  | quest .. => 16
  | rep .. => 17
  | concat _ => 18
  | alternate _ => 19

mutual

/-- Structural equality that ignores the flags of literals. -/
def same : Regex → Regex → Bool
  | noMatch, noMatch | emptyMatch, emptyMatch | anyCharNotNL, anyCharNotNL
  | anyChar, anyChar | beginLine, beginLine | endLine, endLine
  | beginText, beginText | wordBoundary, wordBoundary
  | noWordBoundary, noWordBoundary => true
  | endText a, endText b => a == b
  | literal r _, literal s _ => r == s
  | charClass r, charClass s => r == s
  | capture i n a, capture j m b => i == j && n == m && same a b
  | star l a, star m b | plus l a, plus m b | quest l a, quest m b => l == m && same a b
  | rep i j l a, rep k n m b => l == m && i == k && j == n && same a b
  | concat xs, concat ys | alternate xs, alternate ys => sameAll xs ys
  | _, _ => false

/-- Pairwise structural equality of two lists. -/
def sameAll : List Regex → List Regex → Bool
  | [], [] => true
  | x :: xs, y :: ys => same x y && sameAll xs ys
  | _, _ => false

end

/-- Whether a node matches exactly one code point: a one-rune literal, a class or a dot. -/
def isCharClass : Regex → Bool
  | literal [_] _ | charClass _ | anyCharNotNL | anyChar => true
  | _ => false

/-- Whether a node that matches one code point matches `c`. -/
def matchesRune (re : Regex) (c : Nat) : Bool :=
  match re with
  | literal [r] _ => r == c
  | charClass r => r.contains c
  | anyCharNotNL => c != 10
  | anyChar => true
  | _ => false

/-- The code points a one-rune literal stands for. -/
def literalSet (c : Nat) (flags : Flags) : Ranges :=
  if flags.foldCase then foldedRange c c else Ranges.single c

/-- Merges a one-code-point node into another at least as complex one. -/
def mergeClass (dst src : Regex) : Regex :=
  match dst with
  | anyChar => anyChar
  | anyCharNotNL => if src.matchesRune 10 then anyChar else anyCharNotNL
  | charClass r =>
    match src with
    | literal (c :: _) f => charClass (r.union (literalSet c f))
    | charClass s => charClass (r.union s)
    | _ => dst
  | literal (c :: _) f =>
    match src with
    | literal (d :: _) g =>
      if c == d && f == g then dst else charClass ((literalSet c f).union (literalSet d g))
    | _ => dst
  | _ => dst

/-- A class about to stand in an alternation: the class of all code points is written as
a dot that matches newlines, and the class of all but the newline as a plain dot. -/
def cleanAlt : Regex → Regex
  | charClass r =>
    if r == [(0, maxRune)] then anyChar
    else if r == [(0, 9), (11, maxRune)] then anyCharNotNL
    else charClass r
  | re => re

end Regex

end EdgeQuery.Pattern
