import EdgeQuery.Pattern.Syntax
import EdgeQuery.Text.Unicode.Category
import EdgeQuery.Text.Unicode.Script
/-! # Named character classes

The classes a pattern can name: the Perl escapes (`\d`, `\s`, `\w` and their negations),
the POSIX classes inside brackets (`[:alpha:]`, `[:^space:]`), and the Unicode general
categories and scripts (`\p{L}`, `\p{Greek}`, `\PN`).

Unicode names are looked up without regard to case, blanks, underscores and hyphens, and
the long names of the categories (`Letter`, `Uppercase_Letter`) stand for the short ones.
Besides categories and scripts there are `Any`, `ASCII`, `Assigned` and `LC` (the cased
letters). -/

namespace EdgeQuery.Pattern

/-- A named class: its code points, and whether the name stands for their complement. -/
structure Group where
  ranges : Ranges
  negated : Bool := false

/-- The Perl class escapes, by the letter after the backslash. -/
def perlGroup? : Char → Option Group
  | 'd' => some ⟨[(0x30, 0x39)], false⟩
  | 'D' => some ⟨[(0x30, 0x39)], true⟩
  | 's' => some ⟨[(9, 10), (12, 13), (32, 32)], false⟩
  | 'S' => some ⟨[(9, 10), (12, 13), (32, 32)], true⟩
  | 'w' => some ⟨[(0x30, 0x39), (0x41, 0x5A), (0x5F, 0x5F), (0x61, 0x7A)], false⟩
  | 'W' => some ⟨[(0x30, 0x39), (0x41, 0x5A), (0x5F, 0x5F), (0x61, 0x7A)], true⟩
  | _ => none

/-- The POSIX classes by name, without the brackets and colons. -/
def posixClass? : String → Option Ranges
  | "alnum" => some [(0x30, 0x39), (0x41, 0x5A), (0x61, 0x7A)]
  | "alpha" => some [(0x41, 0x5A), (0x61, 0x7A)]
  | "ascii" => some [(0, 0x7F)]
  | "blank" => some [(9, 9), (32, 32)]
  | "cntrl" => some [(0, 0x1F), (0x7F, 0x7F)]
  | "digit" => some [(0x30, 0x39)]
  | "graph" => some [(0x21, 0x7E)]
  | "lower" => some [(0x61, 0x7A)]
  | "print" => some [(0x20, 0x7E)]
  | "punct" => some [(0x21, 0x2F), (0x3A, 0x40), (0x5B, 0x60), (0x7B, 0x7E)]
  | "space" => some [(9, 13), (32, 32)]
  | "upper" => some [(0x41, 0x5A)]
  | "word" => some [(0x30, 0x39), (0x41, 0x5A), (0x5F, 0x5F), (0x61, 0x7A)]
  | "xdigit" => some [(0x30, 0x39), (0x41, 0x46), (0x61, 0x66)]
  | _ => none

/-- A POSIX class written `[:name:]` or `[:^name:]`. -/
def posixGroup? (written : String) : Option Group :=
  if written.startsWith "[:^" then
    (posixClass? ((written.drop 3).dropEnd 2).toString).map fun r => ⟨r, true⟩
  else (posixClass? ((written.drop 2).dropEnd 2).toString).map fun r => ⟨r, false⟩

/-- Adds a range to a set built in increasing order, merging with the last range when
they touch. The set is kept reversed. -/
def pushRange (acc : Ranges) (lo hi : Nat) : Ranges :=
  match acc with
  | (a, b) :: rest => if lo ≤ b + 1 then (a, max b hi) :: rest else (lo, hi) :: acc
  | [] => [(lo, hi)]

/-- The code points of the runs of a table whose value satisfies `p`. -/
def runRanges {α : Type} (t : Array (Nat × α)) (p : α → Bool) : Ranges :=
  let starts := t.toList
  let stops := (starts.drop 1).map (fun q => q.1 - 1) ++ [maxRune]
  ((starts.zip stops).foldl (fun acc (q, stop) =>
    if p q.2 then pushRange acc q.1 stop else acc) []).reverse

/-- The code points of the general categories satisfying `p`. -/
def categoryRanges (p : Unicode.Category → Bool) : Ranges := runRanges Unicode.categoryTable p

/-- The canonical form of a property name: lower case, without blanks, underscores or
hyphens. -/
def canonicalName (s : String) : String :=
  String.ofList ((s.toList.filter fun c => c != ' ' && c != '_' && c != '-').map Char.toLower)

/-- The long names of the general categories and of their major classes, with the short
names they stand for. -/
def categoryAliases : List (String × String) :=
  [("other", "C"), ("control", "Cc"), ("cntrl", "Cc"), ("format", "Cf"),
   ("unassigned", "Cn"), ("privateuse", "Co"), ("surrogate", "Cs"), ("letter", "L"),
   ("casedletter", "LC"), ("lowercaseletter", "Ll"), ("modifierletter", "Lm"),
   ("otherletter", "Lo"), ("titlecaseletter", "Lt"), ("uppercaseletter", "Lu"),
   ("mark", "M"), ("combiningmark", "M"), ("spacingmark", "Mc"), ("enclosingmark", "Me"),
   ("nonspacingmark", "Mn"), ("number", "N"), ("decimalnumber", "Nd"), ("digit", "Nd"),
   ("letternumber", "Nl"), ("othernumber", "No"), ("punctuation", "P"), ("punct", "P"),
   ("connectorpunctuation", "Pc"), ("dashpunctuation", "Pd"), ("closepunctuation", "Pe"),
   ("finalpunctuation", "Pf"), ("initialpunctuation", "Pi"), ("otherpunctuation", "Po"),
   ("openpunctuation", "Ps"), ("symbol", "S"), ("currencysymbol", "Sc"),
   ("modifiersymbol", "Sk"), ("mathsymbol", "Sm"), ("othersymbol", "So"),
   ("separator", "Z"), ("lineseparator", "Zl"), ("paragraphseparator", "Zp"),
   ("spaceseparator", "Zs")]

/-- The categories a short name stands for: one category, or a major class (`C` leaves
out the unassigned code points), or `LC`. -/
def categoriesOf? (short : String) : Option (Unicode.Category → Bool) :=
  if short = "LC" then some fun c => c = .Lu || c = .Ll || c = .Lt
  else if short = "C" then some fun c => c.major = 'C' && c != .Cn
  else if short.length = 1 then
    if Unicode.Category.all.any (fun c => c.major == short.front) then
      some fun c => c.major == short.front
    else none
  else (Unicode.Category.ofName? short).map fun k => fun c => c == k

/-- The code points a Unicode property name stands for, if it names one. -/
def unicodeClass? (name : String) : Option Ranges :=
  let n := canonicalName name
  if n = "any" then some [(0, maxRune)]
  else if n = "ascii" then some [(0, 0x7F)]
  else if n = "assigned" then some (categoryRanges fun c => c != .Cn)
  else
    let short := match categoryAliases.find? (·.1 == n) with
      | some (_, s) => some s
      | none =>
        (["LC", "C", "L", "M", "N", "P", "S", "Z"] ++
          Unicode.Category.all.map (fun (c : Unicode.Category) => c.name)).find?
          fun s => canonicalName s == n
    match short.bind categoriesOf? with
    | some p => some (categoryRanges p)
    | none =>
      match (Unicode.scriptNameList.toList.zipIdx).find?
          (fun (q : String × Nat) => q.1 != "Unknown" && canonicalName q.1 == n) with
      | some (_, i) => some (runRanges Unicode.scriptTable (· == i))
      | none => none

end EdgeQuery.Pattern
