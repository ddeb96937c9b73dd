import EdgeQuery.Query.Dnf
import EdgeQuery.Pattern.Parser
import EdgeQuery.Pattern.Simplify
import EdgeQuery.Edge.Basic
import EdgeQuery.Edge.Prefilter
/-! # What a branch binds

A plan reads the key ranges of a query off the branches of its disjunctive normal form.
In a branch, a term `FIELD == 'text'` (or `'text' == FIELD`) binds the field to that
value by equality; `SOURCE =~ 'pattern'` binds `SOURCE` to the pattern's literal text
when the pattern matches only that text, and otherwise gives a row prefix when the
pattern starts with a literal. Every other term, and every negated term, constrains the
fields it mentions in some other way.

The ranges of a branch are one row range per bound source and sink pair, all the rows of
a bound source when no sink is bound, and a row prefix per pattern prefix. A branch with no
range cannot be scanned without reading everything.

The prefilter keeps, for each field other than `SOURCE` and `SINK`, the values that every
branch binds it to by equality alone; a field that some branch leaves open, or constrains
otherwise, is left out. The column families are the type and relation pairs when every
branch binds both `TYPE` and `RELATION` by equality. -/

namespace EdgeQuery.Plan

open Query Store

/-- The constraints one branch puts on each field. -/
structure Bindings where
  /-- The values each field is compared equal to, fields in first-bound order. -/
  eq : List (String × List String) := []
  /-- The fields constrained in any other way. -/
  other : List String := []
  /-- The literal prefixes of the patterns `SOURCE` is matched against. -/
  sourcePrefixes : List String := []
  deriving Inhabited, Repr

namespace Bindings

/-- The values a field is bound to by equality. -/
def valuesOf (b : Bindings) (field : String) : List String :=
  ((b.eq.find? (·.1 == field)).map (·.2)).getD []

/-- Adds an equality. -/
def bindEq (b : Bindings) (field value : String) : Bindings :=
  if b.eq.any (·.1 == field) then
    { b with eq := b.eq.map fun (f, vs) => if f == field then (f, vs ++ [value]) else (f, vs) }
  else { b with eq := b.eq ++ [(field, [value])] }

/-- Marks a field as constrained otherwise. -/
def constrain (b : Bindings) (field : String) : Bindings :=
  if b.other.contains field then b else { b with other := b.other ++ [field] }

/-- Whether a field is constrained otherwise. -/
def isConstrained (b : Bindings) (field : String) : Bool := b.other.contains field

end Bindings

/-- A term as `FIELD op literal`: a field compared with a literal, or a literal compared
with a field by `==` or `!=`; parentheses are looked through. -/
def fieldComparison (e : Expr) : Option (String × Literal × CompareOp) :=
  match e.deref with
  | .compare op l r =>
    match l.deref, r.deref with
    | .field n, .lit v => some (n, v, op)
    | .lit v, .field n => if op == .eq || op == .ne then some (n, v, op) else none
    | _, _ => none
  | _ => none

/-- The text of a code point; a value that is no code point reads as the replacement
character. -/
def runeChar (r : Nat) : Char :=
  if r < 0xD800 || (0xDFFF < r && r ≤ 0x10FFFF) then Char.ofNat r else '�'

/-- The literal text every match of a pattern starts with, and whether the pattern matches
only that text (see `Pattern.Regex.literalPrefix`); a pattern that does not read has none. -/
def patternPrefix (pattern : String) : String × Bool :=
  match Pattern.Regex.parse pattern with
  | .ok re =>
    let (runes, whole) := re.simplify.literalPrefix
    (String.ofList (runes.map runeChar), whole)
  | .error _ => ("", false)

/-- The text of a string literal; other literals have none. -/
def literalText : Literal → String
  | .str s => s
  | _ => ""

/-- Adds the constraint of one term of a branch. -/
def Bindings.add (b : Bindings) (a : Atom) : Bindings :=
  match fieldComparison a.expr with
  | some (field, lit, op) =>
    if a.negated then a.expr.fields.foldl Bindings.constrain b
    else if op == .eq && lit.kind == .string then b.bindEq field (literalText lit)
    else if op == .like && field == "SOURCE" then
      let (pre, whole) := patternPrefix (literalText lit)
      let b := if whole then b.bindEq field pre
        else if pre.isEmpty then b
        else { b with sourcePrefixes := b.sourcePrefixes ++ [pre] }
      b.constrain field
    else b.constrain field
  | none => a.expr.fields.foldl Bindings.constrain b

/-- The bindings of a branch. -/
def Bindings.ofBranch (branch : Branch) : Bindings := branch.foldl Bindings.add {}

/-- The row ranges of a branch (see the module comment). -/
def Bindings.ranges (b : Bindings) : List Range :=
  let sinks := b.valuesOf "SINK"
  (b.valuesOf "SOURCE").flatMap (fun source =>
    if sinks.isEmpty then [Range.rowPrefix (Edge.row (Bytes.ofString source) [])]
    else sinks.map fun sink => Range.exactRow (Edge.row (Bytes.ofString source) (Bytes.ofString sink))) ++
  b.sourcePrefixes.map fun p => Range.rowPrefix (Bytes.ofString p)

/-- The value that marks a field as not prefilterable. -/
def disablePrefilter : String := "__DISABLE_PREFILTER__"

/-- Strings in byte order, each once. -/
def sortedDistinct (xs : List String) : List String :=
  (xs.mergeSort (· ≤ ·)).eraseDups

/-- The prefilter candidates: for each field some branch mentions (other than `SOURCE` and
`SINK`), the values of every branch in turn, with the disabling value for a branch that
leaves the field open or constrains it otherwise. -/
def prefilterCandidates (bs : List Bindings) : List (String × List String) :=
  let fields := sortedDistinct (bs.flatMap fun b => b.eq.map (·.1) ++ b.other)
  (fields.filter fun f => f != "SOURCE" && f != "SINK").map fun f =>
    (f, bs.flatMap fun b =>
      if b.isConstrained f || (b.valuesOf f).isEmpty then [disablePrefilter] else b.valuesOf f)

/-- The prefilter: the candidates without disabled fields, values sorted and distinct; none
at all when more than `maxFields` fields remain. -/
def prunePrefilter (maxFields : Int) (cands : List (String × List String)) : Edge.Prefilter :=
  let kept := cands.filter fun (_, vs) => !vs.isEmpty && !vs.contains disablePrefilter
  if (kept.length : Int) > maxFields then {}
  else kept.foldl (fun p (f, vs) =>
    p.insert (Bytes.ofString f) ((sortedDistinct vs).map Bytes.ofString)) {}

/-- The column families every branch allows, sorted and distinct; none (all families)
unless every branch binds both `TYPE` and `RELATION`. -/
def columnFamilies (bs : List Bindings) : List Bytes :=
  if bs.all fun b => !(b.valuesOf "TYPE").isEmpty && !(b.valuesOf "RELATION").isEmpty then
    (sortedDistinct (bs.flatMap fun b =>
      (b.valuesOf "TYPE").flatMap fun t => (b.valuesOf "RELATION").map fun r => t ++ "/" ++ r)).map
      Bytes.ofString
  else []

end EdgeQuery.Plan
