import EdgeQuery.Store.Stage
import EdgeQuery.Store.Range
/-! # Scan plans

A scan plan is the filter text the plan evaluates and a list of units. A unit is scanned on
its own: its key ranges in key order, through its stages, keeping only the column
families it allows (all of them when it names none). A unit remembers the last key it
produced, so that a paused scan can go on after it: the remaining part of a unit is its
ranges, sorted, each cut to the keys after the last one, and those wholly before it
dropped.

`Plan.explain` writes a plan for people to read, one line per range, stage, family list
and last key under each unit. -/

namespace EdgeQuery.Plan

open Store

/-- One independently scanned part of a plan. -/
structure ScanUnit where
  ranges : List Range := []
  stages : List Stage := []
  /-- The column families scanned; none means all. -/
  families : List Bytes := []
  /-- The last key the unit produced, if any. -/
  lastKey : Option Key := none
  deriving DecidableEq, Inhabited, Repr

end EdgeQuery.Plan

namespace EdgeQuery

/-- A compiled query. -/
structure Plan where
  /-- The filter text the expression stage evaluates. -/
  query : String
  units : List Plan.ScanUnit
  deriving Inhabited, Repr

end EdgeQuery

namespace EdgeQuery.Plan

open Store

namespace ScanUnit

/-- What is left of a unit after its last key. -/
def remaining (u : ScanUnit) : ScanUnit :=
  match u.lastKey with
  | none => u
  | some k => { u with ranges := (Range.sort u.ranges).filterMap (·.after k) }

/-- The lines that describe a unit. -/
def explainLines (u : ScanUnit) : List String :=
  u.ranges.map (fun r => "  range   " ++ Bytes.toUtf8 r.render) ++
  u.stages.map (fun s => "  stage   " ++ s.render) ++
  (if u.families.isEmpty then []
   else ["  columns " ++ ", ".intercalate (u.families.map Bytes.toUtf8)]) ++
  (match u.lastKey with
   | some k => ["  after   " ++ Bytes.toUtf8 k.render]
   | none => [])

end ScanUnit

/-- Splits a list into pieces of `n` elements, the last one possibly shorter. -/
def chunks {α : Type} (n : Nat) (xs : List α) : List (List α) :=
  if n = 0 then [xs] else go xs.length xs
where
  /-- Cuts pieces with `fuel` steps to go: each piece takes at least one element, so as many
  steps as elements always suffice. -/
  go : Nat → List α → List (List α)
    | _, [] => []
    | 0, xs => [xs]
    | fuel + 1, xs => xs.take n :: go fuel (xs.drop n)

/-- Divides the ranges of a unit into units of at most `n` ranges; a limit of zero or less
keeps the unit whole. -/
def ScanUnit.split (u : ScanUnit) (n : Int) : List ScanUnit :=
  if n ≤ 0 || u.ranges.length ≤ n.toNat then [u]
  else (chunks n.toNat u.ranges).map fun rs => { u with ranges := rs }

/-- The plan as text: the query, then each unit with its ranges, stages, column families
and last key. -/
def explain (p : Plan) : String :=
  let lines := ("query: " ++ p.query) ::
    (p.units.zipIdx.flatMap fun (u, i) => ("unit " ++ toString i ++ ":") :: u.explainLines)
  String.join (lines.map (· ++ "\n"))

end EdgeQuery.Plan
