import EdgeQuery.Query.Syntax
/-! # Flattening junctions

Flattening removes the structure that does not change the meaning of a filter's boolean
skeleton: parentheses disappear (unless they hold an empty slot), a conjunction directly
inside a conjunction gives up its terms to the outer one, and likewise for disjunctions,
and a junction left with a single term becomes that term. Negations stay, and nothing
inside a comparison, arithmetic or call is touched.

`spliceJunctions` is the one-level version used after rewriting: it looks through
parentheses around the terms of a junction and takes the terms of the same kind of
junction into it, but does not go further down. -/

namespace EdgeQuery.Query

namespace Expr

/-- The terms a flattened child contributes to a conjunction: its own terms if it is a
conjunction, else itself. -/
def andPieces : Expr → List Expr
  | and ts => ts
  | e => [e]

/-- The terms a flattened child contributes to a disjunction. -/
def orPieces : Expr → List Expr
  | or ts => ts
  | e => [e]

/-- A junction of flattened terms: a single term stands alone. -/
def junction (mk : List Expr → Expr) : List Expr → Expr
  | [t] => t
  | ts => mk ts

mutual

/-- Flattens an expression. -/
def flatten : Expr → Expr
  | paren t =>
    match t with
    | hole => paren hole
    | t => flatten t
  | not t =>
    match t with
    | hole => not hole
    | t => not (flatten t)
  | and ts => junction and (flattenAnd ts)
  | or ts => junction or (flattenOr ts)
  | e => e

/-- The flattened terms of a conjunction. -/
def flattenAnd : List Expr → List Expr
  | [] => []
  | t :: ts => andPieces (flatten t) ++ flattenAnd ts

/-- The flattened terms of a disjunction. -/
def flattenOr : List Expr → List Expr
  | [] => []
  | t :: ts => orPieces (flatten t) ++ flattenOr ts

end

/-- Takes into a conjunction the terms of the conjunctions among its direct terms, looking
through parentheses; one level only. -/
def spliceAnd (ts : List Expr) : List Expr := ts.flatMap fun t => andPieces t.deref

/-- Takes into a disjunction the terms of the disjunctions among its direct terms. -/
def spliceOr (ts : List Expr) : List Expr := ts.flatMap fun t => orPieces t.deref

/-- Splices the terms of a junction one level, as `spliceAnd` and `spliceOr` do; other
expressions stay. -/
def spliceJunctions : Expr → Expr
  | and ts => and (spliceAnd ts)
  | or ts => or (spliceOr ts)
  | e => e

end Expr

end EdgeQuery.Query
