import EdgeQuery.Query.Printer
import EdgeQuery.Report
/-! # Disjunctive normal form

A filter in disjunctive normal form is a disjunction of branches, each a conjunction of
possibly negated leaves: `(A AND B) OR (C AND D)`. A plan looks at one branch at a time to
find the terms that bound a key range.

The form is computed by pushing negations down with De Morgan's laws (`!(A && B)` is
`!A || !B`, `!(A || B)` is `!A && !B`, `!!A` is `A`), taking the union of the branches of
the terms of a disjunction and the cross product of the branches of the terms of a
conjunction. Parentheses are looked through, and an empty slot contributes one empty
branch. Every leaf other than these connectives (comparison, call, field, literal,
arithmetic) is an atom.

The number of branches can grow exponentially, so a limit may be given: the computation
fails as soon as a union or a product it has built so far holds more branches than the
limit. -/

namespace EdgeQuery.Query

/-- A leaf of a branch, possibly negated. -/
structure Atom where
  expr : Expr
  negated : Bool
  deriving Inhabited

/-- A conjunction of atoms. -/
abbrev Branch := List Atom

/-- A disjunction of branches. -/
structure Dnf where
  branches : List Branch
  deriving Inhabited

/-- An atom as text: a negated one is wrapped in `!( )`. -/
def Atom.render (a : Atom) : String :=
  if a.negated then "!(" ++ a.expr.render ++ ")" else a.expr.render

namespace Dnf

/-- Whether a list of branches is larger than a limit; a limit of zero bounds nothing. -/
def exceeds (limit : Nat) (bs : List Branch) : Bool := limit > 0 && bs.length > limit

/-- Every branch of `left` followed by every branch of `right`, merged pairwise. -/
def product (left right : List Branch) : List Branch :=
  left.flatMap fun l => right.map fun r => l ++ r

mutual

/-- The branches of an expression, negated or not; `none` when the limit is broken. -/
def branchesOf (limit : Nat) : Expr → Bool → Option (List Branch)
  | .hole, _ => some [[]]
  | .paren t, negated => branchesOf limit t negated
  | .not t, negated => branchesOf limit t !negated
  | .and ts, negated =>
    if negated then unionOf limit ts true [] else productOf limit ts false [[]]
  | .or ts, negated =>
    if negated then productOf limit ts true [[]] else unionOf limit ts false []
  | e, negated => some [[⟨e, negated⟩]]

/-- The union of the branches of the terms, added to `acc`. -/
def unionOf (limit : Nat) : List Expr → Bool → List Branch → Option (List Branch)
  | [], _, acc => some acc
  | t :: ts, negated, acc =>
    match branchesOf limit t negated with
    | none => none
    | some bs =>
      let acc := acc ++ bs
      if exceeds limit acc then none else unionOf limit ts negated acc

/-- The product of `acc` with the branches of each term in turn. -/
def productOf (limit : Nat) : List Expr → Bool → List Branch → Option (List Branch)
  | [], _, acc => some acc
  | t :: ts, negated, acc =>
    match branchesOf limit t negated with
    | none => none
    | some bs =>
      let acc := product acc bs
      if exceeds limit acc then none else productOf limit ts negated acc

end

/-- The failure of a form that would have more branches than its limit. -/
def tooLarge : Report :=
  { message := "expression expands to too many branches", causes := [.tooManyBranches] }

/-- The disjunctive normal form of a filter, with at most `limit` branches at any step
(zero: no limit). -/
def ofExpr (limit : Nat) (e : Expr) : Except Report Dnf :=
  match branchesOf limit e false with
  | none => .error tooLarge
  | some bs => .ok ⟨bs⟩

/-- A branch as text: its atoms joined by `&&`, in parentheses when there are several. -/
def renderBranch (b : Branch) : String :=
  let s := Expr.joinWith " && " (b.map Atom.render)
  if b.length > 1 then "(" ++ s ++ ")" else s

/-- The form as text: its branches joined by `||`. -/
def render (d : Dnf) : String := Expr.joinWith " || " (d.branches.map renderBranch)

end Dnf

end EdgeQuery.Query
