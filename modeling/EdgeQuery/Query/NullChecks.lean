import EdgeQuery.Query.Flatten
/-! # Null checks as comparisons

The filter functions `filter:isNull(...)` and `filter:isNotNull(...)` are shorthands: a
check of every field its arguments mention.

    filter:isNull(A)          becomes  A == null
    filter:isNull(A || B)     becomes  A == null && B == null
    filter:isNotNull(A)       becomes  !(A == null)
    filter:isNotNull(A || B)  becomes  !(A == null) || !(B == null)

A check that mentions no field is taken out, and so is a negation, a pair of parentheses
or a junction that loses its last term that way; an emptied filter is empty. When a check
becomes a junction of several comparisons, the nearest junction above it takes in, one
level deep, the terms of the junctions of its own kind among its direct terms, so that a
conjunction is not left directly inside a conjunction. Only the boolean skeleton is
searched: a check inside a comparison, arithmetic or another call stays.

`Expr.normalize` is what every filter goes through before it is evaluated or planned:
flattening, then the expansion of null checks. -/

namespace EdgeQuery.Query

/-- What rewriting a term of the boolean skeleton gives: the term is taken out, or it is
kept in a rewritten form, with a flag saying that a check below it became a junction that
no junction has taken in yet. -/
inductive Expansion where
  | removed
  | kept (e : Expr) (spread : Bool)
  deriving Inhabited

/-- A node with one slot, after rewriting what stands in it: it goes when its content
goes, and passes the flag on. -/
def Expansion.around (wrap : Expr → Expr) : Expansion → Expansion
  | .removed => .removed
  | .kept e spread => .kept (wrap e) spread

namespace Expr

/-- The namespace of the filter functions. -/
def filterNamespace : String := "filter"

/-- Whether a call is a null check, and if so whether it checks for presence
(`filter:isNotNull`) rather than absence (`filter:isNull`). -/
def nullCheck? (ns name : String) : Option Bool :=
  if ns = filterNamespace then
    if name = "isNull" then some false
    else if name = "isNotNull" then some true
    else none
  else none

/-- `name == null`. -/
def isNullOf (name : String) : Expr := compare .eq (field name) (lit .null)

/-- The comparisons replacing a null check of the given fields, and whether there is
more than one; nothing when no field is named. -/
def checkFields (present : Bool) (names : List String) : Option (Expr × Bool) :=
  let one := fun name => if present then not (isNullOf name) else isNullOf name
  match names with
  | [] => none
  | [name] => some (one name, false)
  | names => some ((if present then or else and) (names.map one), true)

mutual

/-- Rewrites the null checks in the boolean skeleton of an expression. -/
def expandNulls : Expr → Expansion
  | call ns name args =>
    match nullCheck? ns name with
    | none => .kept (call ns name args) false
    | some present =>
      match checkFields present (fieldsAll args) with
      | none => .removed
      | some (e, spread) => .kept e spread
  | not t =>
    match t with
    | hole => .kept (not hole) false
    | t => (expandNulls t).around not
  | paren t =>
    match t with
    | hole => .kept (paren hole) false
    | t => (expandNulls t).around paren
  | and ts =>
    let rs := expandNullsAll ts
    let terms := rs.map Prod.fst
    let terms := if rs.any Prod.snd then spliceAnd terms else terms
    if !ts.isEmpty && terms.isEmpty then .removed else .kept (and terms) false
  | or ts =>
    let rs := expandNullsAll ts
    let terms := rs.map Prod.fst
    let terms := if rs.any Prod.snd then spliceOr terms else terms
    if !ts.isEmpty && terms.isEmpty then .removed else .kept (or terms) false
  | e => .kept e false

/-- Rewrites the terms of a junction, dropping the ones taken out. -/
def expandNullsAll : List Expr → List (Expr × Bool)
  | [] => []
  | t :: ts =>
    match expandNulls t with
    | .removed => expandNullsAll ts
    | .kept e spread => (e, spread) :: expandNullsAll ts

end

/-- Replaces the null checks of a filter by comparisons; a filter left with nothing is
empty. -/
def expandNullChecks (e : Expr) : Expr :=
  match expandNulls e with
  | .removed => hole
  | .kept e _ => e

/-- The form every filter takes before it is evaluated or planned. -/
def normalize (e : Expr) : Expr := e.flatten.expandNullChecks

end Expr

end EdgeQuery.Query
