import EdgeQuery.Eval.Truth
import EdgeQuery.Eval.Context
import EdgeQuery.Query.Syntax
import EdgeQuery.Number.Read
import EdgeQuery.Text.Unicode.Category
import EdgeQuery.Text.Lines
/-! # Comparing a value with a literal

A value is compared with a literal by the literal's kind:

* with a string, byte by byte;
* with a number, as numbers: the value, with white space trimmed at both ends, must read as
  a binary64 number; a value that does not is unequal and unordered;
* with a boolean, as a truth value (`1 t T TRUE true True` and the false ones); only `==`
  and `!=` apply, and a value that is not one is unequal;
* with null: a present value is never null.

Numbers compare by their order, and a comparison involving not-a-number counts as equal.
The pattern operators are not comparisons and give `unknown` here.

Arithmetic in filters works on binary64 numbers; division and remainder by zero give
not-a-number, and the remainder has the sign of the dividend (`Binary64.rem`). -/

namespace EdgeQuery

namespace Binary64

/-- The remainder of `a / b` truncated towards zero, computed exactly: the result has the
sign of `a` and is smaller than `b` in magnitude. It is not a number when `a` is infinite,
`b` is zero, or either is not a number; it is `a` when `b` is infinite. -/
def rem (a b : Float) : Float :=
  if isNaN a || isNaN b || isInfinite a || b == 0 then nan
  else if isInfinite b then a
  else
    let pa := parts a
    let (ma, ea) := significand pa
    let (mb, eb) := significand (parts b)
    let e := min ea eb
    let na := ma * Nat.pow 2 (ea - e).toNat
    let nb := mb * Nat.pow 2 (eb - e).toNat
    let r := na % nb
    if r = 0 then zero pa.negative else ofBinary pa.negative r e

end Binary64

namespace Eval

open Query

/-- How values compare with literals. Both compare alike; only `hitList` records the values
that satisfy a term as hit terms. -/
inductive Arithmetic where
  | plain
  | hitList
  deriving DecidableEq, Inhabited, Repr

/-- The number a value reads as, if any. -/
def toNum? (b : Bytes) : Option Float :=
  let t := Bytes.trimSpace b
  if t.isEmpty then none
  else
    match Bytes.toUtf8? t with
    | some s =>
      match Read.parseFloat s with
      | .ok x => some x
      | .error _ => none
    | none => none

/-- The order of two numbers; not-a-number is equal to everything. -/
def floatOrder (a b : Float) : Ordering :=
  if a < b then .lt else if a > b then .gt else .eq

/-- Whether an ordering satisfies a comparison operator; `unknown` for the pattern
operators. -/
def ordered (op : CompareOp) (o : Ordering) : Truth :=
  match op with
  | .eq => .ofBool (o == .eq)
  | .ne => .ofBool (o != .eq)
  | .lt => .ofBool (o == .lt)
  | .gt => .ofBool (o == .gt)
  | .le => .ofBool (o != .gt)
  | .ge => .ofBool (o != .lt)
  | _ => .unknown

/-- The outcome of comparing values of different kinds: unequal, and not ordered. -/
def mismatch (op : CompareOp) : Truth :=
  match op with
  | .eq => .no
  | .ne => .yes
  | _ => .unknown

namespace Arithmetic

/-- Whether satisfying values are recorded as hit terms. -/
def tracksHits : Arithmetic → Bool
  | plain => false
  | hitList => true

/-- Compares a value's normalized form with a literal (see the module comment). -/
def compare (_ : Arithmetic) (op : CompareOp) (v : Value) (lit : Literal) : Truth :=
  match lit with
  | .str s => ordered op (Bytes.cmp v.normalized (Bytes.ofString s))
  | .int _ | .float _ =>
    match toNum? v.normalized, lit.toFloat? with
    | some n, some want => ordered op (floatOrder n want)
    | _, _ => mismatch op
  | .bool b =>
    match (Bytes.toUtf8? v.normalized).bind fun s => (Read.parseBool s).toOption with
    | some x =>
      match op with
      | .eq => .ofBool (x == b)
      | .ne => .ofBool (x != b)
      | _ => .unknown
    | none => mismatch op
  | .null => mismatch op

/-- Compares with an operator that may be missing (an operator code that names none):
without an operator nothing can be said. -/
def compare? (a : Arithmetic) (op : Option CompareOp) (v : Value) (lit : Literal) : Truth :=
  match op with
  | some op => a.compare op v lit
  | none => .unknown

end Arithmetic

/-- Applies an arithmetic operator to binary64 numbers. -/
def applyArith (op : ArithOp) (a b : Float) : Float :=
  match op with
  | .add => a + b
  | .sub => a - b
  | .mul => a * b
  | .div => if b == 0 then Binary64.nan else a / b
  | .mod => if b == 0 then Binary64.nan else Binary64.rem a b

end Eval

end EdgeQuery
