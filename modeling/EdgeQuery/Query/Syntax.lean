import EdgeQuery.Number.Binary64
/-! # Filter expressions

A filter is a boolean expression over the fields of an edge or a record. Its leaves are
field names, literals, comparisons (`A == 'x'`, `COUNT > 3`, `NAME =~ 'a.*'`), arithmetic
on numbers (`COUNT * 2`) and function calls (`content:phrase(BODY, 'a', 'b')`); above them
stand conjunctions, disjunctions, negations and parentheses. Parentheses are kept as
nodes of their own, so that a tree prints back the way it was written.

A tree may have empty child slots: tree surgery can take a child out without putting
another one in. An empty slot is the node `hole`; reading a text never produces one.

This module holds the tree, the operators and literals, and the views used throughout:
the field names a tree mentions, the number of its terms, and the tree with parentheses
looked through. -/

namespace EdgeQuery.Query

/-- Comparison operators. -/
inductive CompareOp where
  | eq | ne | lt | gt | le | ge
  /-- The value matches a pattern (`=~`). -/
  | like
  /-- The value does not match a pattern (`!~`). -/
  | unlike
  deriving DecidableEq, Repr, Inhabited

namespace CompareOp

/-- All comparison operators, in the order of their codes. -/
def all : List CompareOp := [eq, ne, lt, gt, le, ge, like, unlike]

/-- The written form of an operator. -/
def symbol : CompareOp → String
  | eq => "=="
  | ne => "!="
  | lt => "<"
  | gt => ">"
  | le => "<="
  | ge => ">="
  | like => "=~"
  | unlike => "!~"

/-- The operator that holds exactly when this one fails, for ordered values. -/
def negate : CompareOp → CompareOp
  | eq => ne
  | ne => eq
  | lt => ge
  | gt => le
  | le => gt
  | ge => lt
  | like => unlike
  | unlike => like

/-- The operator with its operands swapped: `a < b` is `b > a`. -/
def mirror : CompareOp → CompareOp
  | lt => gt
  | gt => lt
  | le => ge
  | ge => le
  | op => op

/-- Whether an operator orders its operands. -/
def isOrdered : CompareOp → Bool
  | lt | gt | le | ge => true
  | _ => false

/-- Whether an operator tests a pattern. -/
def isPattern : CompareOp → Bool
  | like | unlike => true
  | _ => false

/-- The operator numbered `n` in the order of `all`. -/
def ofCode? (n : Nat) : Option CompareOp := all[n]?

/-- The symbol of a numbered operator; `?` for a number that names none. -/
def codeSymbol (n : Nat) : String := ((ofCode? n).map symbol).getD "?"

/-- The negation of a numbered operator; a number that names none negates to `=~`. -/
def negateCode (n : Nat) : CompareOp := ((ofCode? n).map negate).getD like

end CompareOp

/-- Arithmetic operators. -/
inductive ArithOp where
  | add | sub | mul | div | mod
  deriving DecidableEq, Repr, Inhabited

namespace ArithOp

/-- All arithmetic operators, in the order of their codes. -/
def all : List ArithOp := [add, sub, mul, div, mod]

/-- The written form of an operator. -/
def symbol : ArithOp → String
  | add => "+"
  | sub => "-"
  | mul => "*"
  | div => "/"
  | mod => "%"

/-- Whether an operator binds like multiplication. -/
def isMultiplicative : ArithOp → Bool
  | mul | div | mod => true
  | _ => false

/-- The symbol of the operator numbered `n` in the order of `all`; `?` for a number that
names none. -/
def codeSymbol (n : Nat) : String := ((all[n]?).map symbol).getD "?"

end ArithOp

/-- Literal values. Integers are 64-bit; floats are binary64. -/
inductive Literal where
  | null
  | bool (b : Bool)
  | int (n : Int)
  | float (x : Float)
  | str (s : String)
  deriving Inhabited

namespace Literal

/-- The kinds of literals, for messages and listings. -/
inductive Kind where
  | null | bool | int | float | string
  deriving DecidableEq, Repr

/-- The names of the kinds, in the order of their codes. -/
def Kind.name : Kind → String
  | .null => "null"
  | .bool => "bool"
  | .int => "int"
  | .float => "float"
  | .string => "string"

/-- All literal kinds, in the order of their codes. -/
def Kind.all : List Kind := [.null, .bool, .int, .float, .string]

/-- The name of the kind numbered `n` in the order of `Kind.all`; `unknown` for a number
that names none. -/
def Kind.codeName (n : Nat) : String := ((Kind.all[n]?).map Kind.name).getD "unknown"

/-- The kind of a literal. -/
def kind : Literal → Kind
  | null => .null
  | bool _ => .bool
  | int _ => .int
  | float _ => .float
  | str _ => .string

/-- Whether a literal is a number. -/
def isNumber : Literal → Bool
  | int _ | float _ => true
  | _ => false

/-- The value of a numeric literal as a binary64. -/
def toFloat? : Literal → Option Float
  | int n => some (Binary64.ofDecimal (n < 0) n.natAbs 0)
  | float x => some x
  | _ => none

end Literal

/-- Filter expressions. -/
inductive Expr where
  /-- A field name. -/
  | field (name : String)
  /-- A literal. -/
  | lit (value : Literal)
  /-- A comparison of two operands. -/
  | compare (op : CompareOp) (lhs rhs : Expr)
  /-- Arithmetic on two operands. -/
  | arith (op : ArithOp) (lhs rhs : Expr)
  /-- A conjunction of any number of terms. -/
  | and (terms : List Expr)
  /-- A disjunction of any number of terms. -/
  | or (terms : List Expr)
  /-- A negation. -/
  | not (term : Expr)
  /-- A function call, with an optional namespace (empty when absent). -/
  | call (ns name : String) (args : List Expr)
  /-- A pair of parentheses. -/
  | paren (term : Expr)
  /-- An empty child slot. -/
  | hole
  deriving Inhabited

namespace Expr

/-- The name of a function as written: `ns:name`, or just `name`. -/
def qualifiedName (ns name : String) : String := if ns = "" then name else ns ++ ":" ++ name

/-- Looks through parentheses. Parentheses around an empty slot stay. -/
def deref : Expr → Expr
  | paren t =>
    match t with
    | hole => paren hole
    | paren _ => deref t
    | _ => t
  | e => e

/-- Whether an expression is a conjunction, disjunction, negation or parentheses (or an
empty slot): the nodes that the normal forms look through. -/
def isConnective : Expr → Bool
  | and _ | or _ | not _ | paren _ | hole => true
  | _ => false

mutual

/-- The field names an expression mentions, in the order they are written, with repeats.
Names inside comparisons, arithmetic and call arguments count. -/
def fields : Expr → List String
  | field n => [n]
  | lit _ => []
  | compare _ l r => fields l ++ fields r
  | arith _ l r => fields l ++ fields r
  | and ts => fieldsAll ts
  | or ts => fieldsAll ts
  | not t => fields t
  | call _ _ args => fieldsAll args
  | paren t => fields t
  | hole => []

/-- The field names of a list of expressions, in order. -/
def fieldsAll : List Expr → List String
  | [] => []
  | t :: ts => fields t ++ fieldsAll ts

end

mutual

/-- The number of terms: comparisons and function calls, not counting those nested in
them. -/
def termCount : Expr → Nat
  | compare .. => 1
  | call .. => 1
  | and ts => termCountAll ts
  | or ts => termCountAll ts
  | not t => termCount t
  | paren t => termCount t
  | arith _ l r => termCount l + termCount r
  | _ => 0

/-- The number of terms of a list of expressions. -/
def termCountAll : List Expr → Nat
  | [] => 0
  | t :: ts => termCount t + termCountAll ts

end

end Expr

end EdgeQuery.Query
