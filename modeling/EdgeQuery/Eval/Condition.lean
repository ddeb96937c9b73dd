import EdgeQuery.Eval.Truth
import EdgeQuery.Query.Syntax
import EdgeQuery.Pattern.Match
/-! # Compiled filters

A filter is compiled once into a `Condition`, the tree of what evaluation does at each
boolean position: comparisons become tests of a field (or of an arithmetic expression over
fields) against a literal, with patterns compiled to programs; calls of built-in functions
become `Builtin`s with their arguments read; parentheses disappear; literals become
constant truth values. -/

namespace EdgeQuery.Eval

open Query

/-- An arithmetic expression over fields and numbers. -/
inductive Calc where
  | num (x : Float)
  | field (name : Bytes)
  | op (o : ArithOp) (lhs rhs : Calc)
  deriving Inhabited

/-- What a comparison looks at: the values of a field, or the numbers an arithmetic
expression takes. -/
inductive Target where
  | field (name : Bytes)
  | calc (c : Calc)
  deriving Inhabited

/-- A comparison read as "target op literal". -/
structure Test where
  target : Target
  op : CompareOp
  literal : Literal
  /-- The compiled pattern of `=~` and `!~`. -/
  pattern : Option Pattern.Program := none
  deriving Inhabited

/-- A call of a built-in function, with its arguments read. -/
inductive Builtin where
  /-- `filter:isNull`: none of the fields has a value. -/
  | isNull (fields : List Bytes)
  /-- `filter:isNotNull`: some field has a value. -/
  | isNotNull (fields : List Bytes)
  /-- `filter:includeText`: some field has a value whose ingested form is `text`. -/
  | includeText (fields : List Bytes) (text : Bytes)
  /-- `content:phrase`: the terms occur at consecutive offsets of the field. -/
  | phrase (field : Bytes) (terms : List String)
  /-- `content:within`: all the terms occur within `window` offsets of each other. -/
  | within (field : Bytes) (window : Nat) (terms : List String)
  /-- A query option, which constrains the result set and holds of every record. -/
  | option
  deriving Inhabited

/-- The names of the built-in functions, in order. -/
def Builtin.names : List String :=
  ["content:phrase", "content:within", "f:unique_by_day", "filter:includeText",
   "filter:isNotNull", "filter:isNull"]

/-- A compiled filter. -/
inductive Condition where
  /-- An empty slot. -/
  | unknown
  /-- A literal in a boolean position. -/
  | const (t : Truth)
  /-- A field in a boolean position: whether it has a value. -/
  | field (name : Bytes)
  /-- Arithmetic in a boolean position: whether some result is a nonzero number. -/
  | calc (c : Calc)
  | test (t : Test)
  | builtin (b : Builtin)
  | not (c : Condition)
  | and (cs : List Condition)
  | or (cs : List Condition)
  deriving Inhabited

end EdgeQuery.Eval
