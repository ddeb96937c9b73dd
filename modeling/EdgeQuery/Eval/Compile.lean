import EdgeQuery.Eval.Condition
import EdgeQuery.Eval.Compare
import EdgeQuery.Query.Printer
import EdgeQuery.Query.Parser
import EdgeQuery.Query.NullChecks
import EdgeQuery.Report
import EdgeQuery.Pattern.Parser
/-! # Compiling filters

Compilation checks every boolean position of a filter and builds its `Condition`; the
first problem in reading order is reported.

* A comparison needs a literal on one side and a field or arithmetic on the other; a
  literal on the left is moved to the right, mirroring an ordered operator (`1 < A` is
  `A > 1`), but a pattern must be written on the right. Arithmetic compares with numbers
  only; a pattern must be a string that compiles; null is not ordered.
* Arithmetic operands are fields, numbers or arithmetic.
* A function must be one of the built-ins, with arguments it accepts.

`CompileError.report` writes each problem down. -/

namespace EdgeQuery.Eval

open Query

/-- Why the arguments of a built-in function are not accepted. -/
inductive ArgumentProblem where
  | noField
  | includeTextArity (count : Nat)
  | firstNotFieldName
  | secondNotString
  | missingField
  | firstNotField
  /-- A term that is not a string, as written. -/
  | termNotString (term : String)
  | tooFewTerms
  | withinArity
  | badDistance
  deriving DecidableEq, Repr

/-- The text of an argument problem. -/
def ArgumentProblem.text : ArgumentProblem → String
  | .noField => "at least one field is required"
  | .includeTextArity n => "expected a field and a text, got " ++ toString n ++ " arguments"
  | .firstNotFieldName => "first argument must name a field"
  | .secondNotString => "second argument must be a string"
  | .missingField => "missing field"
  | .firstNotField => "first argument must be a field"
  | .termNotString t => "term " ++ t ++ " must be a string"
  | .tooFewTerms => "at least two terms are required"
  | .withinArity => "expected a field, a distance and terms"
  | .badDistance => "distance must be a non-negative integer"

/-- Why a comparison cannot be evaluated. -/
inductive ComparisonProblem where
  | noLiteral
  | patternOnLeft
  | noField
  | arithmeticNeedsNumber
  | patternNotString
  | nullNotOrdered
  deriving DecidableEq, Repr

/-- The text of a comparison problem, following the comparison as written. -/
def ComparisonProblem.text : ComparisonProblem → String
  | .noLiteral => " needs a literal operand"
  | .patternOnLeft => ": pattern must be on the right"
  | .noField => " needs a field operand"
  | .arithmeticNeedsNumber => ": arithmetic compares with numbers only"
  | .patternNotString => ": pattern must be a string"
  | .nullNotOrdered => ": null is not ordered"

/-- Why a filter does not compile. Nodes are given as written. -/
inductive CompileError where
  | unknownFunction (name : String)
  | invalidArguments (name : String) (problem : ArgumentProblem)
  | malformedComparison (comparison : String) (problem : ComparisonProblem)
  | nonNumericOperand (arithmetic operand : String)
  | unsupportedOperand (arithmetic operand : String)
  | invalidPattern (pattern : String) (error : Pattern.PatternError)

namespace CompileError

/-- The report of a compile error. -/
def report : CompileError → Report
  | unknownFunction name =>
    .withCause .unknownFunction "unknown function" (": " ++ name)
  | invalidArguments name p =>
    { message := name ++ ": invalid function arguments: " ++ p.text, causes := [.invalidArguments] }
  | malformedComparison c p =>
    .withCause .malformedComparison "malformed comparison" (": " ++ c ++ p.text)
  | nonNumericOperand a o =>
    .withCause .malformedComparison "malformed comparison" (": " ++ a ++ ": non-numeric operand " ++ o)
  | unsupportedOperand a o =>
    .withCause .malformedComparison "malformed comparison" (": " ++ a ++ ": unsupported operand " ++ o)
  | invalidPattern pat err =>
    .withCause .invalidPattern "invalid regex" (": " ++ pat ++ ": " ++ err.message)

end CompileError

/-- A node as it appears in a message; an empty slot shows as a missing value. -/
def nodeText : Expr → String
  | .hole => "%!s(<nil>)"
  | e => e.render

/-- The distinct names among `names`, in order of first appearance. -/
def distinctNames (names : List String) : List String :=
  names.foldl (fun acc n => if acc.contains n then acc else acc ++ [n]) []

/-- The string of an argument, looking through parentheses. -/
def stringArg? (e : Expr) : Option String :=
  match e.deref with
  | .lit (.str s) => some s
  | _ => none

/-- The field of an argument, looking through parentheses. -/
def fieldArg? (e : Expr) : Option String :=
  match e.deref with
  | .field n => some n
  | _ => none

/-- Reads the terms of a phrase function: strings, lower-cased, at least two. -/
def phraseTerms (args : List Expr) : Except ArgumentProblem (List String) := do
  let terms ← args.mapM fun a =>
    match stringArg? a with
    | some s => .ok (String.map Unicode.toLower s)
    | none => .error (.termNotString (nodeText a))
  if terms.length < 2 then .error .tooFewTerms else pure terms

/-- Reads the arguments of a built-in function. -/
def Builtin.ofCall? (qname : String) (args : List Expr) :
    Option (Except ArgumentProblem Builtin) :=
  let ids := Expr.fieldsAll args
  let needFields (b : List Bytes → Builtin) : Except ArgumentProblem Builtin :=
    if ids.isEmpty then .error .noField else .ok (b ((distinctNames ids).map Bytes.ofString))
  match qname with
  | "filter:isNull" => some (needFields .isNull)
  | "filter:isNotNull" => some (needFields .isNotNull)
  | "f:unique_by_day" => some (needFields fun _ => .option)
  | "filter:includeText" => some <|
    match args with
    | [a, b] =>
      if a.fields.isEmpty then .error .firstNotFieldName
      else
        match stringArg? b with
        | some s => .ok (.includeText (a.fields.map Bytes.ofString) (Bytes.ofString s))
        | none => .error .secondNotString
    | _ => .error (.includeTextArity args.length)
  | "content:phrase" => some <|
    match args with
    | [] => .error .missingField
    | a :: rest =>
      match fieldArg? a with
      | none => .error .firstNotField
      | some f => (phraseTerms rest).map (.phrase (Bytes.ofString f))
  | "content:within" => some <|
    match args with
    | a :: d :: rest =>
      match fieldArg? a with
      | none => .error .firstNotField
      | some f =>
        match d.deref with
        | .lit (.int n) =>
          if n < 0 then .error .badDistance
          else (phraseTerms rest).map (.within (Bytes.ofString f) n.toNat)
        | _ => .error .badDistance
    | _ => .error .withinArity
  | _ => none

/-- Checks an arithmetic operand and builds it. `whole` is the arithmetic it belongs to and
`shown` the operand as written, for messages; the operand is read through parentheses. -/
def Calc.operand (whole : String) (shown : Expr) : Expr → Except CompileError Calc
  | .field n => .ok (.field (Bytes.ofString n))
  | .lit (.int n) => .ok (.num (Binary64.ofDecimal (n < 0) n.natAbs 0))
  | .lit (.float x) => .ok (.num x)
  | .lit v => .error (.nonNumericOperand whole (Expr.lit v).render)
  | .arith o l r => do
    let here := (Expr.arith o l r).render
    let a ← Calc.operand here l l
    let b ← Calc.operand here r r
    pure (.op o a b)
  | .paren t =>
    match t with
    | .hole => .error (.unsupportedOperand whole (nodeText shown))
    | t => Calc.operand whole shown t
  | _ => .error (.unsupportedOperand whole (nodeText shown))

/-- Checks arithmetic and builds it. -/
def Calc.ofExpr (e : Expr) : Except CompileError Calc := Calc.operand "" e e

/-- Whether a comparison applies to the operand kinds: arithmetic needs a number, a
pattern a string, and an ordered operator anything but null. -/
def Test.check (shown : String) (op : CompareOp) (lit : Literal) :
    Except CompileError (Option Pattern.Program) :=
  if op.isPattern then
    match lit with
    | .str s =>
      match Pattern.Regex.parse ("^(?:" ++ s ++ ")$") with
      | .ok re => .ok (some re.compile)
      | .error err => .error (.invalidPattern s err)
    | _ => .error (.malformedComparison shown .patternNotString)
  else if op.isOrdered then
    match lit with
    | .null => .error (.malformedComparison shown .nullNotOrdered)
    | _ => .ok none
  else .ok none

/-- Reads a comparison as "target op literal" (see the module comment). -/
def Test.ofComparison (op : CompareOp) (l r : Expr) : Except CompileError Test := do
  let shown := (Expr.compare op l r).render
  let (lit, side, oriented) ← match r.deref, l.deref with
    | .lit v, left => pure (v, left, op)
    | right, .lit v =>
      if op.isPattern then .error (.malformedComparison shown .patternOnLeft)
      else pure (v, right, op.mirror)
    | _, _ => .error (.malformedComparison shown .noLiteral)
  let target ← match side with
    | .field n => pure (Target.field (Bytes.ofString n))
    | .arith o a b => do
      let c ← Calc.ofExpr (.arith o a b)
      if lit.isNumber then pure (Target.calc c)
      else .error (.malformedComparison shown .arithmeticNeedsNumber)
    | _ => .error (.malformedComparison shown .noField)
  let pattern ← Test.check shown oriented lit
  pure { target, op := oriented, literal := lit, pattern }

/-- The truth of a literal in a boolean position: true, a nonzero number or a nonempty
string. -/
def literalTruth : Literal → Truth
  | .bool b => .ofBool b
  | .int n => .ofBool (n != 0)
  | .float x => .ofBool (!(x == 0))
  | .str s => .ofBool (!s.isEmpty)
  | .null => .no

mutual

/-- Compiles a filter. -/
def Condition.ofExpr : Expr → Except CompileError Condition
  | .hole => .ok .unknown
  | .field n => .ok (.field (Bytes.ofString n))
  | .lit v => .ok (.const (literalTruth v))
  | .compare op l r => .test <$> Test.ofComparison op l r
  | .arith op l r => .calc <$> Calc.ofExpr (.arith op l r)
  | .and ts => .and <$> Condition.ofExprs ts
  | .or ts => .or <$> Condition.ofExprs ts
  | .not t => .not <$> Condition.ofExpr t
  | .paren t => Condition.ofExpr t
  | .call ns name args =>
    let qname := Expr.qualifiedName ns name
    match Builtin.ofCall? qname args with
    | none => .error (.unknownFunction qname)
    | some (.error p) => .error (.invalidArguments qname p)
    | some (.ok b) => .ok (.builtin b)

/-- Compiles the terms of a junction, in order. -/
def Condition.ofExprs : List Expr → Except CompileError (List Condition)
  | [] => .ok []
  | t :: ts => do
    let c ← Condition.ofExpr t
    let cs ← Condition.ofExprs ts
    pure (c :: cs)

end

/-- How an evaluation compares values and resolves fields. -/
structure Options where
  arithmetic : Arithmetic := .plain
  /-- Fields whose values may be missing from a context; terms over them take their
  values from `fallback`, and the result is then partial. -/
  incomplete : List Bytes := []
  /-- Supplies values for an incomplete field, if it can. -/
  fallback : Option (Bytes → Option (List Value)) := none

/-- A compiled filter. -/
structure Evaluation where
  /-- The filter as compiled. -/
  expr : Expr
  condition : Condition
  options : Options

namespace Evaluation

/-- Compiles a filter tree as it is. -/
def compile (e : Expr) (opts : Options := {}) : Except Report Evaluation :=
  match Condition.ofExpr e with
  | .ok c => .ok ⟨e, c, opts⟩
  | .error err => .error err.report

/-- Reads, normalizes and compiles a filter text. -/
def compileQuery (query : String) (opts : Options := {}) : Except Report Evaluation :=
  match parse query with
  | .ok e => compile e.normalize opts
  | .error err => .error err.report

/-- The compiled filter as text. -/
def render (ev : Evaluation) : String := ev.expr.render

end Evaluation

end EdgeQuery.Eval
