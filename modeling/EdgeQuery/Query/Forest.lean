import EdgeQuery.Query.Syntax
import EdgeQuery.Report
/-! # Linked trees and tree surgery

Editing a filter in place needs what a plain `Expr` does not have: node identity and
parent links. A `Forest` holds nodes in an array; a node names its children and its parent
by their index. Several trees live in one forest, each under a root node of its own, so
that a node can be moved from one tree into another.

`Forest.replaceChild parent old repl` puts `repl` in the place of `old` among the
children of `parent`; without `repl` it takes `old` out, which drops it from a junction or
an argument list and leaves an empty slot in a node with fixed slots. It first detaches
`repl` from the parent it has, if that is another node, and only then looks for `old`: a
surgery that does not find `old` may still have detached `repl`. On success `old` has no
parent and `repl` has `parent` as its parent.

Surgery can link a node twice, or under itself. `Forest.expr` reads a tree back as an
`Expr`, copying a node each time it is reached and stopping at a depth bound, so it is
defined whatever the links. -/

namespace EdgeQuery.Query

/-- A node's kind, with its children as node indices; `none` is an empty slot. -/
inductive Shape where
  /-- The root of a tree, with its expression. -/
  | root (child : Option Nat)
  | field (name : String)
  | lit (l : Literal)
  | compare (op : CompareOp) (left right : Option Nat)
  | arith (op : ArithOp) (left right : Option Nat)
  | and (terms : List Nat)
  | or (terms : List Nat)
  | not (term : Option Nat)
  | call (ns name : String) (args : List Nat)
  | paren (term : Option Nat)
  deriving Inhabited

/-- A node: its shape and its parent. -/
structure Node where
  shape : Shape
  parent : Option Nat := none
  deriving Inhabited

/-- Why a surgery failed. -/
inductive SurgeryError where
  /-- The parent or the child to replace was not given. -/
  | nilNode
  /-- The child to replace is not a child of the parent. -/
  | childNotFound
  deriving Repr, DecidableEq

namespace SurgeryError

/-- The text of a failed surgery. -/
def message : SurgeryError → String
  | nilNode => "nil node"
  | childNotFound => "child not found"

/-- The report of a failed surgery. -/
def report (e : SurgeryError) : Report :=
  { message := e.message, causes := [match e with | nilNode => .nilNode | childNotFound => .childNotFound] }

end SurgeryError

namespace Shape

/-- The children of a node, in order. An empty slot of a comparison or of arithmetic is
listed; an empty root, negation or pair of parentheses has no children. -/
def children : Shape → List (Option Nat)
  | root c | not c | paren c => c.toList.map some
  | compare _ l r | arith _ l r => [l, r]
  | and ts | or ts | call _ _ ts => ts.map some
  | _ => []

/-- Replaces the first occurrence of `old` in a list of children, or drops it without a
replacement; `none` when `old` is not there. -/
def replaceIn (ts : List Nat) (old : Nat) (repl : Option Nat) : Option (List Nat) :=
  match ts.idxOf? old with
  | none => none
  | some i =>
    match repl with
    | none => some (ts.eraseIdx i)
    | some r => some (ts.set i r)

/-- Puts `repl` in the place of the child `old`; `none` when `old` is not a child. -/
def replaceChild (s : Shape) (old : Nat) (repl : Option Nat) : Option Shape :=
  match s with
  | root c => if c = some old then some (root repl) else none
  | compare op l r =>
    if l = some old then some (compare op repl r)
    else if r = some old then some (compare op l repl)
    else none
  | arith op l r =>
    if l = some old then some (arith op repl r)
    else if r = some old then some (arith op l repl)
    else none
  | and ts => (replaceIn ts old repl).map and
  | or ts => (replaceIn ts old repl).map or
  | call ns name ts => (replaceIn ts old repl).map (call ns name)
  | not c => if c = some old then some (not repl) else none
  | paren c => if c = some old then some (paren repl) else none
  | _ => none

end Shape

/-- Nodes linked by index. -/
structure Forest where
  nodes : Array Node := #[]
  deriving Inhabited

namespace Forest

/-- The node at an index. -/
def get? (f : Forest) (i : Nat) : Option Node := f.nodes[i]?

/-- The parent of a node. -/
def parentOf (f : Forest) (i : Nat) : Option Nat := (f.get? i).bind (·.parent)

/-- The children of a node. -/
def childrenOf (f : Forest) (i : Nat) : List (Option Nat) :=
  match f.get? i with
  | some n => n.shape.children
  | none => []

/-- Changes a node. -/
def modify (f : Forest) (i : Nat) (g : Node → Node) : Forest := ⟨f.nodes.modify i g⟩

/-- Sets a node's parent. -/
def setParent (f : Forest) (i : Nat) (p : Option Nat) : Forest :=
  f.modify i fun n => { n with parent := p }

/-- Adds a node and gives its index. -/
def add (f : Forest) (n : Node) : Forest × Nat := (⟨f.nodes.push n⟩, f.nodes.size)

mutual

/-- Adds the nodes of an expression under a parent and gives the index of its top node,
none for an empty slot. -/
def plant (parent : Option Nat) : Expr → Forest → Forest × Option Nat
  | .hole, f => (f, none)
  | .field name, f => let (f, i) := f.add ⟨.field name, parent⟩; (f, some i)
  | .lit l, f => let (f, i) := f.add ⟨.lit l, parent⟩; (f, some i)
  | .compare op l r, f =>
    let (f, i) := f.add ⟨.root none, parent⟩
    let (f, li) := plant (some i) l f
    let (f, ri) := plant (some i) r f
    (f.modify i (fun n => { n with shape := .compare op li ri }), some i)
  | .arith op l r, f =>
    let (f, i) := f.add ⟨.root none, parent⟩
    let (f, li) := plant (some i) l f
    let (f, ri) := plant (some i) r f
    (f.modify i (fun n => { n with shape := .arith op li ri }), some i)
  | .and ts, f =>
    let (f, i) := f.add ⟨.root none, parent⟩
    let (f, cs) := plantAll (some i) ts f
    (f.modify i (fun n => { n with shape := .and cs }), some i)
  | .or ts, f =>
    let (f, i) := f.add ⟨.root none, parent⟩
    let (f, cs) := plantAll (some i) ts f
    (f.modify i (fun n => { n with shape := .or cs }), some i)
  | .not t, f =>
    let (f, i) := f.add ⟨.root none, parent⟩
    let (f, c) := plant (some i) t f
    (f.modify i (fun n => { n with shape := .not c }), some i)
  | .call ns name args, f =>
    let (f, i) := f.add ⟨.root none, parent⟩
    let (f, cs) := plantAll (some i) args f
    (f.modify i (fun n => { n with shape := .call ns name cs }), some i)
  | .paren t, f =>
    let (f, i) := f.add ⟨.root none, parent⟩
    let (f, c) := plant (some i) t f
    (f.modify i (fun n => { n with shape := .paren c }), some i)

/-- Adds the nodes of a list of expressions under a parent; empty slots are left out. -/
def plantAll (parent : Option Nat) : List Expr → Forest → Forest × List Nat
  | [], f => (f, [])
  | t :: ts, f =>
    let (f, c) := plant parent t f
    let (f, cs) := plantAll parent ts f
    (f, c.toList ++ cs)

end

/-- Adds a tree with its root and gives the index of the root. -/
def plantTree (f : Forest) (e : Expr) : Forest × Nat :=
  let (f, r) := f.add ⟨.root none, none⟩
  let (f, c) := plant (some r) e f
  (f.modify r (fun n => { n with shape := .root c }), r)

/-- The expression under a node, read to at most `depth` levels; a root stands for its
expression. -/
def exprAt (f : Forest) : Nat → Option Nat → Expr
  | 0, _ => .hole
  | _ + 1, none => .hole
  | depth + 1, some i =>
    match f.get? i with
    | none => .hole
    | some n =>
      match n.shape with
      | .root c => f.exprAt depth c
      | .field name => .field name
      | .lit l => .lit l
      | .compare op l r => .compare op (f.exprAt depth l) (f.exprAt depth r)
      | .arith op l r => .arith op (f.exprAt depth l) (f.exprAt depth r)
      | .and ts => .and (ts.map fun t => f.exprAt depth (some t))
      | .or ts => .or (ts.map fun t => f.exprAt depth (some t))
      | .not t => .not (f.exprAt depth t)
      | .call ns name ts => .call ns name (ts.map fun t => f.exprAt depth (some t))
      | .paren t => .paren (f.exprAt depth t)

/-- The expression under a node. Without cycles no path is longer than the number of
nodes, so that depth reads the whole tree. -/
def expr (f : Forest) (i : Option Nat) : Expr := f.exprAt (f.nodes.size + 1) i

/-- The node reached from `start` by following child positions; `none` when a position
is out of range, `some none` at an empty slot. -/
def follow (f : Forest) : Option Nat → List Int → Option (Option Nat)
  | n, [] => some n
  | none, _ :: _ => none
  | some i, k :: ks =>
    if k < 0 then none
    else match (f.childrenOf i)[k.toNat]? with
      | none => none
      | some c => f.follow c ks

/-- Takes the child `old` out of `parent`, or puts `repl` in its place, without touching
the former parent of `repl`. -/
def relink (f : Forest) (parent old : Nat) (repl : Option Nat) : Except SurgeryError Forest :=
  match f.get? parent with
  | none => .error .childNotFound
  | some p =>
    match p.shape.replaceChild old repl with
    | none => .error .childNotFound
    | some s =>
      let f := f.modify parent fun n => { n with shape := s }
      let f := f.setParent old none
      match repl with
      | none => .ok f
      | some r => .ok (f.setParent r (some parent))

/-- Replaces `old` by `repl` among the children of `parent`, or takes it out when there
is no `repl`. The forest is returned also on failure, since `repl` may have been detached
from its former parent before `old` was looked for. -/
def replaceChild (f : Forest) (parent old repl : Option Nat) : Forest × Option SurgeryError :=
  match parent, old with
  | some p, some o =>
    let detached : Except SurgeryError Forest :=
      match repl with
      | some r =>
        match f.parentOf r with
        | some prev => if prev = p then .ok f else f.relink prev r none
        | none => .ok f
      | none => .ok f
    match detached with
    | .error e => (f, some e)
    | .ok f =>
      match f.relink p o repl with
      | .error e => (f, some e)
      | .ok f => (f, none)
  | _, _ => (f, some .nilNode)

end Forest

end EdgeQuery.Query
