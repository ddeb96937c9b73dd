import EdgeQuery.Eval.Compile
import EdgeQuery.Terms.Frequencies
/-! # Evaluating a filter against a record

A compiled filter is evaluated against a context, one record at a time. Besides the truth
value, an evaluation keeps a `Trace`:

* the field values that satisfied a term, when the arithmetic tracks hits;
* the incomplete fields it had to resolve (a field is resolved through the fallback when it
  is declared incomplete and the context has no value for it; if the fallback has nothing,
  terms over it are assumed);
* the phrase positions found by the phrase functions.

A record matches when the filter is true or assumed. A match records evidence on the
record's document, if there is one: `EVAL_STATE` when the result is partial, one
`HIT_TERM` per distinct hit, and the phrase positions. A hit is labelled with the
visibility of the attribute its value came from, or else of the document value it equals;
a hit with neither is dropped. -/

namespace EdgeQuery.Eval

open Query

/-- Whether an evaluation saw every field it needed. -/
inductive Completeness where
  | complete
  /-- Some incomplete field had to be resolved. -/
  | incomplete
  deriving DecidableEq, Inhabited, Repr

/-- The name of a completeness state. -/
def Completeness.name : Completeness → String
  | .complete => "FULL"
  | .incomplete => "PARTIAL"

/-- What one evaluation records. -/
structure Trace where
  /-- Field values that satisfied a term, in order. -/
  hits : List (Bytes × Value) := []
  /-- Incomplete fields resolved, in order, with repeats. -/
  partialFields : List Bytes := []
  phrases : PhraseIndexes := {}
  deriving Inhabited

/-- The values found for a field, or none when it could not be resolved. -/
inductive Resolution where
  | values (vs : List Value)
  | unresolved

/-- What an evaluation reads: the context, the options and the term-frequency lists. -/
structure Scope where
  context : Context
  options : Options

/-- The evaluation monad: the trace is threaded through. -/
abbrev EvalM := StateM Trace

namespace Scope

/-- Looks up a field; an incomplete field with no values takes the partial path. -/
def resolve (s : Scope) (field : Bytes) : EvalM Resolution := do
  let vs := s.context.values field
  if !vs.isEmpty || !s.options.incomplete.contains field then return .values vs
  modify fun t => { t with partialFields := t.partialFields ++ [field] }
  match s.options.fallback.bind (· field) with
  | some vs => return .values vs
  | none => return .unresolved

/-- Records a satisfying value, if hits are tracked. -/
def hit (s : Scope) (field : Bytes) (v : Value) : EvalM Unit :=
  if s.options.arithmetic.tracksHits then
    modify fun t => { t with hits := t.hits ++ [(field, v)] }
  else pure ()

/-- Records hits for every value that satisfies `p`, and tells whether one did. -/
def hitAll (s : Scope) (field : Bytes) (p : Value → Bool) : List Value → EvalM Bool
  | [] => pure false
  | v :: vs => do
    if p v then
      s.hit field v
      let _ ← s.hitAll field p vs
      pure true
    else s.hitAll field p vs

/-- The term-frequency list of a field; a missing list of an incomplete field makes the
evaluation partial and is reported as unresolved (`none`). -/
def frequencies (s : Scope) (field : Bytes) : EvalM (Option (Option Frequencies)) := do
  let lists := (s.context.offsets.map (·.lists)).getD []
  match (lists.find? (·.1 == field)).map (·.2) with
  | some f => return some (some f)
  | none =>
    if s.options.incomplete.contains field then
      modify fun t => { t with partialFields := t.partialFields ++ [field] }
      return none
    else return some none

/-- Every number an arithmetic expression takes over the values of its fields (at most
1024 per operator), or none when a field could not be resolved. -/
def numbers (s : Scope) : Calc → EvalM (Option (List Float))
  | .num x => pure (some [x])
  | .field n => do
    match ← s.resolve n with
    | .unresolved => pure none
    | .values vs => pure (some (vs.filterMap fun v => toNum? v.normalized))
  | .op o l r => do
    let a ← s.numbers l
    let b ← s.numbers r
    match a, b with
    | some xs, some ys =>
      pure (some ((xs.flatMap fun x => ys.map fun y => applyArith o x y).take 1024))
    | _, _ => pure none

end Scope

/-- The code points of a text, for pattern matching. -/
def codePoints (b : Bytes) : List Nat := (Utf8.chars b).map Char.toNat

namespace Test

/-- Evaluates a comparison of arithmetic: some result satisfies it (for `!=`: no result
equals the literal). -/
def evalCalc (t : Test) (s : Scope) (c : Calc) : EvalM Truth := do
  match ← s.numbers c with
  | none => pure .assumed
  | some ns =>
    let want := (t.literal.toFloat?).getD 0
    if t.op = .ne then pure (.ofBool (!ns.any (· == want)))
    else pure (.ofBool (ns.any fun x => ordered t.op (floatOrder x want) = .yes))

/-- Evaluates a comparison of a field's values with the literal: a positive comparison
holds if some value satisfies it, `!=` and `!~` if no value equals or matches. -/
def evalField (t : Test) (s : Scope) (field : Bytes) : EvalM Truth := do
  match ← s.resolve field with
  | .unresolved => pure .assumed
  | .values vs =>
    let arith := s.options.arithmetic
    match t.literal, t.op with
    | .null, .eq => pure (.ofBool vs.isEmpty)
    | .null, .ne => pure (.ofBool !vs.isEmpty)
    | .null, _ => pure .unknown
    | lit, op =>
      let matches? (v : Value) : Bool :=
        match t.pattern with
        | some p => p.accepts (codePoints v.normalized)
        | none => false
      match op with
      | .like => Truth.ofBool <$> s.hitAll field matches? vs
      | .unlike => pure (.ofBool !(vs.any matches?))
      | .ne => pure (.ofBool !(vs.any fun v => arith.compare .eq v lit = .yes))
      | op =>
        if vs.isEmpty then pure .no
        else do
          let found ← s.hitAll field (fun v => arith.compare op v lit = .yes) vs
          if found then pure .yes
          else if vs.any (fun v => arith.compare op v lit = .no) then pure .no
          else pure .unknown

/-- Evaluates a comparison. -/
def eval (t : Test) (s : Scope) : EvalM Truth :=
  match t.target with
  | .calc c => t.evalCalc s c
  | .field f => t.evalField s f

end Test

/-- Whether the sorted offset lists of the terms after the first hold `next`, `next + 1`,
and so on, in turn. -/
def consecutive (lists : List (Array Int)) (next : Int) : Bool :=
  (lists.zipIdx).all fun (a, i) => holds a (offsetAdd next i)

/-- The phrase hits of `terms`: every record and offset where the first term is followed by
the others, as (record, first offset, last offset). -/
def phraseHits (f : Frequencies) (terms : List String) : List (Bytes × Int × Int) :=
  match terms with
  | [] => []
  | first :: rest =>
    (f.records first).flatMap fun rid =>
      let lists := rest.map fun term => (f.offsets term rid).toArray
      ((f.offsets first rid).filter fun start => consecutive lists (offsetAdd start 1)).map
        fun start => (rid, start, offsetAdd start rest.length)

/-- The last of the first offsets at or after `lo` in each sorted list, if each list has one
at most `hi`. -/
def windowEnd (lists : List (Array Int)) (lo hi : Int) : Option Int :=
  lists.foldlM (fun stop a =>
    match firstAtLeast? a lo with
    | some x => if x > hi then none else some (max stop x)
    | none => none) lo

/-- The proximity hits of `terms`: for each record with the first term, every offset of a
term from which all the terms occur within `window` offsets, as (record, start, end). -/
def withinHits (f : Frequencies) (window : Nat) (terms : List String) : List (Bytes × Int × Int) :=
  match terms with
  | [] => []
  | first :: _ =>
    (f.records first).flatMap fun rid =>
      let lists := terms.map fun term => f.offsets term rid
      let arrays := lists.map List.toArray
      (sortedOffsets lists.flatten).filterMap fun start =>
        (windowEnd arrays start (offsetAdd start window)).map fun stop => (rid, start, stop)

namespace Builtin

/-- Records phrase hits of a field, and tells whether there were any. -/
def recordHits (field : Bytes) (hits : List (Bytes × Int × Int)) : EvalM Truth := do
  modify fun t => { t with phrases := t.phrases.addAll field hits }
  pure (.ofBool !hits.isEmpty)

/-- `filter:isNull` over the remaining fields: false at the first field with a value. -/
def evalIsNull (s : Scope) : List Bytes → EvalM Truth
  | [] => pure .yes
  | f :: fs => do
    match ← s.resolve f with
    | .values (_ :: _) => pure .no
    | _ => evalIsNull s fs

/-- `filter:isNotNull` over the remaining fields: assumed at the first unresolved field,
true at the first field with a value. -/
def evalIsNotNull (s : Scope) : List Bytes → EvalM Truth
  | [] => pure .no
  | f :: fs => do
    match ← s.resolve f with
    | .unresolved => pure .assumed
    | .values (_ :: _) => pure .yes
    | .values [] => evalIsNotNull s fs

/-- `filter:includeText` over the remaining fields: true at the first value whose ingested
form is `text`; otherwise assumed if a field was unresolved. -/
def evalIncludeText (s : Scope) (text : Bytes) (unresolved : Bool) : List Bytes → EvalM Truth
  | [] => pure (if unresolved then .assumed else .no)
  | f :: fs => do
    match ← s.resolve f with
    | .unresolved => evalIncludeText s text true fs
    | .values vs =>
      match vs.find? (·.text == text) with
      | some v => do s.hit f v; pure .yes
      | none => evalIncludeText s text unresolved fs

/-- Evaluates a phrase function over the term-frequency list of its field. -/
def evalPhrases (s : Scope) (field : Bytes) (hits : Frequencies → List (Bytes × Int × Int)) :
    EvalM Truth := do
  match ← s.frequencies field with
  | none => pure .assumed
  | some none => pure .no
  | some (some f) => recordHits field (hits f)

/-- Evaluates a built-in function. -/
def eval (b : Builtin) (s : Scope) : EvalM Truth :=
  match b with
  | .isNull fs => evalIsNull s fs
  | .isNotNull fs => evalIsNotNull s fs
  | .includeText fs text => evalIncludeText s text false fs
  | .phrase field terms => evalPhrases s field fun f => phraseHits f terms
  | .within field window terms => evalPhrases s field fun f => withinHits f window terms
  | .option => pure .yes

end Builtin

mutual

/-- Evaluates a compiled filter. -/
def Condition.eval (s : Scope) : Condition → EvalM Truth
  | .unknown => pure .unknown
  | .const t => pure t
  | .field n => do
    match ← s.resolve n with
    | .unresolved => pure .assumed
    | .values vs => pure (.ofBool !vs.isEmpty)
  | .calc c => do
    match ← s.numbers c with
    | none => pure .assumed
    | some ns => pure (.ofBool (ns.any fun x => !(x == 0) && !Binary64.isNaN x))
  | .test t => t.eval s
  | .builtin b => b.eval s
  | .not c => Truth.not <$> Condition.eval s c
  | .and cs => Condition.evalAnd s .yes cs
  | .or cs => Condition.evalOr s .no cs

/-- Evaluates the remaining terms of a conjunction, stopping at a false one. -/
def Condition.evalAnd (s : Scope) (acc : Truth) : List Condition → EvalM Truth
  | [] => pure acc
  | c :: cs => do
    let t ← Condition.eval s c
    if t = .no then pure .no else Condition.evalAnd s (acc.andStep t) cs

/-- Evaluates the remaining terms of a disjunction, stopping at a true one. -/
def Condition.evalOr (s : Scope) (acc : Truth) : List Condition → EvalM Truth
  | [] => pure acc
  | c :: cs => do
    let t ← Condition.eval s c
    if t = .yes then pure .yes else Condition.evalOr s (acc.orStep t) cs

end

/-- The outcome of one evaluation. -/
structure Outcome where
  matched : Bool
  state : Completeness
  /-- The incomplete fields resolved, in byte order, each once. -/
  partialFields : List Bytes
  /-- The distinct hits with their visibilities; empty unless hits are tracked and the
  record matched. -/
  hitTerms : List HitTerm
  /-- The phrase positions found, when the record matched and there were any. -/
  phrases : Option PhraseIndexes

/-- Sorts texts in byte order and drops repeats. -/
def sortedDistinct (xs : List Bytes) : List Bytes :=
  (xs.mergeSort fun a b => Bytes.cmp a b != .gt).foldr (fun x acc =>
    match acc with
    | y :: _ => if x == y then acc else x :: acc
    | [] => [x]) []

/-- The distinct hits, labelled with the visibility of their source attribute, or else of
the equal document value; hits with neither are dropped. -/
def hitTermsOf (hits : List (Bytes × Value)) (doc : Option Document) : List HitTerm :=
  hits.foldl (fun acc (field, v) =>
    let vis? : Option Bytes :=
      match v.source, doc with
      | some a, _ => some a.visibility
      | none, some d => (d.visibilityFor field v.text).orElse fun _ => d.visibilityFor field v.normalized
      | none, none => none
    match vis? with
    | some vis =>
      let h : HitTerm := ⟨field, v.text, vis⟩
      if acc.contains h then acc else acc ++ [h]
    | none => acc) []

/-- Writes the evidence of a match on a document. -/
def Outcome.record (o : Outcome) (d : Document) : Document :=
  let d := if o.state = .incomplete then
      d.put Document.evalStateName [⟨Bytes.ofString "PARTIAL", d.visibility, d.timestamp, true⟩]
    else d
  let d := o.hitTerms.foldl (fun d h =>
    d.add Document.hitTermName [⟨h.render, h.visibility, d.timestamp, true⟩]) d
  match o.phrases with
  | some p => d.put Document.phraseIndexesName [⟨p.render, d.visibility, d.timestamp, false⟩]
  | none => d

namespace Evaluation

/-- Evaluates a compiled filter against a context; on a match the evidence is written on
the document, if there is one. -/
def evaluate (ev : Evaluation) (ctx : Context) (doc : Option Document) :
    Outcome × Option Document :=
  let (truth, trace) := (ev.condition.eval ⟨ctx, ev.options⟩).run {}
  let matched := truth.holds
  let state := if trace.partialFields.isEmpty then Completeness.complete else .incomplete
  let partialFields := sortedDistinct trace.partialFields
  if !matched then (⟨false, state, partialFields, [], none⟩, doc)
  else
    let hitTerms :=
      if ev.options.arithmetic.tracksHits then hitTermsOf trace.hits doc else []
    let phrases := if trace.phrases.isEmpty then none else some trace.phrases
    let o : Outcome := ⟨true, state, partialFields, hitTerms, phrases⟩
    (o, doc.map o.record)

/-- Whether a record matches. -/
def matches? (ev : Evaluation) (ctx : Context) : Bool := (ev.evaluate ctx none).1.matched

end Evaluation

end EdgeQuery.Eval
