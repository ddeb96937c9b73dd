import EdgeQuery.Plan.Unit
import EdgeQuery.Plan.Bindings
import EdgeQuery.Query.Parser
import EdgeQuery.Query.NullChecks
import EdgeQuery.Edge.DateType
import EdgeQuery.Log.Event
/-! # Compiling a query into a scan plan

A query compiles in these steps, and the first that fails gives the failure:

1. the query text must not be blank, the date type must read, and the end date must not
   be before the begin date;
2. the text is read and normalized; nothing may be left of it;
3. every branch of its disjunctive normal form (within the branch limit) must give key
   ranges (see `Bindings`); the ranges of all branches are sorted together;
4. the normalized text must read again and have no more terms than the limit allows;
5. the stages are, in this order and with priorities counting up from the base priority:
   a date filter when both dates are given (`load-date` for the load date types,
   `date-range` otherwise), a `date-type` filter unless the date type takes every code or
   the load-date filter already checks it, the `expression` filter with the normalized
   text, the statistics switch and the prefilter, and then the configured stages and the
   query's own stages, each of which needs a kind.

The one unit of the plan is then split into units of at most the configured number of
ranges.

The compiler logs, as component `compiler`, a warning when the prefilter has more fields
than allowed and is dropped, and a debug event with the counts of a plan it made. -/

namespace EdgeQuery.Plan

open Query Store

/-- The limits a compiler works within. -/
structure Limits where
  /-- The most terms a query may have; zero or less bounds nothing. -/
  maxQueryTerms : Int := 50
  /-- The most prefilter fields; with more, no prefilter is used. -/
  maxPrefilterValues : Int := 10
  /-- The priority of the first stage. -/
  basePriority : Int := 30
  dateFilterSkipLimit : Int := 0
  dateFilterScanLimit : Int := 0
  /-- The most ranges per unit; zero or less keeps one unit. -/
  maxRangesPerUnit : Int := 0
  /-- The most branches of the disjunctive normal form; zero or less bounds nothing. -/
  maxBranches : Int := 256
  /-- Stages added to every plan, before the query's own. -/
  customStages : List Stage := []
  deriving Inhabited, Repr

/-- What a query is compiled with besides its text. -/
structure Params where
  /-- The first and last dates, both needed for a date filter; the zero date is none. -/
  beginDate : Option Date := none
  endDate : Option Date := none
  /-- The date type as given. -/
  dateType : String := ""
  /-- Whether statistics edges pass the expression filter. -/
  includeStats : Bool := false
  /-- Stages added after every other. -/
  stages : List Stage := []
  deriving Inhabited, Repr

/-- A failure of the plan's own checks. -/
def invariant (detail : String) : Report :=
  { message := "something went wrong running your query: " ++ detail, causes := [.invariant] }

/-- A parameter that cannot be used. -/
def invalidParams (detail : String) : Report :=
  { message := "invalid query parameters: " ++ detail, causes := [.invalidParams] }

/-- The text of a query left empty. -/
def emptyAfterProcessing : Report := invariant "query string is empty after initial processing"

/-- The given dates, when both are set. -/
def Params.dates (p : Params) : Option (Date × Date) :=
  match p.beginDate, p.endDate with
  | some b, some e => if b.isZero || e.isZero then none else some (b, e)
  | _, _ => none

/-- The stages of a plan, numbered from the base priority; the prefilter is written by the
token codec `P`. -/
def stagesFor (P : TokenCodec Edge.Prefilter) (l : Limits) (residual : String)
    (prefilter : Edge.Prefilter) (dt : Edge.DateType) (p : Params) : Except Report (List Stage) := do
  let dateStages : List Stage := match p.dates with
    | some (b, e) =>
      let opts := [("begin", b.render), ("end", e.render),
        ("skip_limit", toString l.dateFilterSkipLimit),
        ("scan_limit", toString l.dateFilterScanLimit)]
      if dt.isLoad then
        [{ name := "load-date", kind := "load-date", options := opts ++ [("date_type", dt.name)] }]
      else [{ name := "date-range", kind := "date-range", options := opts }]
    | none => []
  let typeStages : List Stage :=
    if (p.dates.isNone || !dt.isLoad) && !dt.isAny then
      [{ name := "date-type", kind := "date-type", options := [("date_type", dt.name)] }]
    else []
  let exprStages : List Stage :=
    if residual.isEmpty then []
    else
      [{ name := "expression", kind := "expression"
         options := [("query", residual), ("stats", if p.includeStats then "true" else "false")] ++
           (if prefilter.isEmpty then [] else [("prefilter", prefilter.encode P)]) }]
  let custom ← (l.customStages ++ p.stages).mapM fun s =>
    if s.kind.isEmpty then .error (invalidParams ("custom stage " ++ Quote.text s.name ++ " has no kind"))
    else pure { s with name := if s.name.isEmpty then s.kind else s.name }
  let all := dateStages ++ typeStages ++ exprStages ++ custom
  return all.zipIdx.map fun (s, i) => { s with priority := l.basePriority + i }

/-- What the checks of a query leave to build a plan from. -/
structure Analysis where
  dateType : Edge.DateType
  /-- The number of branches of the disjunctive normal form. -/
  branches : Nat
  bindings : List Bindings
  ranges : List Range
  /-- The normalized text. -/
  residual : String

/-- Checks a query and finds its ranges: steps 1 to 4 of the module comment. -/
def analyse (l : Limits) (query : String) (p : Params) : Except Report Analysis := do
  if (Bytes.trimSpace (Bytes.ofString query)).isEmpty then throw emptyAfterProcessing
  let dt ← (Edge.DateType.parse p.dateType).mapError invalidParams
  if let some (b, e) := p.dates then
    if e.before b then
      throw (invalidParams ("begin " ++ b.render ++ " is after end " ++ e.render))
  let e ← (parse query).mapError fun err => err.report.context "compile: "
  let e := e.normalize
  if let .hole := e then throw emptyAfterProcessing
  let dnf ← (Dnf.ofExpr l.maxBranches.toNat e).mapError (Report.context "compile: ")
  let bindings := dnf.branches.map Bindings.ofBranch
  let ranges ← (dnf.branches.zip bindings).flatMapM fun (branch, b) =>
    if b.ranges.isEmpty then
      .error { message := "query does not bind SOURCE in every branch: " ++ Dnf.renderBranch branch
               causes := [.noSourceBinding] }
    else pure b.ranges
  let ranges := Range.sort ranges
  let residual := e.render
  if !residual.isEmpty then
    if let .error err := parse residual then
      throw { err.report with
        message := (invariant ("normalised query " ++ Quote.text residual ++ " does not parse: " ++
          err.report.message)).message
        causes := .invariant :: err.report.causes }
  let terms := e.termCount
  if l.maxQueryTerms > 0 && (terms : Int) > l.maxQueryTerms then
    throw { message := "query has too many terms: " ++ toString terms ++ " terms, at most " ++
              toString l.maxQueryTerms ++ " allowed"
            causes := [.termLimit] }
  return { dateType := dt, branches := dnf.branches.length, bindings, ranges, residual }

/-- Builds the plan of a checked query: step 5 of the module comment. -/
def Analysis.plan (a : Analysis) (P : TokenCodec Edge.Prefilter) (l : Limits) (p : Params) :
    Except Report Plan := do
  let prefilter := prunePrefilter l.maxPrefilterValues (prefilterCandidates a.bindings)
  let stages ← stagesFor P l a.residual prefilter a.dateType p
  let unit : ScanUnit := { ranges := a.ranges, stages, families := columnFamilies a.bindings }
  return { query := a.residual, units := unit.split l.maxRangesPerUnit }

/-- Compiles a query into a scan plan (see the module comment), writing its prefilter by
the token codec `P`. -/
def compile (P : TokenCodec Edge.Prefilter) (l : Limits) (query : String) (p : Params) :
    Except Report Plan := do
  (← analyse l query p).plan P l p

/-- The component compiler events are logged as. -/
def compilerComponent : String := "compiler"

/-- The warning for a prefilter with too many fields, if it has them. -/
def prefilterWarning (l : Limits) (a : Analysis) : List Log.Event :=
  let kept := (prefilterCandidates a.bindings).filter fun (_, vs) =>
    !vs.isEmpty && !vs.contains disablePrefilter
  if (kept.length : Int) > l.maxPrefilterValues then
    [Log.Event.scoped compilerComponent Log.warn "prefilter too large, prefiltering disabled"
      [("fields", .int kept.length), ("max", .int l.maxPrefilterValues)]]
  else []

/-- Compiles a query into a scan plan, with the events the compiler logs. -/
def compileLogged (P : TokenCodec Edge.Prefilter) (l : Limits) (query : String) (p : Params) :
    List Log.Event × Except Report Plan :=
  match analyse l query p with
  | .error r => ([], .error r)
  | .ok a =>
    let warning := prefilterWarning l a
    match a.plan P l p with
    | .error r => (warning, .error r)
    | .ok plan =>
      let stages := (plan.units.head?.map (·.stages.length)).getD 0
      let prefilterFields := (prunePrefilter l.maxPrefilterValues (prefilterCandidates a.bindings)).fields.length
      (warning ++ [Log.Event.scoped compilerComponent Log.debug "query compiled"
        [("query", .text a.residual), ("branches", .int a.branches), ("ranges", .int a.ranges.length),
         ("stages", .int stages), ("units", .int plan.units.length),
         ("prefilter_fields", .int prefilterFields)]], .ok plan)

end EdgeQuery.Plan
