import EdgeQuery.Cli.Step
import EdgeQuery.Plan.Compile
import EdgeQuery.Plan.IdText
import EdgeQuery.Plan.Sweeper
import EdgeQuery.Edge.File
import EdgeQuery.Excerpt.Transform
import EdgeQuery.Record.Parse
import EdgeQuery.Eval.Evaluate
import EdgeQuery.Query.Printer
/-! # The commands

* `rewrite QUERY` prints the normalized query.
* `compile QUERY` prints the scan plan of a query, compiled within the configured limits
  and with the dates, date type, term limit and statistics switch of its flags.
* `eval QUERY --records PATTERNS` evaluates the query against every record of the files
  the patterns match and prints the records that matched (all of them with `--all`).
* `excerpt QUERY --records PATTERNS` does the same and adds to each matched record the
  text around its phrase hits, looked up in the term entries of the edge database.
* `load` stores the edges of edge files and the term entries of records' text fields in
  the edge database.
* `scan QUERY` runs a query over the edge database and prints the edges it finds; with
  `--limit` it pauses after that many and hands out checkpoints of what is left, as tokens
  or stored in the database (`--save`).
* `resume` goes on with a paused scan, from a token or a stored checkpoint.
* `checkpoints list`, `delete` and `sweep` show, delete and expire stored checkpoints.
* `config show` prints the settings.

Tables are printed in aligned columns; with `-o json` each command prints JSON instead.
A command that fails prints `Error: ` and its message on standard error. -/

namespace EdgeQuery.Cli

open Plan Store

/-! ### Queries -/

/-- Reads a date flag: `yyyymmdd`, or an RFC 3339 timestamp taken in UTC; empty is none. -/
def readDate (s : String) : Except String (Option Date) :=
  if s.isEmpty then .ok none
  else
    match Date.parse? s with
    | some d => .ok (some d)
    | none =>
      match Timestamp.parse s with
      | .ok m => .ok (some m.date)
      | .error _ => .error ("date " ++ Quote.text s ++ " is neither yyyymmdd nor RFC 3339")

/-- Compiles a query with the settings' limits and the compile flags. -/
def compileQuery (p : Parsed) (q : String) : Step Plan := do
  let c ← settings p
  let limits := if p.changed "max-terms" then { c.limits with maxQueryTerms := p.whole "max-terms" } else c.limits
  let includeStats := if p.changed "stats" then p.truth "stats" else c.includeStats
  let beginDate ← check ((readDate (p.text "begin")).mapError ("--begin: " ++ ·))
  let endDate ← check ((readDate (p.text "end")).mapError ("--end: " ++ ·))
  let dateType := Bytes.toUtf8 (Utf8.mapChars Unicode.toUpper (Bytes.ofString (p.text "date-type")))
  let (events, plan) := compileLogged prefilterTokens limits q { beginDate, endDate, dateType, includeStats }
  logAll events
  checkReport plan

/-- The rows of a plan's table. -/
def planRows (plan : Plan) : List (List String) :=
  ["", "query", plan.query] :: (plan.units.zipIdx.flatMap fun (u, i) =>
    let unit := toString i
    u.ranges.map (fun r => [unit, "range", plain r.render]) ++
    u.stages.map (fun s => [unit, "stage", s.render]) ++
    (if u.families.isEmpty then [] else [[unit, "columns", ", ".intercalate (u.families.map plain)]]) ++
    (match u.lastKey with
     | some k => [[unit, "after", plain k.render]]
     | none => []))

/-- `rewrite QUERY`. -/
def rewriteCommand (p : Parsed) (q : String) : Step Unit := do
  let e ← check ((Query.parse q).mapError (·.report.message))
  let normalized := e.normalize.render
  if wantsJson p then print (indentedJson (.object [("normalized", .string normalized), ("query", .string q)]))
  else print (normalized ++ "\n")

/-- `compile QUERY`. -/
def compileCommand (p : Parsed) (q : String) : Step Unit := do
  let plan ← compileQuery p q
  if wantsJson p then print (indentedJson (planJson plan))
  else print (table ["UNIT", "PART", "VALUE"] (planRows plan))

/-! ### Records -/

/-- A record after evaluation. -/
structure Evaluated where
  record : Record
  /-- Where it was read: `path:line`. -/
  place : String
  outcome : Eval.Outcome
  /-- Its document, with the evidence of a match. -/
  doc : Document

/-- How an evaluated record is shown. -/
def Evaluated.view (r : Evaluated) : RecordView :=
  { id := plain r.record.id, source := r.place, matched := r.outcome.matched, state := r.outcome.state.name
    partialFields := r.outcome.partialFields.map plain
    hitTerms := r.outcome.hitTerms.map fun h => plain h.render
    phraseIndexes :=
      if r.outcome.matched then ((r.doc.first? Document.phraseIndexesName).map fun a => plain a.value).getD ""
      else ""
    excerpts := (r.doc.values Document.hitExcerptName).map plain }

/-- The records of the files patterns match, files in path order. -/
def loadRecords (patterns : List String) (format : RecordFormat) (textFields : List String) :
    Step (List (Record × String)) := do
  let paths ← check ((← world).discover patterns)
  if paths.isEmpty then throw ("no files match " ++ quotedList patterns)
  let perFile ← paths.mapM fun path => do
    check (Record.readFile path (← readBytes path) format (textFields.map Bytes.ofString))
  return perFile.flatten

/-- The number of evaluation workers. -/
def workerCount (p : Parsed) (c : Config) : Int := if p.changed "workers" then p.whole "workers" else c.evalWorkers

/-- Evaluates a query against the records of the record flags. -/
def evaluate (p : Parsed) (c : Config) (q : String) : Step (List Evaluated) := do
  let format ← check (RecordFormat.parse (p.text "format" "auto"))
  let ev ← checkReport (Eval.Evaluation.compileQuery q
    { arithmetic := .hitList, incomplete := (p.texts "incomplete").map Bytes.ofString })
  let records ← loadRecords (p.texts "records") format (p.texts "text")
  let results := records.map fun (r, place) =>
    let (ctx, doc) := r.context
    let (o, after) := ev.evaluate ctx (some doc)
    ({ record := r, place, outcome := o, doc := after.getD doc } : Evaluated)
  logEvent (event Log.debug "records evaluated" [("records", .int results.length),
    ("matched", .int (results.filter (·.outcome.matched)).length), ("workers", .int (workerCount p c))])
  return results

/-- Prints evaluated records: those that matched, or all. -/
def printResults (p : Parsed) (results : List Evaluated) (all : Bool) : Step Unit := do
  let shown := (results.filter fun r => all || r.outcome.matched).map Evaluated.view
  if wantsJson p then print (String.join (shown.map fun v => jsonLine v.toJson))
  else
    print (table ["ID", "MATCHED", "STATE", "DETAIL", "SOURCE"] (shown.map fun v =>
      let detail := if v.excerpts.isEmpty then " ".intercalate v.hitTerms else " | ".intercalate v.excerpts
      [v.id, toString v.matched, v.state, detail, v.source]))

/-- `eval QUERY`. -/
def evalCommand (p : Parsed) (q : String) : Step Unit := do
  let c ← settings p
  let results ← evaluate p c q
  printResults p results (p.truth "all")

/-- `excerpt QUERY`. -/
def excerptCommand (p : Parsed) (q : String) : Step Unit := do
  let c ← settings p
  let fields ← checkReport c.excerpts
  let fields ← match p.text "fields" with
    | "" => pure fields
    | spec => check ((Excerpt.Fields.parse spec).mapError fun r => "--fields: " ++ r.message)
  if fields.windows.isEmpty then throw "no excerpt fields: set --fields or excerptFields in the config"
  let results ← evaluate p c q
  let (_, d) ← openDatabase p true
  checkKinds c
  let t : Excerpt.Transform := { fields, table := d.table, registry, priority := c.basePriority }
  let results ← results.mapM fun r => do
    if !r.outcome.matched then return r
    match t.apply r.doc with
    | .ok (doc, events) => do logAll events; return { r with doc }
    | .error e => throw ("excerpt " ++ plain r.record.id ++ ": " ++ e.message)
  printResults p results false

/-! ### Loading -/

/-- The most entries kept before they are written. -/
def loadBatch : Nat := 512

/-- Entries being written to a database, a batch at a time. -/
structure Batch where
  path : String
  db : Database
  pending : List Entry := []

/-- Writes the pending entries. -/
def Batch.flush (b : Batch) : Step Batch := do
  if b.pending.isEmpty then return b
  let db := { b.db with table := b.db.table.put b.pending }
  setWorld ((← world).keepDatabase b.path db)
  return { b with db, pending := [] }

/-- Adds entries, writing them once a batch is full. -/
def Batch.add (b : Batch) (es : List Entry) : Step Batch := do
  let b := { b with pending := b.pending ++ es }
  if b.pending.length < loadBatch then return b else b.flush

/-- Loads the edges of edge files: how many. -/
def loadEdges (b : Batch) (patterns : List String) : Step (Batch × Nat) := do
  if patterns.isEmpty then return (b, 0)
  let paths ← check ((← world).discover patterns)
  if paths.isEmpty then throw ("no edge files match " ++ quotedList patterns)
  paths.foldlM (fun (b, n) path => do
    let edges ← check (Edge.readFile path (← readBytes path))
    edges.foldlM (fun (b, n) e => do return (← b.add [e.entry storedSerial], n + 1)) (b, n)) (b, 0)

/-- Loads the term entries of records' text fields: how many entries and records. -/
def loadRecordTerms (p : Parsed) (b : Batch) (patterns : List String) : Step (Batch × Nat × Nat) := do
  if patterns.isEmpty then return (b, 0, 0)
  let format ← check (RecordFormat.parse (p.text "format" "auto"))
  let records ← loadRecords patterns format (p.texts "text")
  records.foldlM (fun (b, terms, count) (r, _) => do
    let es ← check (r.termEntries offsetsSerial)
    return (← b.add es, terms + es.length, count + 1)) (b, 0, 0)

/-- `load`. -/
def loadCommand (p : Parsed) : Step Unit := do
  let edgePatterns := p.texts "edges"
  let recordPatterns := p.texts "records"
  if edgePatterns.isEmpty && recordPatterns.isEmpty then throw "nothing to load: set --edges or --records"
  let (path, db) ← openDatabase p false
  let (b, edges) ← loadEdges { path, db } edgePatterns
  let (b, terms, records) ← loadRecordTerms p b recordPatterns
  let _ ← b.flush
  logEvent (event Log.info "load complete" [("edges", .int edges), ("records", .int records),
    ("term_entries", .int terms)])
  if wantsJson p then
    print (indentedJson (.object [("edges", Json.ofInt edges), ("records", Json.ofInt records),
      ("termEntries", Json.ofInt terms)]))
  else print (details [("Edges", toString edges), ("Records", toString records), ("Term entries", toString terms)])

/-! ### Scanning -/

/-- The table row of an edge. -/
def edgeRow (e : Edge) : List String :=
  [plain e.source, plain e.sink, plain e.edgeType, plain e.relation, e.date.render, plain e.dateCode,
    toString e.count, "/".intercalate (([e.attribute1, e.attribute2, e.attribute3].filter (!·.isEmpty)).map plain)]

/-- Hands out the checkpoints of a paused execution: stored, or as tokens on standard error
or in the file `--checkpoint-out` names. -/
def emitCheckpoints (p : Parsed) (s : Session) (x : Execution) : Step Session := do
  if p.truth "save" then
    let (cps, engine) ← checkReport (s.engine.save x)
    let s := { s with engine }
    s.keep
    printErr (String.join (cps.map fun cp => "checkpoint saved: " ++ cp.id.render ++ "\n"))
    return s
  else
    let (cps, engine) := s.engine.checkpoint x
    let tokens := String.join (cps.map fun cp => cp.encode checkpointTokens ++ "\n")
    match p.text "checkpoint-out" with
    | "" => printErr tokens
    | path => setWorld (← check (((← world).write path (Bytes.ofString tokens)).mapError (·.message)))
    return { s with engine }

/-- Prints the edges of an execution up to `--limit`; a paused execution hands out its
checkpoints. -/
def drain (p : Parsed) (s : Session) (x : Execution) : Step (Session × Execution) := do
  let limit := p.whole "limit"
  let (results, x, engine) := s.engine.read x (if limit > 0 then some limit.toNat else none)
  let s := { s with engine }
  s.keep
  let edges ← results.entries.mapM fun e => checkReport (Edge.decode storedSerial e)
  if wantsJson p then print (String.join (edges.map fun e => jsonLine (edgeJson e)))
  logAll results.remarks
  if let some r := results.failure then throw r.message
  if results.completedNow then
    logEvent (Log.Event.scoped "engine" Log.debug "execution complete"
      [("query", .text x.queryId.render), ("units", .int x.units.length)])
  if !wantsJson p then
    print (table ["SOURCE", "SINK", "TYPE", "RELATION", "DATE", "CODE", "COUNT", "ATTRIBUTES"] (edges.map edgeRow))
  logEvent (event Log.debug "scan finished" [("query", .text x.queryId.render), ("edges", .int edges.length),
    ("done", .bool x.completed)])
  if x.completed then return (s, x)
  return (← emitCheckpoints p s x, x)

/-- `scan QUERY`. -/
def scanCommand (p : Parsed) (q : String) : Step Unit := do
  let plan ← compileQuery p q
  let s ← openSession p
  let (x, engine) := s.engine.execute plan
  let _ ← drain p { s with engine } x

/-- `resume`. -/
def resumeCommand (p : Parsed) : Step Unit := do
  let token := p.text "token"
  let rawId := p.text "id"
  if token.isEmpty == rawId.isEmpty then throw "set exactly one of --token and --id"
  let s ← openSession p
  if !token.isEmpty then
    let cp ← checkReport (Checkpoint.decode checkpointTokens (Unicode.trimSpace token))
    let _ ← drain p s (Engine.resume cp)
  else
    let id ← check ((Uuid.parse rawId).mapError fun e => "checkpoint id " ++ Quote.text rawId ++ ": " ++ e)
    let x ← checkReport (s.engine.resumeStored id)
    logEvent (Log.Event.scoped "engine" Log.info "resuming checkpoint"
      [("checkpoint", .text id.render), ("query", .text x.queryId.render), ("units", .int x.units.length)])
    let (s, x) ← drain p s x
    if !x.completed then
      let _ ← s.withStore (s.store.delete id)

/-! ### Checkpoints -/

/-- `checkpoints list`. -/
def listCommand (p : Parsed) : Step Unit := do
  let s ← openSession p
  let cps ← checkReport s.store.list
  if wantsJson p then print (indentedJson (listOrNull (cps.map checkpointJson)))
  else
    print (table ["ID", "QUERY", "CREATED", "UNITS", "RANGES"] (cps.map fun cp =>
      [cp.id.render, cp.queryId.render, Timestamp.render cp.created.seconds 0, toString cp.units.length,
        toString (cp.units.foldl (fun n u => n + u.ranges.length) 0)]))

/-- `checkpoints delete ID...`. -/
def deleteCommand (p : Parsed) : Step Unit := do
  let ids ← p.args.mapM fun a =>
    check ((Uuid.parse a).mapError fun e => "checkpoint id " ++ Quote.text a ++ ": " ++ e)
  let s ← openSession p
  let _ ← s.withStore (ids.foldl CheckpointStore.delete s.store)

/-- `checkpoints sweep`. -/
def sweepCommand (p : Parsed) : Step Unit := do
  let c ← settings p
  let ttl := if p.changed "ttl" then p.duration "ttl" else c.retention
  if ttl ≤ 0 then throw "checkpoints never expire: set checkpointTtl or --ttl"
  let s ← openSession p
  if !p.truth "schedule" then
    let (n, store) ← check (s.store.sweepBefore ((← world).now.back ttl) |>.mapError
      fun r => "list checkpoints: " ++ r.message)
    let _ ← s.withStore store
    print ("deleted " ++ toString n ++ " checkpoint(s)\n")
  else
    if c.checkpointSweepCron.isEmpty then throw "checkpointSweepCron is not set"
    let _ ← checkReport ((Sweeper.mk s.store false).start c.checkpointSweepCron (← today))
    logEvent (Log.Event.scoped "sweeper" Log.info "checkpoint sweeper started"
      [("cron", .text c.checkpointSweepCron), ("ttl", .text (Duration.render ttl))])

/-! ### Settings -/

/-- `config show`. -/
def showCommand (p : Parsed) : Step Unit := do
  let c ← settings p
  if wantsJson p then print (indentedJson c.toJson)
  else
    let stages := c.customStages.map fun st => if st.name.isEmpty then st.kind else st.name ++ "(" ++ st.kind ++ ")"
    print (details [
      ("Max query terms", toString c.maxQueryTerms), ("Max prefilter values", toString c.maxPrefilterValues),
      ("Base priority", toString c.basePriority), ("Date filter skip limit", toString c.dateFilterSkipLimit),
      ("Date filter scan limit", toString c.dateFilterScanLimit), ("Max ranges per unit", toString c.maxRangesPerUnit),
      ("Max branches", toString c.maxBranches), ("Include stats", toString c.includeStats),
      ("Excerpt fields", c.excerptFields), ("Excerpt rate", FloatStyle.general.render c.excerptRate ++ "/s"),
      ("Eval workers", toString c.evalWorkers), ("Checkpoint TTL", c.checkpointTtl),
      ("Checkpoint sweep", c.checkpointSweepCron), ("Log level", c.logLevel),
      ("Custom stages", ", ".intercalate stages)])

/-! ### Running a command line -/

/-- Runs the command found for a command line, given the rest of the line. -/
def perform (table : List Command) (c : Command) (rest : List String) : Step Unit := do
  let p ← check (parse (c.allFlags table ++ [helpFlag]) rest)
  if p.truth "help" || !c.runs then print (c.helpText table) else
  check (c.checkArgs p.args)
  if p.changed "log-level" then configureLevels (p.text "log-level")
  check (c.checkRequired p)
  let first := p.args.headD ""
  match c.path with
  | ["rewrite"] => rewriteCommand p first
  | ["compile"] => compileCommand p first
  | ["eval"] => evalCommand p first
  | ["excerpt"] => excerptCommand p first
  | ["load"] => loadCommand p
  | ["scan"] => scanCommand p first
  | ["resume"] => resumeCommand p
  | ["checkpoints", "list"] => listCommand p
  | ["checkpoints", "delete"] => deleteCommand p
  | ["checkpoints", "sweep"] => sweepCommand p
  | ["config", "show"] => showCommand p
  | ["version"] => print "dev\n"
  | ["help"] =>
    let target := ((table.find? (·.path == p.args)).filter (fun _ => !p.args.isEmpty)).getD c
    print (if target.path == ["help"] then ((table.find? (·.path.isEmpty)).getD c).helpText table
           else target.helpText table)
  | _ => pure ()

/-- How a run ended: what it printed, and its failure if it failed. -/
structure Outcome where
  stdout : String
  stderr : String
  failure : Option String
  deriving Inhabited

/-- Runs a command line in a world: what it printed and how it ended, and the world it
leaves. The built program also has a `version` command. -/
def run (w : World) (args : List String) (withVersion : Bool := false) : Outcome × World :=
  let table := commands withVersion
  match find table args with
  | (_, _, some msg) =>
    ({ stdout := "", stderr := "Error: " ++ msg ++ "\nRun '" ++ programName ++ " --help' for usage.\n"
       failure := some msg }, w)
  | (c, rest, none) =>
    let (result, s) := (perform table c rest).run.run { world := w }
    match result with
    | .ok () => ({ stdout := s.out, stderr := s.err, failure := none }, s.world)
    | .error msg => ({ stdout := s.out, stderr := s.err ++ "Error: " ++ msg ++ "\n", failure := some msg }, s.world)

end EdgeQuery.Cli
