import EdgeQuery.Plan.Execution
/-! # The engine

The engine runs executions over a table with a registry of stage kinds, and keeps
checkpoints in a checkpoint store when it has one. It hands out fresh identifiers for
queries and checkpoints, and stamps checkpoints with the time it is given.

An execution started from a plan gets a new query id; one resumed from a checkpoint keeps
the checkpoint's query id. Saving an execution stores each of its checkpoints. -/

namespace EdgeQuery.Plan

open Store

/-- The state an engine works in. -/
structure Engine where
  table : Table := {}
  registry : Registry := {}
  checkpointStore : Option CheckpointStore := none
  /-- The time checkpoints are stamped with. -/
  now : Instant := ⟨0, 0⟩
  /-- How many identifiers were handed out. -/
  issued : Nat := 0
  /-- A number that tells this engine's identifiers from another's. -/
  tag : Nat := 1

namespace Engine

/-- The identifier handed out as number `n`. -/
def idNumbered (e : Engine) (n : Nat) : Uuid := Uuid.numbered e.tag n

/-- A fresh identifier. -/
def freshId (e : Engine) : Uuid × Engine := (e.idNumbered e.issued, { e with issued := e.issued + 1 })

/-- Starts an execution of a plan under a new query id. -/
def execute (e : Engine) (p : Plan) : Execution × Engine :=
  let (id, e) := e.freshId
  (Execution.start id p.units, e)

/-- Starts an execution of a checkpoint's units. -/
def resume (cp : Checkpoint) : Execution := Execution.start cp.queryId cp.units

/-- The failure of an engine without a checkpoint store. -/
def noStore (what : String) : Report := Report.plain (what ++ ": no checkpoint store configured")

/-- Resumes the stored checkpoint with an id; it is deleted when the execution completes. -/
def resumeStored (e : Engine) (id : Uuid) : Except Report Execution := do
  let some s := e.checkpointStore | throw (noStore ("resume " ++ id.render))
  let cp ← (s.get id).mapError (Report.context ("resume " ++ id.render ++ ": "))
  return Execution.start cp.queryId cp.units (some id)

/-- The checkpoints of an execution, with fresh ids. -/
def checkpoint (e : Engine) (x : Execution) : List Checkpoint × Engine :=
  let cps := x.checkpoints e.now e.idNumbered e.issued
  (cps, { e with issued := e.issued + cps.length })

/-- Checkpoints an execution and stores the checkpoints. -/
def save (e : Engine) (x : Execution) : Except Report (List Checkpoint × Engine) := do
  let some s := e.checkpointStore | throw (noStore "save checkpoints")
  let (cps, e) := e.checkpoint x
  return (cps, { e with checkpointStore := some (cps.foldl CheckpointStore.put s) })

/-- Reads results of an execution (see `Execution.read`); a resumed stored checkpoint is
deleted when the execution completes. -/
def read (e : Engine) (x : Execution) (limit : Option Nat) : Results × Execution × Engine :=
  let (r, x) := x.read e.table e.registry limit
  let e := match r.completedNow, x.stored, e.checkpointStore with
    | true, some id, some s => { e with checkpointStore := some (s.delete id) }
    | _, _, _ => e
  (r, x, e)

end Engine

end EdgeQuery.Plan
