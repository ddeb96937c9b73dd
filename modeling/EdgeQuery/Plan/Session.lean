import EdgeQuery.Plan.Engine
/-! # Sessions

A session drives one engine over a sequence of commands: it holds the execution in
progress and the checkpoints taken so far, in the order they were taken or stored.

Taking checkpoints sends each one through its token form and keeps what the token reads
back as; the session reports, for each, whether its ids and its time came back unchanged
and belong to the execution in progress. Resuming a kept checkpoint replaces the
execution in progress. -/

namespace EdgeQuery.Plan

open Store

/-- An engine, the execution it is running, and the checkpoints kept so far. -/
structure Session where
  engine : Engine
  /-- How checkpoints travel in tokens. -/
  tokens : TokenCodec Checkpoint
  /-- The execution in progress, once one was started. -/
  current : Option Execution := none
  /-- Checkpoints taken or stored, in order. -/
  saved : List Checkpoint := []

namespace Session

/-- The number of checkpoints in the engine's store. -/
def inStore (s : Session) : Nat := (s.engine.checkpointStore.map CheckpointStore.size).getD 0

/-- Starts executing a plan: the number of its units. -/
def start (s : Session) (p : Plan) : Nat × Session :=
  let (x, e) := s.engine.execute p
  (x.units.length, { s with engine := e, current := some x })

/-- Starts executing units as a checkpoint of a fresh query would resume them. -/
def startUnits (s : Session) (units : List ScanUnit) : Nat × Session :=
  let (id, e) := s.engine.freshId
  (units.length, { s with engine := e, current := some (Engine.resume ⟨Uuid.zero, id, e.now, units⟩) })

/-- Reads results of the execution in progress, at most `limit` of them; none when no
execution was started. -/
def pull (s : Session) (limit : Option Nat) : Option (Results × Bool × Session) :=
  s.current.map fun x =>
    let (r, x, e) := s.engine.read x limit
    (r, x.completed, { s with engine := e, current := some x })

/-- Whether a checkpoint read back from its token kept the ids and time of the one taken,
and belongs to the query `queryId`. -/
def keptIds (taken back : Checkpoint) (queryId : Uuid) : Bool :=
  back.id == taken.id && back.queryId == taken.queryId && back.created == taken.created &&
    back.queryId == queryId

/-- Takes the checkpoints of the execution in progress, sends each through its token and
keeps what reads back: each with whether its ids survived. The first token that does not
read back ends the command. -/
def takeCheckpoints (s : Session) : Option (Except Report (List (Checkpoint × Bool)) × Session) :=
  s.current.map fun x =>
    let (cps, e) := s.engine.checkpoint x
    let s := { s with engine := e }
    match cps.mapM fun cp => (Checkpoint.decode s.tokens (cp.encode s.tokens)).map fun back =>
        (back, keptIds cp back x.queryId) with
    | .error r => (.error r, s)
    | .ok backs => (.ok backs, { s with saved := s.saved ++ backs.map (·.1) })

/-- Stores the checkpoints of the execution in progress and keeps them: how many. -/
def save (s : Session) : Option (Except Report Nat × Session) :=
  s.current.map fun x =>
    match s.engine.save x with
    | .error r => (.error r, s)
    | .ok (cps, e) => (.ok cps.length, { s with engine := e, saved := s.saved ++ cps })

/-- Resumes kept checkpoint number `i`: its number of units, and whether it continues the
query of the execution in progress. -/
def resume (s : Session) (i : Nat) : Option (Nat × Bool × Session) :=
  s.saved[i]?.map fun cp =>
    let x := Engine.resume cp
    (cp.units.length, (s.current.map (·.queryId == x.queryId)).getD true, { s with current := some x })

/-- Resumes the stored copy of kept checkpoint number `i`: its number of units. -/
def resumeStored (s : Session) (i : Nat) : Option (Except Report (Nat × Session)) :=
  s.saved[i]?.map fun cp =>
    (s.engine.resumeStored cp.id).map fun x => (x.units.length, { s with current := some x })

/-- Puts entries into the table. -/
def put (s : Session) (es : List Entry) : Session :=
  { s with engine := { s.engine with table := s.engine.table.put es } }

/-- Deletes keys from the table. -/
def delete (s : Session) (keys : List Key) : Session :=
  { s with engine := { s.engine with table := s.engine.table.delete keys } }

/-- Scans the table directly. -/
def scan (s : Session) (r : Request) : Stream := s.engine.table.scan s.engine.registry r

end Session

end EdgeQuery.Plan
