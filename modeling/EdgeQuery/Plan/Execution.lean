import EdgeQuery.Plan.Checkpoint
import EdgeQuery.Store.Scan
/-! # Executions

An execution runs the units of a plan in order, each unit's entries in key order, and can
be paused after any entry. Reading results again goes on where the last reading stopped:
each unit that is not finished is scanned anew from after the last key it produced. A scan
failure is reported with the query id and the unit's number, and ends the reading. The
events the stages log come with the results: those of the entries the reading reached.

An execution is finished when every unit has been read to its end. Reading it further
produces nothing. An execution resumed from a stored checkpoint deletes that checkpoint
when it finishes.

Checkpointing an execution that has produced nothing gives one checkpoint with every unit
as it is; afterwards it gives one checkpoint per unfinished unit that still has ranges
left, holding that unit cut to what remains. -/

namespace EdgeQuery.Plan

open Store

/-- A paused or running execution of a plan. -/
structure Execution where
  queryId : Uuid
  units : List ScanUnit
  /-- Which units are read to their end. -/
  done : List Bool
  /-- Whether some entry was produced or some unit finished. -/
  started : Bool := false
  /-- Whether every unit is read to its end. -/
  completed : Bool := false
  /-- The stored checkpoint to delete once the execution is complete. -/
  stored : Option Uuid := none
  deriving Inhabited

/-- What reading results gave: entries, the failure that ended the reading if any, and
the events the stages logged while it read. -/
structure Results where
  entries : List Entry := []
  failure : Option Report := none
  /-- Whether this reading completed the execution. -/
  completedNow : Bool := false
  remarks : List Log.Event := []
  deriving Inhabited

namespace Execution

/-- A fresh execution of units. -/
def start (queryId : Uuid) (units : List ScanUnit) (stored : Option Uuid := none) : Execution :=
  { queryId, units, done := units.map fun _ => false, stored }

/-- The scan request of what is left of a unit. -/
def request (u : ScanUnit) : Request :=
  let rest := u.remaining
  { ranges := rest.ranges, stages := rest.stages, families := rest.families }

/-- Whether a unit is finished. -/
def isDone (x : Execution) (i : Nat) : Bool := x.done.getD i false

/-- Marks a unit finished. -/
def finish (x : Execution) (i : Nat) : Execution := { x with done := x.done.set i true }

/-- Records the last key a unit produced. -/
def record (x : Execution) (i : Nat) (k : Key) : Execution :=
  { x with units := x.units.modify i (fun u => { u with lastKey := some k }), started := true }

/-- Takes entries of unit `i` until `room` runs out: the execution after each, the entries
taken, and whether the room ran out. -/
def take (i : Nat) : Execution → Option Nat → List Entry → Execution × List Entry × Bool
  | x, _, [] => (x, [], false)
  | x, room, e :: rest =>
    let x := x.record i e.key
    match room with
    | some 1 => (x, [e], true)
    | _ =>
      let (x, es, full) := take i x (room.map (· - 1)) rest
      (x, e :: es, full)

/-- The failure of a unit's scan, with the query and the unit named. -/
def unitFailure (x : Execution) (i : Nat) (r : Report) : Report :=
  r.context ("query " ++ x.queryId.render ++ " unit " ++ toString i ++ ": ")

/-- Reads results from unit `i` on, at most `room` entries (none: no bound). -/
def readFrom (t : Table) (reg : Registry) (room : Option Nat) :
    Nat → Nat → Execution → Results × Execution
  | 0, _, x => ({}, x)
  | fuel + 1, i, x =>
    if i ≥ x.units.length then
      if x.completed then ({}, x) else ({ completedNow := true }, { x with completed := true })
    else if x.isDone i then readFrom t reg room fuel (i + 1) x
    else
      let req := request (x.units.getD i {})
      if req.ranges.isEmpty then readFrom t reg room fuel (i + 1) (x.finish i)
      else
        let s := t.scan reg req
        let (x, es, full) := take i x room s.entries
        if full then ({ entries := es, remarks := s.heard (some es.length) }, x)
        else
          let remarks := s.heard none
          match s.failure with
          | some r => ({ entries := es, failure := some (x.unitFailure i r), remarks }, x)
          | none =>
            let x := { x.finish i with started := true }
            let (more, x) := readFrom t reg (room.map (· - es.length)) fuel (i + 1) x
            ({ more with entries := es ++ more.entries, remarks := remarks ++ more.remarks }, x)

/-- Reads results: every remaining entry, or at most `limit` of them. A limit of zero
reads nothing. -/
def read (x : Execution) (t : Table) (reg : Registry) (limit : Option Nat) : Results × Execution :=
  if limit == some 0 then ({}, x) else readFrom t reg limit (x.units.length + 1) 0 x

/-- The checkpoints of an execution, made at `now`, with ids from `nextId`. -/
def checkpoints (x : Execution) (now : Instant) (nextId : Nat → Uuid) (first : Nat) :
    List Checkpoint :=
  if !x.started then [⟨nextId first, x.queryId, now, x.units⟩]
  else
    let rests := (x.units.zip x.done).filterMap fun (u, d) =>
      if d then none
      else
        let rest := u.remaining
        if rest.ranges.isEmpty then none else some rest
    rests.zipIdx.map fun (u, j) => ⟨nextId (first + j), x.queryId, now, [u]⟩

end Execution

end EdgeQuery.Plan
