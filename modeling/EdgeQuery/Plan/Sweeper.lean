import EdgeQuery.Plan.Checkpoint
import EdgeQuery.Schedule
/-! # Sweeping old checkpoints

A sweeper deletes the checkpoints of a store that are older than a time to live. It can
also be started on a cron schedule; the schedule is checked when the sweeper starts, and a
sweeper that runs already refuses to start again. A stopped sweeper reports whether a
scheduled sweep ever ran, which the schedules taken here never allow before they stop. -/

namespace EdgeQuery.Plan

/-- A checkpoint store with its sweeper. -/
structure Sweeper where
  store : CheckpointStore
  /-- Whether a schedule is running. -/
  running : Bool := false

namespace Sweeper

/-- Deletes the checkpoints made more than `ttl` seconds before `now`: how many. -/
def sweep (s : Sweeper) (now : Instant) (ttl : Int) : Except Report (Nat × Sweeper) :=
  (s.store.sweep now ttl).map fun (n, store) => (n, { s with store })

/-- Starts sweeping on a schedule, on the day `today` (days since 1970). -/
def start (s : Sweeper) (crontab : String) (today : Int) : Except Report Sweeper :=
  if s.running then .error (Report.plain "sweeper already started")
  else
    match Schedule.check crontab today with
    | .ok () => .ok { s with running := true }
    | .error m => .error (Report.plain ("create sweep job: " ++ m))

/-- Stops the schedule. -/
def stop (s : Sweeper) : Sweeper := { s with running := false }

end Sweeper

end EdgeQuery.Plan
