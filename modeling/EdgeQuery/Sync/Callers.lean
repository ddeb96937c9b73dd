import EdgeQuery.Sync.CallGroup
/-! # Callers of a call group, step by step

Many callers use one call group at once, each asking for a key. What each caller does
between taking the group's lock and getting its answer is a sequence of atomic steps, and
the steps of different callers interleave in any order:

* `arrive`: a ready caller takes the lock. If a call for its key is in flight it joins that
  call and waits; else it starts a call, puts its key in flight and leads it.
* `complete`: the function of a leader's call returns an outcome, and the leader takes the
  lock and frees the key. Nobody reads a call's outcome before the call is closed, so the
  return of the function and the freeing of its key are one step here: a call counts as
  running until its key is free.
* `close`: the leader closes its call, which releases the waiters, and returns the outcome,
  unshared.
* `wake`: a waiter whose call is closed returns that call's outcome, shared.
* `expire`: a caller's context ends.
* `cancel`: a waiter whose context has ended stops waiting and returns the cancellation,
  shared. When its call is closed as well, either of `wake` and `cancel` may come.

A call is named by the index of the caller that leads it; the leader also holds the call's
outcome once its function has returned, and whether the call is closed. -/

namespace EdgeQuery.Sync

/-- Where a caller of a call group is. -/
inductive Phase (α : Type) where
  /-- It has not taken the group's lock yet. -/
  | ready
  /-- It leads a call, whose function runs. -/
  | running
  /-- Its call's function has returned and the key is free; the call is not closed yet. -/
  | closing
  /-- It joined a call in flight and waits for it. -/
  | waiting
  /-- It has its answer. -/
  | returned (answer : Answer α)

namespace Phase

/-- Whether a caller leads a call whose function runs. -/
def isRunning {α : Type} : Phase α → Bool
  | running => true
  | _ => false

end Phase

/-- A caller: the key it asks for, whether its context has ended, the call it leads or
joined and where it is; as the leader of a call, the call's outcome once its function has
returned, and whether it closed the call. -/
structure Caller (κ α : Type) where
  key : κ
  ctxDone : Bool := false
  call : Option Nat := none
  phase : Phase α := .ready
  outcome : Option (Except String α) := none
  closed : Bool := false

/-- A call group and the callers that use it. -/
structure Calls (κ α : Type) where
  group : CallGroup κ := {}
  callers : List (Caller κ α)

namespace Calls

variable {κ α : Type} [BEq κ]

/-- Callers for the given keys, none of which has taken the lock yet. -/
def start (keys : List κ) : Calls κ α := { callers := keys.map fun k => { key := k } }

/-- The caller that leads the call running for a key. -/
def leaderOf (s : Calls κ α) (k : κ) : Option Nat :=
  s.callers.findIdx? fun c => c.key == k && c.phase.isRunning

/-- Caller `i` becomes `c`. -/
def setCaller (s : Calls κ α) (i : Nat) (c : Caller κ α) : Calls κ α :=
  { s with callers := s.callers.set i c }

/-- Caller `i`, which is `c`, takes the lock: it joins the call in flight for its key, or
starts a call and leads it. -/
def arrive (s : Calls κ α) (i : Nat) (c : Caller κ α) : Calls κ α :=
  match s.group.arrive c.key with
  | (true, g) => { group := g, callers := s.callers.set i { c with phase := .running, call := some i } }
  | (false, g) =>
    { group := g, callers := s.callers.set i { c with phase := .waiting, call := s.leaderOf c.key } }

/-- The function of the call led by caller `i`, which is `c`, returns `o`; the key is free
again. -/
def complete (s : Calls κ α) (i : Nat) (c : Caller κ α) (o : Except String α) : Calls κ α :=
  { group := s.group.finish c.key, callers := s.callers.set i { c with phase := .closing, outcome := some o } }

/-- One atomic step of one caller; `zero` is the value of a failed or cancelled call. -/
inductive Step (zero : α) : Calls κ α → Calls κ α → Prop
  | arrive {s : Calls κ α} {i : Nat} {c : Caller κ α} :
      s.callers[i]? = some c → c.phase = .ready → Step zero s (s.arrive i c)
  | complete {s : Calls κ α} {i : Nat} {c : Caller κ α} (o : Except String α) :
      s.callers[i]? = some c → c.phase = .running → Step zero s (s.complete i c o)
  | close {s : Calls κ α} {i : Nat} {c : Caller κ α} {o : Except String α} :
      s.callers[i]? = some c → c.phase = .closing → c.outcome = some o →
      Step zero s (s.setCaller i { c with phase := .returned (CallGroup.leaderAnswer zero o), closed := true })
  | wake {s : Calls κ α} {i l : Nat} {c lc : Caller κ α} {o : Except String α} :
      s.callers[i]? = some c → c.phase = .waiting → c.call = some l → s.callers[l]? = some lc →
      lc.closed = true → lc.outcome = some o →
      Step zero s (s.setCaller i { c with phase := .returned (CallGroup.waiterAnswer zero o true) })
  | expire {s : Calls κ α} {i : Nat} {c : Caller κ α} :
      s.callers[i]? = some c → Step zero s (s.setCaller i { c with ctxDone := true })
  | cancel {s : Calls κ α} {i : Nat} {c : Caller κ α} :
      s.callers[i]? = some c → c.phase = .waiting → c.ctxDone = true →
      Step zero s (s.setCaller i { c with phase := .returned ⟨zero, true, some cancelled⟩ })

/-- The states that callers for `keys` reach, one step at a time, in any order. -/
inductive Reachable (zero : α) (keys : List κ) : Calls κ α → Prop
  | start : Reachable zero keys (start keys)
  | step {s s' : Calls κ α} : Reachable zero keys s → Step zero s s' → Reachable zero keys s'

/-- The keys of the callers whose calls run, in the order of the callers. -/
def runningKeys (s : Calls κ α) : List κ :=
  (s.callers.filter fun c => c.phase.isRunning).map (·.key)

end Calls

end EdgeQuery.Sync
