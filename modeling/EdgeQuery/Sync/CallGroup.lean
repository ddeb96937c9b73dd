/-! # Shared calls and signals

A call group runs at most one call per key at a time. The first caller for a key leads: its
call runs, and every caller arriving while it runs waits for it instead of calling again.
When the call ends, the key is free, and the next caller leads a fresh call.

The leader gets the call's outcome, marked unshared. A waiter gets the same outcome,
marked shared, unless its own context is cancelled while it waits: it then gets the zero
value and the cancellation, still marked shared. A failed call's value is the zero value.

A signal hands out a channel that the next notification closes; after a notification a
fresh, open channel is handed out. Channels are numbered by the notification that closes
them. -/

namespace EdgeQuery.Sync

/-- What a caller gets: a value, whether it came from another caller's call, and the
failure, if any. -/
structure Answer (α : Type) where
  value : α
  shared : Bool
  error : Option String
  deriving Repr

/-- The message of a cancelled context. -/
def cancelled : String := "context canceled"

/-- The keys whose calls are in flight, each with the number of callers waiting on it. -/
structure CallGroup (κ : Type) where
  flights : List (κ × Nat) := []
  deriving Repr

namespace CallGroup

variable {κ : Type} [BEq κ]

/-- How many calls are in flight. -/
def inFlight (g : CallGroup κ) : Nat := g.flights.length

/-- A caller arrives for a key: whether it leads a call, and the group after. -/
def arrive (g : CallGroup κ) (k : κ) : Bool × CallGroup κ :=
  if g.flights.any (·.1 == k) then
    (false, { flights := g.flights.map fun (k', n) => if k' == k then (k', n + 1) else (k', n) })
  else (true, { flights := g.flights ++ [(k, 0)] })

/-- The call for a key ends. -/
def finish (g : CallGroup κ) (k : κ) : CallGroup κ := { flights := g.flights.filter (·.1 != k) }

/-- What the leader of a call gets. -/
def leaderAnswer {α : Type} (zero : α) : Except String α → Answer α
  | .ok v => ⟨v, false, none⟩
  | .error e => ⟨zero, false, some e⟩

/-- What a waiter gets, given whether its context is still live. -/
def waiterAnswer {α : Type} (zero : α) (outcome : Except String α) (live : Bool) : Answer α :=
  if live then { leaderAnswer zero outcome with shared := true } else ⟨zero, true, some cancelled⟩

/-- A call for `k` with `outcome`, joined while it runs by waiters whose contexts are live
or not: the answers, leader first; the number of calls in flight while it ran; and the
group after it ended. -/
def share {α : Type} (g : CallGroup κ) (k : κ) (zero : α) (outcome : Except String α) (waiters : List Bool) :
    List (Answer α) × Nat × CallGroup κ :=
  let (_, g) := g.arrive k
  let g := waiters.foldl (fun g _ => (g.arrive k).2) g
  (leaderAnswer zero outcome :: waiters.map (waiterAnswer zero outcome), g.inFlight, g.finish k)

end CallGroup

/-- A signal: how many notifications it has had. -/
structure Signal where
  notified : Nat := 0
  deriving Repr

namespace Signal

/-- The channel the next notification closes. -/
def channel (s : Signal) : Nat := s.notified

/-- Notifies: closes the current channel. -/
def notify (s : Signal) : Signal := { notified := s.notified + 1 }

/-- Whether a channel is closed. -/
def closed (s : Signal) (ch : Nat) : Bool := ch < s.notified

theorem closed_after_notify (s : Signal) : s.notify.closed s.channel = true := by
  simp [closed, notify, channel]

theorem fresh_channel_open (s : Signal) : s.closed s.channel = false := by
  simp [closed, channel]

end Signal

end EdgeQuery.Sync
