import EdgeQuery.Sync.Callers
import Mathlib.Data.List.Perm.Basic
/-! # One call per key, whatever the order of the callers

Callers of a call group take atomic steps in any order (`Calls.Step`). This module shows
that in every state they reach (`Calls.shared_calls`):

* at most one call runs per key, and the number of keys in flight is the number of keys
  with a running call;
* a caller arriving for a key leads a fresh call exactly when no call runs for the key, and
  joins the running call otherwise; a completed call no longer runs, so a caller arriving
  after it leads a fresh call, even while the waiters of the completed call are not yet
  released (`Calls.complete_frees_key`);
* a caller that joined a call and returned with its context alive got that call's outcome,
  marked shared, and the call's leader got the same outcome, unshared.

The invariant that carries the proof (`Calls.Inv`) has three parts. The keys in flight are
the keys of the running callers, without repeats, and no two running callers share a key.
Each caller's own record is consistent with where it is (`Calls.CallerOk`): a leader's record
holds its call's outcome once the function returned and its answer once it closed the call
(`Calls.LeaderState`). And a caller that joined a call points at the call's leader, for the
same key, and has returned, if at all, that call's outcome or the cancellation
(`Calls.JoinedOk`). Every step changes one caller, and the key set only on `arrive` and
`complete`; `Calls.Inv.update` says once what a change of one caller must keep, and each
step lemma checks it. -/

namespace EdgeQuery.Sync

namespace CallGroup

variable {κ : Type} {g : CallGroup κ} {k : κ}

/-- The keys in flight. -/
def keys (g : CallGroup κ) : List κ := g.flights.map Prod.fst

theorem inFlight_eq_length_keys (g : CallGroup κ) : g.inFlight = g.keys.length := by
  simp [inFlight, keys]

variable [DecidableEq κ]

theorem any_key_iff : g.flights.any (·.1 == k) = true ↔ k ∈ g.keys := by
  simp [keys, List.any_eq_true]

/-- A caller for a key in flight joins, and the keys stay. -/
theorem arrive_of_mem (h : k ∈ g.keys) : (g.arrive k).1 = false ∧ (g.arrive k).2.keys = g.keys := by
  have hany := any_key_iff.2 h
  refine ⟨by simp [arrive, hany], ?_⟩
  simp only [arrive, hany, ↓reduceIte, keys, List.map_map]
  apply List.map_congr_left
  intro x _
  obtain ⟨a, b⟩ := x
  simp only [Function.comp_apply]
  split <;> rfl

/-- A caller for a key not in flight leads, and its key joins the keys in flight. -/
theorem arrive_of_not_mem (h : k ∉ g.keys) :
    (g.arrive k).1 = true ∧ (g.arrive k).2.keys = g.keys ++ [k] := by
  have hany : g.flights.any (·.1 == k) = false := by
    cases hb : g.flights.any (·.1 == k)
    · rfl
    · exact absurd (any_key_iff.1 hb) h
  simp [arrive, hany, keys]

theorem keys_finish : (g.finish k).keys = g.keys.filter (· != k) := by
  simp [finish, keys, List.filter_map, Function.comp_def]

end CallGroup

namespace Phase

@[simp] theorem isRunning_iff {α : Type} {p : Phase α} : p.isRunning = true ↔ p = .running := by
  cases p <;> simp [isRunning]

end Phase

namespace Calls

variable {κ α : Type} {zero : α}

/-! ## The invariant -/

/-- Caller `j` runs a call for `k`. -/
def RunsAt (s : Calls κ α) (j : Nat) (k : κ) : Prop :=
  ∃ c, s.callers[j]? = some c ∧ c.phase = .running ∧ c.key = k

/-- What a leader's record says of its call: it runs, with no outcome yet; its function
returned an outcome and the call is open; or the call is closed and the leader's answer is
the outcome, unshared. -/
def LeaderState (zero : α) (c : Caller κ α) : Prop :=
  (c.phase = .running ∧ c.outcome = none ∧ c.closed = false) ∨
  (c.phase = .closing ∧ c.outcome.isSome = true ∧ c.closed = false) ∨
  ∃ o, c.outcome = some o ∧ c.closed = true ∧ c.phase = .returned (CallGroup.leaderAnswer zero o)

/-- A leader whose call runs has no outcome yet and has not closed its call. -/
theorem LeaderState.running {c : Caller κ α} (h : LeaderState zero c) (hrun : c.phase = .running) :
    c.outcome = none ∧ c.closed = false := by
  rcases h with ⟨-, hnone, hopen⟩ | ⟨hp, -⟩ | ⟨o, -, -, hp⟩
  · exact ⟨hnone, hopen⟩
  · rw [hrun] at hp
    cases hp
  · rw [hrun] at hp
    cases hp

/-- A leader that has returned answered with its call's outcome, unshared. -/
theorem LeaderState.returned {c : Caller κ α} {a : Answer α} (h : LeaderState zero c)
    (hp : c.phase = .returned a) : ∃ o, c.outcome = some o ∧ a = CallGroup.leaderAnswer zero o := by
  rcases h with ⟨hp', -⟩ | ⟨hp', -⟩ | ⟨o, ho, -, hp'⟩
  · rw [hp] at hp'
    cases hp'
  · rw [hp] at hp'
    cases hp'
  · rw [hp] at hp'
    cases hp'
    exact ⟨o, ho, rfl⟩

/-- What the record of caller `i` says of itself. -/
structure CallerOk (zero : α) (i : Nat) (c : Caller κ α) : Prop where
  ready : c.phase = .ready → c.call = none ∧ c.outcome = none ∧ c.closed = false
  leads : c.phase = .running ∨ c.phase = .closing → c.call = some i
  leader : c.call = some i → LeaderState zero c
  waiting : c.phase = .waiting → ∃ l, c.call = some l ∧ l ≠ i

/-- A caller that joined the call led by `lc` waits, or has returned that call's outcome,
shared, or the cancellation after its context ended. -/
def JoinedOk (zero : α) (c lc : Caller κ α) : Prop :=
  c.phase = .waiting ∨ ∃ a, c.phase = .returned a ∧
    ((∃ o, lc.outcome = some o ∧ a = CallGroup.waiterAnswer zero o true) ∨
      (c.ctxDone = true ∧ a = ⟨zero, true, some cancelled⟩))

/-- The invariant of every reachable state. -/
structure Inv (zero : α) (s : Calls κ α) : Prop where
  keys_nodup : s.group.keys.Nodup
  mem_keys : ∀ k, k ∈ s.group.keys ↔ ∃ j, s.RunsAt j k
  running_unique : ∀ i j k, s.RunsAt i k → s.RunsAt j k → i = j
  caller : ∀ i c, s.callers[i]? = some c → CallerOk zero i c
  joined : ∀ i c l, s.callers[i]? = some c → c.call = some l → l ≠ i →
    ∃ lc, s.callers[l]? = some lc ∧ lc.call = some l ∧ lc.key = c.key ∧ JoinedOk zero c lc

theorem inv_start (keys : List κ) : Inv zero (start keys : Calls κ α) := by
  -- every caller starts ready, with nothing in flight
  have hready : ∀ (j : Nat) (c : Caller κ α), (start keys : Calls κ α).callers[j]? = some c →
      c = { key := c.key } := by
    intro j c h
    simp only [start, List.getElem?_map, Option.map_eq_some_iff] at h
    obtain ⟨k, -, rfl⟩ := h
    rfl
  have hnone : ∀ j k, ¬ (start keys : Calls κ α).RunsAt j k := by
    rintro j k ⟨c, hc, hrun, -⟩
    rw [hready j c hc] at hrun
    cases hrun
  refine ⟨List.nodup_nil, fun k => ?_, fun i j k hi => absurd hi (hnone i k), fun i c hc => ?_,
    fun i c l hc hl => ?_⟩
  · simp only [CallGroup.keys, start, List.map_nil, List.not_mem_nil, false_iff]
    exact fun ⟨j, hj⟩ => hnone j k hj
  · rw [hready i c hc]
    exact
      { ready := fun _ => ⟨rfl, rfl, rfl⟩
        leads := fun h => by simp at h
        leader := fun h => by cases h
        waiting := fun h => by cases h }
  · rw [hready i c hc] at hl
    cases hl

/-! ## Changing one caller -/

section Update

variable {s : Calls κ α} {i : Nat} {c c' : Caller κ α}

theorem getElem?_set_of (hc : s.callers[i]? = some c) (j : Nat) :
    (s.callers.set i c')[j]? = if i = j then some c' else s.callers[j]? := by
  have hi : i < s.callers.length := (List.getElem?_eq_some_iff.1 hc).1
  rw [List.getElem?_set]
  split <;> simp_all

/-- Who runs a call after caller `i` changes: caller `i` as its new record says, every
other as before. -/
theorem runsAt_set {g : CallGroup κ} (hc : s.callers[i]? = some c) (j : Nat) (k : κ) :
    (⟨g, s.callers.set i c'⟩ : Calls κ α).RunsAt j k ↔
      if i = j then c'.phase = .running ∧ c'.key = k else s.RunsAt j k := by
  unfold RunsAt
  simp only [getElem?_set_of hc]
  split <;> simp

/-- A leader's record after a step that does not touch a ready or a running caller's call
and outcome. -/
theorem joinedOk_of_leader (hI : Inv zero s) (hc : s.callers[i]? = some c)
    (hcall : c.phase ≠ .ready → c'.call = c.call) (hout : c.phase ≠ .running → c'.outcome = c.outcome)
    {d : Caller κ α} (hlead : c.call = some i) (hd : JoinedOk zero d c) :
    c'.call = some i ∧ JoinedOk zero d c' := by
  have hok := hI.caller i c hc
  have hnready : c.phase ≠ .ready := fun h => by simp [(hok.ready h).1] at hlead
  refine ⟨(hcall hnready).trans hlead, ?_⟩
  rcases hd with hw | ⟨a, ha, (⟨o, ho, rfl⟩ | hcancel)⟩
  · exact .inl hw
  · -- the outcome was there, so the leader no longer runs and keeps it
    have hnrun : c.phase ≠ .running := fun hrun => by
      simp [((hok.leader hlead).running hrun).1] at ho
    exact .inr ⟨_, ha, .inl ⟨o, (hout hnrun).trans ho, rfl⟩⟩
  · exact .inr ⟨a, ha, .inr hcancel⟩

/-- What a change of one caller must keep: its key; its call and outcome, unless it was
ready or running; its own record consistent; the call it joined, if any, led for its key;
and the keys in flight those of the running callers. -/
theorem Inv.update {g : CallGroup κ} (hI : Inv zero s) (hc : s.callers[i]? = some c)
    (hkey : c'.key = c.key) (hcall : c.phase ≠ .ready → c'.call = c.call)
    (hout : c.phase ≠ .running → c'.outcome = c.outcome) (hok : CallerOk zero i c')
    (hjoin : ∀ l, c'.call = some l → l ≠ i →
      ∃ lc, s.callers[l]? = some lc ∧ lc.call = some l ∧ lc.key = c'.key ∧ JoinedOk zero c' lc)
    (hnodup : g.keys.Nodup) (hmem : ∀ k, k ∈ g.keys ↔ ∃ j, (⟨g, s.callers.set i c'⟩ : Calls κ α).RunsAt j k)
    (huniq : ∀ j₁ j₂ k, (⟨g, s.callers.set i c'⟩ : Calls κ α).RunsAt j₁ k →
      (⟨g, s.callers.set i c'⟩ : Calls κ α).RunsAt j₂ k → j₁ = j₂) :
    Inv zero ⟨g, s.callers.set i c'⟩ := by
  refine ⟨hnodup, hmem, huniq, fun j cj hj => ?_, fun j cj l hj hl hlj => ?_⟩
  · simp only [getElem?_set_of hc] at hj
    split at hj
    · cases hj
      subst j
      exact hok
    · exact hI.caller j cj hj
  · simp only [getElem?_set_of hc] at hj ⊢
    split at hj
    · -- caller `i` itself: the call it joined, as the step says
      cases hj
      subst j
      obtain ⟨lc, hlc, hlcall, hlkey, hjok⟩ := hjoin l hl hlj
      exact ⟨lc, by rw [if_neg (Ne.symm hlj)]; exact hlc, hlcall, hlkey, hjok⟩
    · rename_i hij
      obtain ⟨lc, hlc, hlcall, hlkey, hjok⟩ := hI.joined j cj l hj hl hlj
      by_cases hil : i = l
      · -- caller `i` leads the call that `j` joined
        subst hil
        rw [hc] at hlc
        cases hlc
        obtain ⟨hcall', hjok'⟩ := joinedOk_of_leader hI hc hcall hout hlcall hjok
        exact ⟨c', by rw [if_pos rfl], hcall', hkey.trans hlkey, hjok'⟩
      · exact ⟨lc, by rw [if_neg hil]; exact hlc, hlcall, hlkey, hjok⟩

/-- A change of one caller that neither starts nor ends a running call, and leaves the keys
in flight as they are, keeps the key facts. -/
theorem Inv.update_local {g : CallGroup κ} (hI : Inv zero s) (hc : s.callers[i]? = some c)
    (hg : g.keys = s.group.keys) (hkey : c'.key = c.key) (hrun : c'.phase = .running ↔ c.phase = .running)
    (hcall : c.phase ≠ .ready → c'.call = c.call) (hout : c.phase ≠ .running → c'.outcome = c.outcome)
    (hok : CallerOk zero i c')
    (hjoin : ∀ l, c'.call = some l → l ≠ i →
      ∃ lc, s.callers[l]? = some lc ∧ lc.call = some l ∧ lc.key = c'.key ∧ JoinedOk zero c' lc) :
    Inv zero ⟨g, s.callers.set i c'⟩ := by
  have hsame : ∀ j k, (⟨g, s.callers.set i c'⟩ : Calls κ α).RunsAt j k ↔ s.RunsAt j k := by
    intro j k
    rw [runsAt_set hc]
    split
    · subst j
      rw [hrun, hkey]
      exact ⟨fun ⟨h₁, h₂⟩ => ⟨c, hc, h₁, h₂⟩, fun ⟨d, hd, h₁, h₂⟩ => by
        rw [hc] at hd
        cases hd
        exact ⟨h₁, h₂⟩⟩
    · rfl
  exact hI.update hc hkey hcall hout hok hjoin (hg ▸ hI.keys_nodup)
    (fun k => by rw [hg]; simp only [hsame]; exact hI.mem_keys k)
    (fun j₁ j₂ k h₁ h₂ => hI.running_unique j₁ j₂ k ((hsame _ _).1 h₁) ((hsame _ _).1 h₂))

/-- A waiter points at a call led by another caller. -/
theorem call_ne_of_waiting (hI : Inv zero s) (hc : s.callers[i]? = some c) (hw : c.phase = .waiting)
    {l : Nat} (hl : c.call = some l) : l ≠ i := by
  obtain ⟨l', hl', hne⟩ := (hI.caller i c hc).waiting hw
  rw [hl] at hl'
  cases hl'
  exact hne

end Update

/-! ## Each step keeps the invariant -/

section Steps

variable {s : Calls κ α} {i : Nat} {c : Caller κ α}

/-- A caller that has returned has a consistent record when, as the leader of a call, it
holds the call's outcome and its answer. -/
theorem callerOk_of_returned {a : Answer α} (hp : c.phase = .returned a)
    (hlead : c.call = some i → LeaderState zero c) : CallerOk zero i c where
  ready h := by
    rw [hp] at h
    cases h
  leads h := by simp [hp] at h
  leader := hlead
  waiting h := by
    rw [hp] at h
    cases h

/-- A step that keeps a caller's key and call keeps the call it joined led for its key; what
the caller has returned is for the step to say. -/
theorem Inv.joined_keep {c' : Caller κ α} (hI : Inv zero s) (hc : s.callers[i]? = some c)
    (hcall : c'.call = c.call) (hkey : c'.key = c.key)
    (hjok : ∀ l lc, c.call = some l → s.callers[l]? = some lc → JoinedOk zero c lc → JoinedOk zero c' lc) :
    ∀ l, c'.call = some l → l ≠ i →
      ∃ lc, s.callers[l]? = some lc ∧ lc.call = some l ∧ lc.key = c'.key ∧ JoinedOk zero c' lc := by
  intro l hl hli
  rw [hcall] at hl
  obtain ⟨lc, hlc, hlcall, hlkey, hj⟩ := hI.joined i c l hc hl hli
  exact ⟨lc, hlc, hlcall, hlkey.trans hkey.symm, hjok l lc hl hlc hj⟩

theorem inv_close {o : Except String α} (hI : Inv zero s) (hc : s.callers[i]? = some c)
    (hclosing : c.phase = .closing) (ho : c.outcome = some o) :
    Inv zero (s.setCaller i { c with phase := .returned (CallGroup.leaderAnswer zero o), closed := true }) := by
  have hlead : c.call = some i := (hI.caller i c hc).leads (.inr hclosing)
  exact hI.update_local hc rfl rfl (by simp [hclosing]) (fun _ => rfl) (fun _ => rfl)
    (callerOk_of_returned rfl fun _ => .inr (.inr ⟨o, ho, rfl, rfl⟩))
    (fun l hl hli => absurd (Option.some.inj (hlead.symm.trans hl)).symm hli)

theorem inv_wake {l : Nat} {lc : Caller κ α} {o : Except String α} (hI : Inv zero s)
    (hc : s.callers[i]? = some c) (hw : c.phase = .waiting) (hl : c.call = some l)
    (hlc : s.callers[l]? = some lc) (ho : lc.outcome = some o) :
    Inv zero (s.setCaller i { c with phase := .returned (CallGroup.waiterAnswer zero o true) }) := by
  have hli := call_ne_of_waiting hI hc hw hl
  refine hI.update_local hc rfl rfl (by simp [hw]) (fun _ => rfl) (fun _ => rfl)
    (callerOk_of_returned rfl fun h => absurd (Option.some.inj (hl.symm.trans h)) hli)
    (hI.joined_keep hc rfl rfl fun l' lc' hl' hlc' _ => ?_)
  -- the call it joined is the one whose outcome it takes
  rw [hl] at hl'
  cases hl'
  rw [hlc] at hlc'
  cases hlc'
  exact .inr ⟨_, rfl, .inl ⟨o, ho, rfl⟩⟩

theorem inv_expire (hI : Inv zero s) (hc : s.callers[i]? = some c) :
    Inv zero (s.setCaller i { c with ctxDone := true }) := by
  have hok := hI.caller i c hc
  refine hI.update_local hc rfl rfl Iff.rfl (fun _ => rfl) (fun _ => rfl)
    ⟨hok.ready, hok.leads, hok.leader, hok.waiting⟩ (hI.joined_keep hc rfl rfl fun _ _ _ _ hjok => ?_)
  rcases hjok with hw | ⟨a, ha, hshared | ⟨-, hcancel⟩⟩
  · exact .inl hw
  · exact .inr ⟨a, ha, .inl hshared⟩
  · exact .inr ⟨a, ha, .inr ⟨rfl, hcancel⟩⟩

theorem inv_cancel (hI : Inv zero s) (hc : s.callers[i]? = some c) (hw : c.phase = .waiting)
    (hdone : c.ctxDone = true) :
    Inv zero (s.setCaller i { c with phase := .returned ⟨zero, true, some cancelled⟩ }) := by
  obtain ⟨l, hl, hli⟩ := (hI.caller i c hc).waiting hw
  exact hI.update_local hc rfl rfl (by simp [hw]) (fun _ => rfl) (fun _ => rfl)
    (callerOk_of_returned rfl fun h => absurd (Option.some.inj (hl.symm.trans h)) hli)
    (hI.joined_keep hc rfl rfl fun _ _ _ _ _ => .inr ⟨_, rfl, .inr ⟨hdone, rfl⟩⟩)

variable [DecidableEq κ]

/-- The caller that `leaderOf` names runs a call for the key, when one does. -/
theorem leaderOf_runsAt {k : κ} (h : ∃ j, s.RunsAt j k) : ∃ l, s.leaderOf k = some l ∧ s.RunsAt l k := by
  cases hl : s.leaderOf k with
  | none =>
    obtain ⟨j, d, hd, hrun, hkey⟩ := h
    unfold leaderOf at hl
    have := List.findIdx?_eq_none_iff.1 hl d (List.mem_of_getElem? hd)
    simp [hrun, hkey, Phase.isRunning] at this
  | some l =>
    unfold leaderOf at hl
    obtain ⟨hlt, hp, -⟩ := List.findIdx?_eq_some_iff_getElem.1 hl
    simp only [Bool.and_eq_true, beq_iff_eq, Phase.isRunning_iff] at hp
    exact ⟨l, rfl, s.callers[l], List.getElem?_eq_getElem hlt, hp.2, hp.1⟩

/-- A caller for a key in flight joins the call that runs for it. -/
theorem arrive_of_key_mem (hI : Inv zero s) (hin : c.key ∈ s.group.keys) :
    ∃ l, s.RunsAt l c.key ∧ s.arrive i c =
      ⟨(s.group.arrive c.key).2, s.callers.set i { c with phase := .waiting, call := some l }⟩ := by
  obtain ⟨l, hl, hrun⟩ := leaderOf_runsAt ((hI.mem_keys _).1 hin)
  refine ⟨l, hrun, ?_⟩
  have hjoin := (CallGroup.arrive_of_mem hin).1
  unfold arrive
  rw [← hl]
  cases h : s.group.arrive c.key with
  | mk b g => cases b <;> simp_all

/-- A caller for a key not in flight leads a call of its own. -/
theorem arrive_of_key_not_mem (hin : c.key ∉ s.group.keys) :
    s.arrive i c = ⟨(s.group.arrive c.key).2, s.callers.set i { c with phase := .running, call := some i }⟩ := by
  have hlead := (CallGroup.arrive_of_not_mem hin).1
  unfold arrive
  cases h : s.group.arrive c.key with
  | mk b g => cases b <;> simp_all

theorem inv_arrive (hI : Inv zero s) (hc : s.callers[i]? = some c) (hready : c.phase = .ready) :
    Inv zero (s.arrive i c) := by
  obtain ⟨-, hnoout, hnoclosed⟩ := (hI.caller i c hc).ready hready
  -- caller `i` is ready, so it runs no call
  have hnrun : ∀ k, ¬ s.RunsAt i k := fun k ⟨d, hd, hrun, _⟩ => by
    rw [hc] at hd
    cases hd
    rw [hready] at hrun
    cases hrun
  by_cases hin : c.key ∈ s.group.keys
  · -- a call runs for the key: join it
    have hkeys := (CallGroup.arrive_of_mem hin).2
    obtain ⟨l, hrun, harr⟩ := arrive_of_key_mem hI hin
    have hli : l ≠ i := fun h => hnrun c.key (h ▸ hrun)
    rw [harr]
    obtain ⟨lc, hlc, hlrun, hlkey⟩ := hrun
    have hok : CallerOk zero i { c with phase := .waiting, call := some l } :=
      { ready := fun h => by cases h
        leads := fun h => by simp at h
        leader := fun h => absurd (Option.some.inj h) hli
        waiting := fun _ => ⟨l, rfl, hli⟩ }
    refine hI.update_local hc hkeys rfl (by simp [hready]) (fun h => absurd hready h) (fun _ => rfl) hok
      fun l' hl' _ => ?_
    cases hl'
    exact ⟨lc, hlc, (hI.caller l lc hlc).leads (.inl hlrun), hlkey, .inl rfl⟩
  · -- no call runs for the key: lead a new one
    have hkeys := (CallGroup.arrive_of_not_mem hin).2
    rw [arrive_of_key_not_mem hin]
    have hruns : ∀ j k, (⟨(s.group.arrive c.key).2,
        s.callers.set i { c with phase := .running, call := some i }⟩ : Calls κ α).RunsAt j k ↔
        (i = j ∧ c.key = k) ∨ (i ≠ j ∧ s.RunsAt j k) := by
      intro j k
      rw [runsAt_set hc]
      split <;> simp_all
    have hnone : ∀ j, ¬ s.RunsAt j c.key := fun j hj => hin ((hI.mem_keys _).2 ⟨j, hj⟩)
    have hok : CallerOk zero i { c with phase := .running, call := some i } :=
      { ready := fun h => by cases h
        leads := fun _ => rfl
        leader := fun _ => .inl ⟨rfl, hnoout, hnoclosed⟩
        waiting := fun h => by cases h }
    refine hI.update hc rfl (fun h => absurd hready h) (fun _ => rfl) hok
      (fun l hl hli => absurd (Option.some.inj hl).symm hli) ?_ (fun k => ?_) ?_
    · rw [hkeys, List.nodup_append]
      refine ⟨hI.keys_nodup, by simp, fun a ha b hb hab => ?_⟩
      rw [List.mem_singleton] at hb
      exact hin (by rw [← hb, ← hab]; exact ha)
    · rw [hkeys, List.mem_append, List.mem_singleton, hI.mem_keys]
      simp only [hruns]
      constructor
      · rintro (⟨j, hj⟩ | rfl)
        · exact ⟨j, .inr ⟨fun h => hnrun k (by rw [h]; exact hj), hj⟩⟩
        · exact ⟨i, .inl ⟨rfl, rfl⟩⟩
      · rintro ⟨j, ⟨-, rfl⟩ | ⟨-, hj⟩⟩
        · exact .inr rfl
        · exact .inl ⟨j, hj⟩
    · intro j₁ j₂ k h₁ h₂
      rw [hruns] at h₁ h₂
      rcases h₁ with ⟨rfl, rfl⟩ | ⟨-, h₁⟩ <;> rcases h₂ with ⟨rfl, h₂⟩ | ⟨-, h₂⟩
      · rfl
      · exact absurd h₂ (hnone j₂)
      · exact absurd (h₂ ▸ h₁) (hnone j₁)
      · exact hI.running_unique j₁ j₂ k h₁ h₂

/-- Who runs a call once caller `i` completes its call: every other caller that ran one. -/
theorem runsAt_complete {o : Except String α} (hc : s.callers[i]? = some c) (j : Nat) (k : κ) :
    (s.complete i c o).RunsAt j k ↔ i ≠ j ∧ s.RunsAt j k := by
  unfold complete
  rw [runsAt_set hc]
  split <;> simp_all

/-- Once a call completes, no caller runs a call for its key: the next caller to arrive for
the key leads a fresh call, though the waiters of the completed one may not be released yet. -/
theorem complete_frees_key {o : Except String α} (hI : Inv zero s) (hc : s.callers[i]? = some c)
    (hrun : c.phase = .running) (j : Nat) : ¬ (s.complete i c o).RunsAt j c.key := by
  rw [runsAt_complete hc]
  rintro ⟨hij, hj⟩
  exact hij (hI.running_unique i j c.key ⟨c, hc, hrun, rfl⟩ hj)

theorem inv_complete (hI : Inv zero s) (hc : s.callers[i]? = some c) (hrun : c.phase = .running)
    (o : Except String α) : Inv zero (s.complete i c o) := by
  have hok := hI.caller i c hc
  have hlead : c.call = some i := hok.leads (.inl hrun)
  have hopen : c.closed = false := ((hok.leader hlead).running hrun).2
  have hself : s.RunsAt i c.key := ⟨c, hc, hrun, rfl⟩
  have hruns : ∀ j k, (⟨s.group.finish c.key,
      s.callers.set i { c with phase := .closing, outcome := some o }⟩ : Calls κ α).RunsAt j k ↔
      i ≠ j ∧ s.RunsAt j k :=
    runsAt_complete hc
  have hcok : CallerOk zero i { c with phase := .closing, outcome := some o } :=
    { ready := fun h => by cases h
      leads := fun _ => hlead
      leader := fun _ => .inr (.inl ⟨rfl, rfl, hopen⟩)
      waiting := fun h => by cases h }
  refine hI.update hc rfl (fun _ => rfl) (fun h => absurd hrun h) hcok
    (fun l hl hli => absurd (Option.some.inj (hlead.symm.trans hl)).symm hli) ?_ (fun k => ?_) ?_
  · rw [CallGroup.keys_finish]
    exact hI.keys_nodup.sublist List.filter_sublist
  · rw [CallGroup.keys_finish, List.mem_filter, hI.mem_keys]
    simp only [hruns, bne_iff_ne, ne_eq]
    constructor
    · rintro ⟨⟨j, hj⟩, hk⟩
      refine ⟨j, fun hij => hk ?_, hj⟩
      subst hij
      obtain ⟨d, hd, -, rfl⟩ := hj
      rw [hc] at hd
      cases hd
      rfl
    · rintro ⟨j, hij, hj⟩
      refine ⟨⟨j, hj⟩, fun hk => hij ?_⟩
      subst hk
      exact hI.running_unique i j c.key hself hj
  · intro j₁ j₂ k h₁ h₂
    rw [hruns] at h₁ h₂
    exact hI.running_unique j₁ j₂ k h₁.2 h₂.2

/-- Every step keeps the invariant. -/
theorem Inv.step {s s' : Calls κ α} (hI : Inv zero s) (h : Step zero s s') : Inv zero s' := by
  cases h with
  | arrive hc hready => exact inv_arrive hI hc hready
  | complete o hc hrun => exact inv_complete hI hc hrun o
  | close hc hclosing ho => exact inv_close hI hc hclosing ho
  | wake hc hw hl hlc _ ho => exact inv_wake hI hc hw hl hlc ho
  | expire hc => exact inv_expire hI hc
  | cancel hc hw hdone => exact inv_cancel hI hc hw hdone

/-- Every reachable state has the invariant. -/
theorem Reachable.inv {keys : List κ} {s : Calls κ α} (h : Reachable zero keys s) : Inv zero s := by
  induction h with
  | start => exact inv_start keys
  | step _ hstep ih => exact ih.step hstep

end Steps

/-! ## What every reachable state satisfies -/

section Reachable

variable {s : Calls κ α}

theorem mem_runningKeys {k : κ} : k ∈ s.runningKeys ↔ ∃ j, s.RunsAt j k := by
  simp only [runningKeys, List.mem_map, List.mem_filter, Phase.isRunning_iff, RunsAt]
  constructor
  · rintro ⟨c, ⟨hc, hrun⟩, rfl⟩
    obtain ⟨j, hj⟩ := List.mem_iff_getElem?.1 hc
    exact ⟨j, c, hj, hrun, rfl⟩
  · rintro ⟨j, c, hj, hrun, rfl⟩
    exact ⟨c, ⟨List.mem_of_getElem? hj, hrun⟩, rfl⟩

/-- No two running callers share a key. -/
theorem Inv.runningKeys_nodup (hI : Inv zero s) : s.runningKeys.Nodup := by
  unfold runningKeys List.Nodup
  rw [List.pairwise_map, List.pairwise_filter, List.pairwise_iff_getElem]
  intro a b ha hb hab hra hrb heq
  rw [Phase.isRunning_iff] at hra hrb
  have := hI.running_unique a b s.callers[a].key ⟨_, List.getElem?_eq_getElem ha, hra, rfl⟩
    ⟨_, List.getElem?_eq_getElem hb, hrb, heq.symm⟩
  omega

/-- The group counts one flight per running call. -/
theorem Inv.inFlight_eq (hI : Inv zero s) : s.group.inFlight = s.runningKeys.length := by
  rw [CallGroup.inFlight_eq_length_keys]
  apply List.Perm.length_eq
  rw [List.perm_ext_iff_of_nodup hI.keys_nodup hI.runningKeys_nodup]
  intro k
  rw [hI.mem_keys, mem_runningKeys]

variable [DecidableEq κ]

/-- In every state the callers reach: one call at most runs per key, and the group counts
exactly the running calls; a ready caller, on taking the lock, leads a call of its own when
none runs for its key and else joins the running one; once a call completes none runs for
its key, so the next caller for it leads again; a caller that joined a call and returned
with its context alive has that call's outcome, shared, the outcome its leader holds; and a
leader that returned has its call's outcome, unshared. -/
theorem shared_calls {keys : List κ} (hs : Reachable zero keys s) :
    (∀ i j k, s.RunsAt i k → s.RunsAt j k → i = j) ∧
    s.runningKeys.Nodup ∧ s.group.inFlight = s.runningKeys.length ∧
    (∀ i c, s.callers[i]? = some c → c.phase = .ready →
      ((∀ j, ¬ s.RunsAt j c.key) ∧
        (s.arrive i c).callers = s.callers.set i { c with phase := .running, call := some i }) ∨
      ∃ l, s.RunsAt l c.key ∧
        (s.arrive i c).callers = s.callers.set i { c with phase := .waiting, call := some l }) ∧
    (∀ (i : Nat) (c : Caller κ α) o, s.callers[i]? = some c → c.phase = .running →
      ∀ j, ¬ (s.complete i c o).RunsAt j c.key) ∧
    (∀ (i l : Nat) (c : Caller κ α) a, s.callers[i]? = some c → c.call = some l → l ≠ i →
      c.phase = .returned a →
      c.ctxDone = false → ∃ lc o, s.callers[l]? = some lc ∧ lc.call = some l ∧ lc.key = c.key ∧
        lc.outcome = some o ∧ a = CallGroup.waiterAnswer zero o true) ∧
    (∀ (i : Nat) (c : Caller κ α) a, s.callers[i]? = some c → c.call = some i → c.phase = .returned a →
      ∃ o, c.outcome = some o ∧ a = CallGroup.leaderAnswer zero o) := by
  have hI := hs.inv
  refine ⟨hI.running_unique, hI.runningKeys_nodup, hI.inFlight_eq, ?_,
    fun i c _ hc hrun => complete_frees_key hI hc hrun, ?_, ?_⟩
  · intro i c _ _
    by_cases hin : c.key ∈ s.group.keys
    · obtain ⟨l, hrun, harr⟩ := arrive_of_key_mem (i := i) hI hin
      exact .inr ⟨l, hrun, by rw [harr]⟩
    · refine .inl ⟨fun j hj => hin ((hI.mem_keys _).2 ⟨j, hj⟩), ?_⟩
      rw [arrive_of_key_not_mem hin]
  · intro i l c a hc hl hli ha hlive
    obtain ⟨lc, hlc, hlcall, hlkey, hjok⟩ := hI.joined i c l hc hl hli
    rcases hjok with hw | ⟨a', ha', ⟨o, ho, hshared⟩ | ⟨hdone, -⟩⟩
    · rw [ha] at hw
      cases hw
    · -- its context is alive, so the answer is the call's outcome
      rw [ha] at ha'
      cases ha'
      exact ⟨lc, o, hlc, hlcall, hlkey, ho, hshared⟩
    · rw [hlive] at hdone
      cases hdone
  · intro i c a hc hlead ha
    exact ((hI.caller i c hc).leader hlead).returned ha

end Reachable

/-- Three callers for key `7`: caller 0 leads a call and caller 1 joins it; the call returns
`5`, and caller 2, arriving once the key is free, leads a fresh call before caller 0 closes
the first and caller 1 wakes. One call runs, and caller 1 has the outcome of the first
call, shared. -/
theorem waiter_shares_while_fresh_call_runs :
    ∃ s : Calls Nat Nat, Reachable 0 [7, 7, 7] s ∧ s.runningKeys = [7] ∧ s.group.inFlight = 1 ∧
      ∃ lc o, s.callers[0]? = some lc ∧ lc.outcome = some o ∧
        (s.callers[1]?).map (·.phase) = some (.returned (CallGroup.waiterAnswer 0 o true)) := by
  have hreach : Reachable 0 [7, 7, 7] _ :=
    .step (.step (.step (.step (.step (.step .start
      (.arrive (i := 0) rfl rfl))
      (.arrive (i := 1) rfl rfl))
      (.complete (i := 0) (.ok 5) rfl rfl))
      (.arrive (i := 2) rfl rfl))
      (.close (i := 0) rfl rfl rfl))
      (.wake (i := 1) (l := 0) rfl rfl rfl rfl rfl rfl)
  obtain ⟨-, -, hcount, -, -, hjoined, -⟩ := shared_calls hreach
  obtain ⟨lc, o, hlc, -, -, ho, ha⟩ := hjoined 1 0
    { key := 7, call := some 0, phase := .returned (CallGroup.waiterAnswer 0 (.ok 5) true) }
    (CallGroup.waiterAnswer 0 (.ok 5) true) rfl rfl (by decide) rfl rfl
  refine ⟨_, hreach, rfl, hcount.trans rfl, lc, o, hlc, ho, ?_⟩
  rw [← ha]
  rfl

end Calls

end EdgeQuery.Sync
