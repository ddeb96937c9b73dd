import EdgeQuery.Plan.Sweeper
import Mathlib.Data.List.Nodup
/-! # Sweeping expired checkpoints

A sweep lists the checkpoints of a store oldest first and deletes them one by one while
they were made before the cutoff, stopping at the first that was not. This module shows
that it deletes exactly the expired checkpoints of a store kept in memory, says how many
it deleted, and leaves every other checkpoint retrievable as it was
(`Sweeper.sweep_memory`).

Stopping at the first checkpoint that is not expired is right because the list is sorted
by an order that compares times first: a checkpoint listed before an expired one was made
no later, so it is expired too, and the expired checkpoints form a prefix of the list
(`takeWhile_eq_filter`). The order breaks ties by id, which makes it total and transitive
(`Checkpoint.before_total`, `Checkpoint.before_trans`), as sorting needs. A store in
memory keeps each id once, as a map does, so deleting by the ids of the expired
checkpoints deletes nothing else. -/

namespace EdgeQuery.Plan

/-! ## Time order -/

namespace Instant

theorem compare_eq_lt_iff {a b : Instant} :
    a.compare b = .lt ↔ a.seconds < b.seconds ∨ (a.seconds = b.seconds ∧ a.nanos < b.nanos) := by
  simp [Instant.compare, Ordering.then_eq_lt, Int.compare_eq_lt, Nat.compare_eq_lt]

theorem compare_eq_eq_iff {a b : Instant} :
    a.compare b = .eq ↔ a.seconds = b.seconds ∧ a.nanos = b.nanos := by
  simp [Instant.compare]

theorem compare_eq_gt_iff {a b : Instant} :
    a.compare b = .gt ↔ b.seconds < a.seconds ∨ (a.seconds = b.seconds ∧ b.nanos < a.nanos) := by
  simp [Instant.compare, Ordering.then_eq_gt, Int.compare_eq_gt, Nat.compare_eq_gt]

theorem before_iff {a b : Instant} :
    a.before b = true ↔ a.seconds < b.seconds ∨ (a.seconds = b.seconds ∧ a.nanos < b.nanos) := by
  rw [Instant.before, beq_iff_eq, compare_eq_lt_iff]

/-- A time no later than one before the cutoff is before it too. -/
theorem before_of_not_gt {a b c : Instant} (hab : a.compare b ≠ .gt) (hbc : b.before c = true) :
    a.before c = true := by
  rw [Ne, compare_eq_gt_iff] at hab
  rw [before_iff] at hbc ⊢
  omega

end Instant

/-! ## The order of a store's list -/

namespace Checkpoint

/-- Any two checkpoints are ordered one way or the other. -/
theorem before_total (a b : Checkpoint) : (a.before b || b.before a) = true := by
  simp only [Checkpoint.before, Bool.or_eq_true]
  cases h : a.created.compare b.created with
  | lt => exact .inl rfl
  | gt =>
    have hba : b.created.compare a.created = .lt := by
      rw [Instant.compare_eq_gt_iff] at h
      rw [Instant.compare_eq_lt_iff]
      omega
    simp [hba]
  | eq =>
    -- made at the same time: the ids decide, and their order is total
    have hba : b.created.compare a.created = .eq := by
      rw [Instant.compare_eq_eq_iff] at h ⊢
      omega
    simp only [hba, decide_eq_true_eq]
    exact List.le_total _ _

/-- A checkpoint listed before another was made no later. -/
theorem compare_ne_gt_of_before {a b : Checkpoint} (h : a.before b = true) :
    a.created.compare b.created ≠ .gt := by
  intro hgt
  simp [Checkpoint.before, hgt] at h

theorem before_trans (a b c : Checkpoint) (hab : a.before b = true) (hbc : b.before c = true) :
    a.before c = true := by
  have h₁ := compare_ne_gt_of_before hab
  have h₂ := compare_ne_gt_of_before hbc
  rw [Ne, Instant.compare_eq_gt_iff] at h₁ h₂
  simp only [Checkpoint.before] at hab hbc ⊢
  cases hac : a.created.compare c.created with
  | lt => rfl
  | gt =>
    rw [Instant.compare_eq_gt_iff] at hac
    omega
  | eq =>
    -- all three made at the same time: the ids are ordered in turn
    rw [Instant.compare_eq_eq_iff] at hac
    have hab' : a.created.compare b.created = .eq := by rw [Instant.compare_eq_eq_iff]; omega
    have hbc' : b.created.compare c.created = .eq := by rw [Instant.compare_eq_eq_iff]; omega
    simp only [hab', hbc', decide_eq_true_eq] at hab hbc ⊢
    exact List.le_trans hab hbc

/-- The checkpoints of a store's list: sorted by `before`. -/
theorem pairwise_mergeSort (cps : List Checkpoint) :
    (cps.mergeSort Checkpoint.before).Pairwise fun a b => a.before b = true :=
  List.pairwise_mergeSort before_trans before_total cps

end Checkpoint

/-! ## Expired checkpoints form a prefix -/

/-- On a list where `p` holds of everything before an element it holds of, the longest
prefix where `p` holds is every element where it holds. -/
theorem takeWhile_eq_filter {α : Type} {p : α → Bool} {l : List α}
    (h : l.Pairwise fun x y => p y = true → p x = true) : l.takeWhile p = l.filter p := by
  induction l with
  | nil => rfl
  | cons a l ih =>
    obtain ⟨ha, hl⟩ := List.pairwise_cons.1 h
    cases hpa : p a with
    | true => rw [List.takeWhile_cons_of_pos hpa, List.filter_cons_of_pos hpa, ih hl]
    | false =>
      -- nothing after `a` passes, since `a` would pass too
      have hnone : l.filter p = [] := List.filter_eq_nil_iff.2 fun b hb hpb => by
        simpa [hpa] using ha b hb hpb
      rw [List.takeWhile_cons_of_neg (by simp [hpa]), List.filter_cons_of_neg (by simp [hpa]), hnone]

/-- The checkpoints that a sweep deletes, in list order: those made before the cutoff. -/
theorem takeWhile_expired (cps : List Checkpoint) (cutoff : Instant) :
    (cps.mergeSort Checkpoint.before).takeWhile (fun cp => cp.created.before cutoff) =
      (cps.mergeSort Checkpoint.before).filter fun cp => cp.created.before cutoff := by
  apply takeWhile_eq_filter
  refine (Checkpoint.pairwise_mergeSort cps).imp fun hab hb => ?_
  exact Instant.before_of_not_gt (Checkpoint.compare_ne_gt_of_before hab) hb

/-! ## Deleting by id -/

namespace CheckpointStore

/-- Deleting a list of checkpoints by id keeps the checkpoints whose id none of them has. -/
theorem foldl_delete_memory (ds cps : List Checkpoint) :
    ds.foldl (fun acc cp => acc.delete cp.id) (memory cps) =
      memory (cps.filter fun c => ds.all fun d => d.id != c.id) := by
  induction ds generalizing cps with
  | nil => simp
  | cons d ds ih =>
    rw [List.foldl_cons, delete, ih, List.filter_filter]
    congr 1
    apply List.filter_congr
    intro c _
    simp only [List.all_cons, Bool.and_comm, bne_comm]

/-- In a store of distinct ids, a checkpoint is found by its id. -/
theorem get_memory_of_mem {cps : List Checkpoint} (hid : (cps.map (·.id)).Nodup) {cp : Checkpoint}
    (hcp : cp ∈ cps) : (memory cps).get cp.id = .ok cp := by
  cases hf : cps.find? (·.id == cp.id) with
  | none =>
    have := List.find?_eq_none.1 hf cp hcp
    simp at this
  | some x =>
    have hx : x ∈ cps := List.mem_of_find?_eq_some hf
    have hxid : x.id = cp.id := by simpa using List.find?_some hf
    have : x = cp := List.inj_on_of_nodup_map hid hx hcp hxid
    simp [get, hf, this]

/-- No checkpoint of a store has an id that none of its checkpoints has. -/
theorem get_memory_of_forall_ne {cps : List Checkpoint} {id : Uuid} (h : ∀ c ∈ cps, c.id ≠ id) :
    (memory cps).get id = .error (checkpointNotFound id) := by
  have hf : cps.find? (·.id == id) = none := List.find?_eq_none.2 fun c hc => by simpa using h c hc
  simp [get, hf]

end CheckpointStore

/-! ## The sweep -/

/-- Sweeping a store in memory, with each id once, before a cutoff deletes exactly the
checkpoints made before the cutoff and counts them; every other checkpoint is still there,
and an expired one is not found any more. -/
theorem CheckpointStore.sweepBefore_memory (cps : List Checkpoint) (hid : (cps.map (·.id)).Nodup)
    (cutoff : Instant) :
    (memory cps).sweepBefore cutoff =
        .ok ((cps.filter fun cp => cp.created.before cutoff).length,
          memory (cps.filter fun cp => !cp.created.before cutoff)) ∧
      ∀ cp ∈ cps, (memory (cps.filter fun cp => !cp.created.before cutoff)).get cp.id =
        if cp.created.before cutoff then .error (checkpointNotFound cp.id) else .ok cp := by
  let expired := fun cp : Checkpoint => cp.created.before cutoff
  have hperm := List.mergeSort_perm cps Checkpoint.before
  have hold := takeWhile_expired cps cutoff
  -- a checkpoint is deleted exactly when an expired one has its id, that is when it expires
  have hkeep : ∀ c ∈ cps, ((cps.mergeSort Checkpoint.before).filter expired).all (·.id != c.id) =
      !expired c := by
    intro c hc
    cases hc' : expired c with
    | true =>
      have hmem : c ∈ (cps.mergeSort Checkpoint.before).filter expired :=
        List.mem_filter.2 ⟨hperm.mem_iff.2 hc, hc'⟩
      rw [Bool.not_true]
      exact List.all_eq_false.2 ⟨c, hmem, by simp⟩
    | false =>
      simp only [List.all_eq_true, List.mem_filter, bne_iff_ne, Bool.not_false]
      rintro d ⟨hd, hd'⟩ hid'
      have : d = c := List.inj_on_of_nodup_map hid (hperm.mem_iff.1 hd) hc hid'
      rw [this, hc'] at hd'
      exact Bool.false_ne_true hd'
  have hkept : cps.filter (fun c => ((cps.mergeSort Checkpoint.before).filter expired).all (·.id != c.id)) =
      cps.filter fun c => !expired c := List.filter_congr hkeep
  refine ⟨?_, fun cp hcp => ?_⟩
  · simp only [sweepBefore, list, bind, Except.bind, pure, Except.pure]
    rw [hold, foldl_delete_memory, hkept, (hperm.filter expired).length_eq]
  · cases hc : cp.created.before cutoff with
    | true =>
      -- the checkpoints left all differ from it, hence by id
      refine (get_memory_of_forall_ne fun c hc' hcid => ?_).trans (by rw [if_pos rfl])
      obtain ⟨hcmem, hcnot⟩ := List.mem_filter.1 hc'
      have : c = cp := List.inj_on_of_nodup_map hid hcmem hcp hcid
      rw [this, hc] at hcnot
      exact Bool.false_ne_true hcnot
    | false =>
      rw [if_neg Bool.false_ne_true]
      exact get_memory_of_mem (List.Nodup.sublist (List.filter_sublist.map _) hid)
        (List.mem_filter.2 ⟨hcp, by simp [hc]⟩)

/-- A sweep of a checkpoint store kept in memory, with each id once as in a map, deletes
exactly the checkpoints made before `now` less `ttl` seconds and returns their number; the
sweeper keeps running or not as before, every other checkpoint is still retrieved by its id
and an expired one is not found. -/
theorem Sweeper.sweep_memory (s : Sweeper) {cps : List Checkpoint} (hs : s.store = .memory cps)
    (hid : (cps.map (·.id)).Nodup) (now : Instant) (ttl : Int) :
    s.sweep now ttl =
        .ok ((cps.filter fun cp => cp.created.before (now.addSeconds (-ttl))).length,
          { s with store := .memory (cps.filter fun cp => !cp.created.before (now.addSeconds (-ttl))) }) ∧
      ∀ cp ∈ cps,
        (CheckpointStore.memory (cps.filter fun cp => !cp.created.before (now.addSeconds (-ttl)))).get cp.id =
          if cp.created.before (now.addSeconds (-ttl)) then .error (checkpointNotFound cp.id) else .ok cp := by
  obtain ⟨hsweep, hget⟩ := CheckpointStore.sweepBefore_memory cps hid (now.addSeconds (-ttl))
  refine ⟨?_, hget⟩
  rw [Sweeper.sweep, hs, CheckpointStore.sweep, hsweep]
  rfl

/-- Three checkpoints made at 100 s, at 200 s and in 2100, swept an hour after 1 000 000 s:
the first two go and the third stays. -/
theorem Sweeper.sweep_memory_two_expired :
    let old : Checkpoint := ⟨⟨[1]⟩, ⟨[9]⟩, ⟨100, 0⟩, []⟩
    let older : Checkpoint := ⟨⟨[2]⟩, ⟨[9]⟩, ⟨200, 0⟩, []⟩
    let later : Checkpoint := ⟨⟨[3]⟩, ⟨[9]⟩, ⟨4102444800, 0⟩, []⟩
    let s : Sweeper := { store := .memory [old, later, older] }
    ([old, later, older].map (·.id)).Nodup ∧
      s.sweep ⟨1000000, 0⟩ 3600 =
          .ok (([old, later, older].filter fun cp => cp.created.before (Instant.addSeconds ⟨1000000, 0⟩ (-3600))).length,
            { s with store := .memory ([old, later, older].filter fun cp =>
              !cp.created.before (Instant.addSeconds ⟨1000000, 0⟩ (-3600))) }) ∧
        ∀ cp ∈ [old, later, older],
          (CheckpointStore.memory ([old, later, older].filter fun cp =>
              !cp.created.before (Instant.addSeconds ⟨1000000, 0⟩ (-3600)))).get cp.id =
            if cp.created.before (Instant.addSeconds ⟨1000000, 0⟩ (-3600)) then
              .error (checkpointNotFound cp.id) else .ok cp :=
  ⟨by decide, Sweeper.sweep_memory _ rfl (by decide) _ _⟩

end EdgeQuery.Plan
