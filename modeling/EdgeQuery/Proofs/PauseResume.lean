import EdgeQuery.Plan.Engine
import EdgeQuery.Proofs.ScanUnion
import EdgeQuery.Proofs.CheckpointToken
import Mathlib.Data.List.Basic
/-! # Pausing and resuming executions

An execution can be read a few entries at a time, and what is left of it can be taken as
checkpoints and resumed elsewhere. This module shows that nothing is lost or repeated: the
entries read before a pause, followed by what the paused execution gives when it is read
again, or by what its checkpoints give when each is resumed in turn, are the entries of
one uninterrupted reading. This holds for every plan whose stages test each entry on its
own (`Registry.Selective`), over any table kept in key order, for any number of pauses.

The proof names what an execution still owes: for every unit that is not finished, the
entries its remaining ranges select and its stages keep (`Execution.pending`). A unit
yields its entries in key order (a scan reads the union of its ranges), and a unit that
records a last key owes exactly its entries above that key, so taking entries from a unit
moves them from what is owed to what was read. Reading keeps the equation "read ++ owed =
owed before" (`readFrom_pending`); a reading without a bound leaves nothing owed; and the
checkpoints of an execution owe together what it owes (`checkpoints_resume`). Checkpoints
that travel as tokens are decoded back as they were (`Checkpoint.decode_encode`), so resuming
the decoded checkpoints gives the same entries. -/

namespace EdgeQuery

namespace Store

/-- A filter that keeps the entries a fixed test accepts and lets the end of the stream
through: a stage that judges each entry on its own, whatever came before it. -/
def Filter.Selects (f : Filter) (keep : Entry → Bool) : Prop :=
  ∀ s : Stream, (f s).entries = s.entries.filter keep ∧ (f s).failure = s.failure

/-- Stages that build into a filter judging each entry on its own. -/
def Registry.Selective (reg : Registry) (stages : List Stage) : Prop :=
  ∃ f keep, reg.build stages = .ok f ∧ f.Selects keep

/-- No stages keep every entry. -/
theorem Registry.selective_nil (reg : Registry) : reg.Selective [] :=
  ⟨Filter.chain [], fun _ => true, by simp [Registry.build, Stage.runOrder]; rfl, fun s => by simp [Filter.chain]⟩

/-- A scan through stages that judge each entry on its own keeps, in key order, the
selected entries that pass their test, and does not fail. -/
theorem Table.scan_of_selects {t : Table} (ht : t.Ordered) {reg : Registry} {req : Request}
    {f : Filter} {keep : Entry → Bool} (hb : reg.build req.stages = .ok f) (hf : f.Selects keep) :
    (t.scan reg req).entries = t.entries.filter (fun e => req.selects e && keep e) ∧
      (t.scan reg req).failure = none := by
  obtain ⟨hentries, hfailure⟩ := hf { entries := t.readRequest req }
  simp only [Table.scan, hb]
  refine ⟨?_, hfailure⟩
  rw [hentries, Table.readRequest_eq_filter ht, List.filter_filter]
  exact List.filter_congr fun e _ => Bool.and_comm _ _

end Store

namespace Plan

open Store

/-! ## What a unit yields -/

/-- The remaining ranges of a unit hold the keys of its ranges after its last key. -/
theorem ScanUnit.remaining_covers (u : ScanUnit) (k : Key) :
    (u.remaining.ranges.any fun r => r.contains k) =
      ((u.ranges.any fun r => r.contains k) && keyAfter u.lastKey k) := by
  unfold ScanUnit.remaining
  cases hl : u.lastKey with
  | none => simp [keyAfter]
  | some l =>
    apply Bool.eq_iff_iff.mpr
    simp only [List.any_eq_true, List.mem_filterMap, Range.mem_sort, Bool.and_eq_true, keyAfter,
      decide_eq_true_eq]
    constructor
    · rintro ⟨r', ⟨r, hr, hafter⟩, hk⟩
      rw [Range.contains_of_after_eq_some hafter] at hk
      simp only [Bool.and_eq_true, decide_eq_true_eq] at hk
      exact ⟨⟨r, hr, hk.1⟩, hk.2⟩
    · rintro ⟨⟨r, hr, hk⟩, hlk⟩
      cases hafter : r.after l with
      | none => exact absurd (Range.le_of_after_eq_none hafter hk) (not_le_of_gt hlk)
      | some r' =>
        refine ⟨r', ⟨r, hr, hafter⟩, ?_⟩
        simp [Range.contains_of_after_eq_some hafter, hk, hlk]

@[simp] theorem ScanUnit.remaining_stages (u : ScanUnit) : u.remaining.stages = u.stages := by
  unfold ScanUnit.remaining
  split <;> rfl

@[simp] theorem ScanUnit.remaining_families (u : ScanUnit) : u.remaining.families = u.families := by
  unfold ScanUnit.remaining
  split <;> rfl

@[simp] theorem ScanUnit.remaining_lastKey (u : ScanUnit) : u.remaining.lastKey = u.lastKey := by
  unfold ScanUnit.remaining
  split <;> rfl

variable (t : Table) (reg : Registry)

/-- What reading a unit gives: nothing when no range is left of it, else the entries of
the scan of what is left. -/
def unitYield (u : ScanUnit) : List Entry :=
  if (Execution.request u).ranges.isEmpty then [] else (t.scan reg (Execution.request u)).entries

/-- Whether a unit, with stages that keep the entries `keep` accepts, still owes an entry:
in one of its ranges, after its last key, of an allowed family, and kept. -/
def ScanUnit.owes (keep : Entry → Bool) (u : ScanUnit) (e : Entry) : Bool :=
  (u.ranges.any fun r => r.contains e.key) && keyAfter u.lastKey e.key &&
    Table.familyAllowed u.families e && keep e

variable {t reg}

/-- A unit yields the entries of the table it owes, in table order. -/
theorem unitYield_eq_filter (ht : t.Ordered) {u : ScanUnit} {f : Filter} {keep : Entry → Bool}
    (hb : reg.build u.stages = .ok f) (hf : f.Selects keep) :
    unitYield t reg u = t.entries.filter (u.owes keep) := by
  have hcov := ScanUnit.remaining_covers u
  unfold unitYield
  split
  · rename_i hnil
    -- no range is left, so the unit owes nothing
    refine (List.filter_eq_nil_iff.mpr fun e _ => ?_).symm
    have hnone : (u.remaining.ranges.any fun r => r.contains e.key) = false := by
      simp [List.isEmpty_iff.mp (by simpa [Execution.request] using hnil)]
    rw [hcov] at hnone
    simp [ScanUnit.owes, hnone]
  · rename_i hnil
    have hb' : reg.build (Execution.request u).stages = .ok f := by simpa [Execution.request] using hb
    rw [(Table.scan_of_selects ht hb' hf).1]
    refine List.filter_congr fun e _ => ?_
    have hne : u.remaining.ranges.isEmpty = false := by simpa [Execution.request] using hnil
    have hsel : (Execution.request u).selects e =
        ((u.remaining.ranges.any fun r => r.contains e.key) && Table.familyAllowed u.families e) := by
      simp [Request.selects, Execution.request, Table.familyAllowed, hne]
    rw [hsel, hcov]
    simp [ScanUnit.owes, Bool.and_assoc]

/-- In a list in key order, the entries above the last of a prefix are the rest of it. -/
theorem filter_after_last {es rest : List Entry} (hs : (es ++ rest).Pairwise fun a b => a.key < b.key)
    {m : Entry} (hm : es.getLast? = some m) :
    (es ++ rest).filter (fun e => decide (m.key < e.key)) = rest := by
  obtain ⟨hes, -, hcross⟩ := List.pairwise_append.mp hs
  have hbelow : es.filter (fun e => decide (m.key < e.key)) = [] :=
    List.filter_eq_nil_iff.mpr fun e he => by simpa using le_of_getLast?_eq_some hes hm e he
  have habove : rest.filter (fun e => decide (m.key < e.key)) = rest :=
    List.filter_eq_self.mpr fun e he => by simpa using hcross m (List.mem_of_getLast? hm) e he
  rw [List.filter_append, hbelow, habove, List.nil_append]

/-- A unit after it produced some entries: the last of them is its last key. -/
def ScanUnit.past (u : ScanUnit) (es : List Entry) : ScanUnit :=
  match es.getLast? with
  | none => u
  | some m => { u with lastKey := some m.key }

/-- Once a unit produced an entry it owes, it owes what it owed above that entry. -/
theorem ScanUnit.owes_after {keep : Entry → Bool} {u : ScanUnit} {m : Entry} (hm : u.owes keep m = true)
    (e : Entry) :
    ({ u with lastKey := some m.key } : ScanUnit).owes keep e = (decide (m.key < e.key) && u.owes keep e) := by
  have hafter : keyAfter u.lastKey m.key = true := by
    simp only [owes, Bool.and_eq_true] at hm
    exact hm.1.1.2
  unfold owes
  by_cases hme : m.key < e.key
  · have hnew : keyAfter (some m.key) e.key = true := by simpa [keyAfter] using hme
    rw [hnew, keyAfter_of_lt hafter hme]
    simp [hme]
  · have hnew : keyAfter (some m.key) e.key = false := by simpa [keyAfter] using hme
    rw [hnew]
    simp [hme]

/-- The entries a unit produced, followed by what it yields after them, are what it yielded
before. -/
theorem unitYield_past (ht : t.Ordered) {u : ScanUnit} {f : Filter} {keep : Entry → Bool}
    (hb : reg.build u.stages = .ok f) (hf : f.Selects keep) {es : List Entry}
    (hpre : es <+: unitYield t reg u) : es ++ unitYield t reg (u.past es) = unitYield t reg u := by
  obtain ⟨rest, hsplit⟩ := hpre
  unfold ScanUnit.past
  split
  · rename_i hm
    rw [List.getLast?_eq_none_iff.mp hm, List.nil_append]
  · rename_i m hm
    have hyield := unitYield_eq_filter ht hb hf
    have hsorted : (es ++ rest).Pairwise fun a b => a.key < b.key := by
      rw [hsplit, hyield]
      exact List.Pairwise.filter _ ht
    have hmo : u.owes keep m = true := by
      have hmem : m ∈ unitYield t reg u := hsplit ▸ List.mem_append_left rest (List.mem_of_getLast? hm)
      rw [hyield] at hmem
      exact (List.mem_filter.mp hmem).2
    calc es ++ unitYield t reg { u with lastKey := some m.key }
        = es ++ (es ++ rest).filter (fun e => decide (m.key < e.key)) := by
          rw [unitYield_eq_filter (u := { u with lastKey := some m.key }) ht hb hf, hsplit, hyield,
            List.filter_filter]
          exact congrArg (es ++ ·) (List.filter_congr fun e _ => ScanUnit.owes_after hmo e)
      _ = unitYield t reg u := by rw [filter_after_last hsorted hm, hsplit]

/-- The scan of what is left of a unit with a range left gives what the unit yields, and
does not fail. -/
theorem scan_request (ht : t.Ordered) {u : ScanUnit} {f : Filter} {keep : Entry → Bool}
    (hb : reg.build u.stages = .ok f) (hf : f.Selects keep)
    (hne : (Execution.request u).ranges.isEmpty = false) :
    (t.scan reg (Execution.request u)).entries = unitYield t reg u ∧
      (t.scan reg (Execution.request u)).failure = none := by
  have hb' : reg.build (Execution.request u).stages = .ok f := by simpa [Execution.request] using hb
  refine ⟨by simp [unitYield, hne], (Table.scan_of_selects ht hb' hf).2⟩

/-- A unit with no range left yields nothing. -/
theorem unitYield_of_remaining_empty {u : ScanUnit} (h : u.remaining.ranges.isEmpty = true) :
    unitYield t reg u = [] := by
  simp [unitYield, Execution.request, h]

/-- What is left of a unit yields what the unit yields. -/
theorem unitYield_remaining (ht : t.Ordered) {u : ScanUnit} {f : Filter} {keep : Entry → Bool}
    (hb : reg.build u.stages = .ok f) (hf : f.Selects keep) :
    unitYield t reg u.remaining = unitYield t reg u := by
  rw [unitYield_eq_filter (u := u.remaining) ht (by simpa using hb) hf, unitYield_eq_filter ht hb hf]
  refine List.filter_congr fun e _ => ?_
  unfold ScanUnit.owes
  rw [ScanUnit.remaining_covers, ScanUnit.remaining_lastKey, ScanUnit.remaining_families]
  cases keyAfter u.lastKey e.key <;> simp

/-! ## Taking entries from a unit -/

namespace Execution

/-- Records the last of some entries as the last key of unit `i`, when there is one. -/
def recordLast (x : Execution) (i : Nat) (es : List Entry) : Execution :=
  match es.getLast? with
  | none => x
  | some m => x.record i m.key

/-- Recording a key after another keeps only the later one. -/
@[simp] theorem record_record (x : Execution) (i : Nat) (a b : Key) :
    (x.record i a).record i b = x.record i b := by
  simp only [record, List.modify_modify_eq]
  rfl

theorem recordLast_cons (x : Execution) (i : Nat) (e : Entry) (rest : List Entry) :
    x.recordLast i (e :: rest) = (x.record i e.key).recordLast i rest := by
  unfold recordLast
  cases h : rest.getLast? with
  | none =>
    rw [List.getLast?_eq_none_iff.mp h]
    rfl
  | some m => simp [List.getLast?_cons, h]

/-- Taking without a bound takes every entry and records the last. -/
theorem take_none (i : Nat) (x : Execution) (es : List Entry) :
    take i x none es = (x.recordLast i es, es, false) := by
  induction es generalizing x with
  | nil => rfl
  | cons e rest ih => simp [take, ih, recordLast_cons]

/-- Taking with room for `n` entries takes the first `n`, records the last of them, and
says whether the room ran out. -/
theorem take_some (i : Nat) (x : Execution) {n : Nat} (hn : 0 < n) (es : List Entry) :
    take i x (some n) es = (x.recordLast i (es.take n), es.take n, decide (n ≤ es.length)) := by
  induction es generalizing x n with
  | nil =>
    simp only [take, List.take_nil, List.length_nil]
    simp [recordLast, Nat.not_le.mpr hn]
  | cons e rest ih =>
    match n, hn with
    | 1, _ => simp [take, recordLast]
    | m + 2, _ =>
      simp [take, ih (x.record i e.key) (Nat.succ_pos m), recordLast_cons]

/-- The execution after taking is the one before with the last taken key recorded. -/
theorem take_fst (i : Nat) (x : Execution) (room : Option Nat) (es : List Entry) :
    (take i x room es).1 = x.recordLast i (take i x room es).2.1 := by
  induction es generalizing x room with
  | nil => rfl
  | cons e rest ih =>
    simp only [take]
    split
    · rfl
    · simp only
      rw [ih, recordLast_cons]

theorem eq_recordLast_of_take {i : Nat} {x x' : Execution} {room : Option Nat} {es es' : List Entry}
    {full : Bool} (h : take i x room es = (x', es', full)) : x' = x.recordLast i es' := by
  simpa [h] using take_fst i x room es

/-- Taking gives a prefix of the entries. -/
theorem take_prefix (i : Nat) (x : Execution) (room : Option Nat) (es : List Entry) :
    (take i x room es).2.1 <+: es := by
  induction es generalizing x room with
  | nil => exact List.prefix_refl []
  | cons e rest ih =>
    simp only [take]
    split
    · exact List.cons_prefix_cons.mpr ⟨rfl, List.nil_prefix⟩
    · exact List.cons_prefix_cons.mpr ⟨rfl, ih _ _⟩

/-- Taking that does not run out of room takes every entry. -/
theorem take_all_of_not_full {i : Nat} {x x' : Execution} {room : Option Nat} {es es' : List Entry}
    (h : take i x room es = (x', es', false)) : es' = es := by
  induction es generalizing x x' room es' with
  | nil =>
    simp only [take, Prod.mk.injEq] at h
    exact h.2.1.symm
  | cons e rest ih =>
    simp only [take] at h
    split at h
    · simp at h
    · rcases hres : take i (x.record i e.key) (room.map (· - 1)) rest with ⟨x'', es'', full''⟩
      simp only [hres, Prod.mk.injEq] at h
      obtain ⟨-, rfl, rfl⟩ := h
      rw [ih hres]

/-! ## Executions that stay well formed -/

variable (reg)

/-- What every reading keeps true of an execution: the stages of every unit judge each
entry on their own, every unit has a finish mark, and before anything was produced only
units with no range left are marked finished. -/
structure WellFormed (x : Execution) : Prop where
  selective : ∀ j, reg.Selective (x.units.getD j {}).stages
  doneLength : x.done.length = x.units.length
  idle : x.started = false → ∀ j, x.isDone j = true → (request (x.units.getD j {})).ranges = []

/-- `y` has the units of `x`, and the same units and finish marks below `i`. -/
def SameBelow (i : Nat) (x y : Execution) : Prop :=
  y.units.length = x.units.length ∧ ∀ j < i, y.units.getD j {} = x.units.getD j {} ∧ y.isDone j = x.isDone j

theorem SameBelow.refl (i : Nat) (x : Execution) : SameBelow i x x := ⟨rfl, fun _ _ => ⟨rfl, rfl⟩⟩

theorem SameBelow.trans {i : Nat} {x y z : Execution} (hxy : SameBelow i x y) (hyz : SameBelow i y z) :
    SameBelow i x z :=
  ⟨hyz.1.trans hxy.1, fun j hj => ⟨(hyz.2 j hj).1.trans (hxy.2 j hj).1, (hyz.2 j hj).2.trans (hxy.2 j hj).2⟩⟩

theorem SameBelow.of_succ {i : Nat} {x y : Execution} (h : SameBelow (i + 1) x y) : SameBelow i x y :=
  ⟨h.1, fun j hj => h.2 j (Nat.lt_succ_of_lt hj)⟩

/-- The unit at `j` after a key is recorded at `i`, a position of the execution. -/
theorem getD_units_record {x : Execution} {i : Nat} (k : Key) (hi : i < x.units.length) (j : Nat) :
    (x.record i k).units.getD j {} =
      if j = i then { x.units.getD i {} with lastKey := some k } else x.units.getD j {} := by
  simp only [record, List.getD_eq_getElem?_getD, List.getElem?_modify]
  split
  · rename_i hji
    subst hji
    simp [List.getElem?_eq_getElem hi]
  · rename_i hij
    simp [Ne.symm hij]

@[simp] theorem isDone_record (x : Execution) (i j : Nat) (k : Key) :
    (x.record i k).isDone j = x.isDone j := rfl

theorem isDone_finish {x : Execution} {i : Nat} (hi : i < x.done.length) (j : Nat) :
    (x.finish i).isDone j = if j = i then true else x.isDone j := by
  unfold finish isDone
  by_cases hji : j = i
  · subst hji
    simp [hi]
  · simp [hji, List.getD_eq_getElem?_getD, Ne.symm hji]

theorem sameBelow_record {x : Execution} {i : Nat} (k : Key) (hi : i < x.units.length) :
    SameBelow i x (x.record i k) :=
  ⟨by simp [record], fun j hj => ⟨by rw [getD_units_record k hi, if_neg (Nat.ne_of_lt hj)], rfl⟩⟩

theorem sameBelow_recordLast {x : Execution} {i : Nat} (es : List Entry) (hi : i < x.units.length) :
    SameBelow i x (x.recordLast i es) := by
  unfold recordLast
  split
  · exact SameBelow.refl i x
  · exact sameBelow_record _ hi

theorem sameBelow_finish {x : Execution} {i : Nat} (hi : i < x.done.length) :
    SameBelow i x (x.finish i) :=
  ⟨rfl, fun j hj => ⟨rfl, by rw [isDone_finish hi, if_neg (Nat.ne_of_lt hj)]⟩⟩

@[simp] theorem isDone_recordLast (x : Execution) (i j : Nat) (es : List Entry) :
    (x.recordLast i es).isDone j = x.isDone j := by
  unfold recordLast
  split <;> rfl

/-- The unit at `j` after the last of some entries is recorded at `i`. -/
theorem getD_units_recordLast {x : Execution} {i : Nat} (es : List Entry) (hi : i < x.units.length)
    (j : Nat) :
    (x.recordLast i es).units.getD j {} =
      if j = i then (x.units.getD i {}).past es else x.units.getD j {} := by
  unfold recordLast ScanUnit.past
  cases es.getLast? with
  | none =>
    by_cases hji : j = i
    · simp [hji]
    · simp [hji]
  | some m => exact getD_units_record m.key hi j

variable {reg}

theorem WellFormed.record {x : Execution} (h : x.WellFormed reg) {i : Nat} (k : Key)
    (hi : i < x.units.length) : (x.record i k).WellFormed reg where
  selective j := by
    rw [getD_units_record k hi]
    split
    · exact h.selective i
    · exact h.selective j
  doneLength := by simpa [Execution.record] using h.doneLength
  idle hs := by simp [Execution.record] at hs

theorem WellFormed.recordLast {x : Execution} (h : x.WellFormed reg) {i : Nat} (es : List Entry)
    (hi : i < x.units.length) : (x.recordLast i es).WellFormed reg := by
  unfold Execution.recordLast
  split
  · exact h
  · exact h.record _ hi

/-- Finishing a unit after producing from it keeps an execution well formed. -/
theorem WellFormed.finishStarted {x : Execution} (h : x.WellFormed reg) (i : Nat) :
    ({ x.finish i with started := true } : Execution).WellFormed reg where
  selective := h.selective
  doneLength := by simpa [Execution.finish] using h.doneLength
  idle hs := by simp at hs

/-- Finishing a unit with no range left keeps an execution well formed. -/
theorem WellFormed.finishEmpty {x : Execution} (h : x.WellFormed reg) {i : Nat}
    (hi : i < x.units.length) (hempty : (request (x.units.getD i {})).ranges = []) :
    (x.finish i).WellFormed reg where
  selective := h.selective
  doneLength := by simpa [Execution.finish] using h.doneLength
  idle hs j hj := by
    rw [isDone_finish (h.doneLength ▸ hi)] at hj
    split at hj
    · rename_i hji
      subst hji
      exact hempty
    · exact h.idle hs j hj

theorem WellFormed.take {x x' : Execution} (h : x.WellFormed reg) {i : Nat} (hi : i < x.units.length)
    {room : Option Nat} {es es' : List Entry} {full : Bool} (htake : take i x room es = (x', es', full)) :
    x'.WellFormed reg ∧ SameBelow i x x' := by
  rw [eq_recordLast_of_take htake]
  exact ⟨h.recordLast es' hi, sameBelow_recordLast es' hi⟩

/-- Reading keeps an execution well formed and leaves the units before the first one read
as they were. -/
theorem readFrom_wellFormed (t : Table) (room : Option Nat) (fuel i : Nat) (x : Execution)
    (h : x.WellFormed reg) :
    (readFrom t reg room fuel i x).2.WellFormed reg ∧ SameBelow i x (readFrom t reg room fuel i x).2 := by
  fun_induction readFrom t reg room fuel i x
  case case1 | case2 => exact ⟨h, SameBelow.refl _ _⟩
  case case3 => exact ⟨⟨h.selective, h.doneLength, h.idle⟩, SameBelow.refl _ _⟩
  case case4 ih => exact ⟨(ih h).1, (ih h).2.of_succ⟩
  case case5 room fuel i x hlen hdone req hempty ih =>
    have hi : i < x.units.length := Nat.lt_of_not_le hlen
    have hfin := h.finishEmpty hi (List.isEmpty_iff.mp hempty)
    exact ⟨(ih hfin).1, (sameBelow_finish (h.doneLength ▸ hi)).trans (ih hfin).2.of_succ⟩
  case case6 room fuel i x hlen hdone req hne s x' es htake =>
    exact h.take (Nat.lt_of_not_le hlen) htake
  case case7 room fuel i x hlen hdone req hne s x' es full htake hfull remarks r hfail =>
    exact h.take (Nat.lt_of_not_le hlen) htake
  case case8 room fuel i x hlen hdone req hne s x' es full htake hfull remarks hfail x2 more y hrest ih =>
    have hi : i < x.units.length := Nat.lt_of_not_le hlen
    obtain ⟨hx', hsame⟩ := h.take hi htake
    have hi' : i < x'.done.length := by rw [hx'.doneLength, hsame.1]; exact hi
    have hfin : SameBelow i x' x2 := sameBelow_finish hi'
    have hrec := ih (hx'.finishStarted i)
    rw [hrest] at hrec
    exact ⟨hrec.1, hsame.trans (hfin.trans hrec.2.of_succ)⟩

/-! ## What an execution owes -/

variable (t reg)

/-- What unit `j` of an execution still owes: nothing once it is finished, else what it
yields. -/
def pendingAt (x : Execution) (j : Nat) : List Entry :=
  if x.isDone j then [] else unitYield t reg (x.units.getD j {})

/-- What the units of an execution from `i` on still owe, in order. -/
def owedFrom (x : Execution) (i : Nat) : List Entry :=
  (List.range' i (x.units.length - i)).flatMap (pendingAt t reg x)

/-- What an execution still owes. -/
def pending (x : Execution) : List Entry := owedFrom t reg x 0

variable {t reg}

theorem owedFrom_of_le {x : Execution} {i : Nat} (h : x.units.length ≤ i) : owedFrom t reg x i = [] := by
  simp [owedFrom, Nat.sub_eq_zero_of_le h]

theorem owedFrom_of_lt {x : Execution} {i : Nat} (h : i < x.units.length) :
    owedFrom t reg x i = pendingAt t reg x i ++ owedFrom t reg x (i + 1) := by
  unfold owedFrom
  rw [show x.units.length - i = (x.units.length - (i + 1)) + 1 by omega, List.range'_succ,
    List.flatMap_cons]

/-- What units from `i` on owe depends only on what each of them owes. -/
theorem owedFrom_congr {x y : Execution} {i : Nat} (hlen : y.units.length = x.units.length)
    (h : ∀ j, i ≤ j → pendingAt t reg y j = pendingAt t reg x j) :
    owedFrom t reg y i = owedFrom t reg x i := by
  unfold owedFrom
  rw [hlen]
  exact List.flatMap_congr fun j hj => h j (List.mem_range'_1.mp hj).1

theorem pendingAt_of_sameBelow {x y : Execution} {i : Nat} (h : SameBelow (i + 1) x y) :
    pendingAt t reg y i = pendingAt t reg x i := by
  obtain ⟨hunit, hdone⟩ := h.2 i (Nat.lt_succ_self i)
  simp only [pendingAt, hunit, hdone]

/-- The units from `i` on after a reading that left the units below `i + 1` alone. -/
theorem owedFrom_of_sameBelow {x y : Execution} {i : Nat} (hi : i < x.units.length)
    (h : SameBelow (i + 1) x y) :
    owedFrom t reg y i = pendingAt t reg x i ++ owedFrom t reg y (i + 1) := by
  rw [owedFrom_of_lt (h.1 ▸ hi), pendingAt_of_sameBelow h]

theorem pendingAt_finish {x : Execution} {i : Nat} (hi : i < x.done.length) (j : Nat) :
    pendingAt t reg (x.finish i) j = if j = i then [] else pendingAt t reg x j := by
  unfold pendingAt
  rw [isDone_finish hi]
  split <;> rfl

theorem pendingAt_recordLast {x : Execution} {i : Nat} (es : List Entry) (hi : i < x.units.length)
    (j : Nat) :
    pendingAt t reg (x.recordLast i es) j =
      if j = i ∧ x.isDone i = false then unitYield t reg ((x.units.getD i {}).past es)
      else pendingAt t reg x j := by
  unfold pendingAt
  rw [isDone_recordLast, getD_units_recordLast es hi]
  by_cases hji : j = i
  · subst hji
    cases x.isDone j <;> simp
  · simp [hji]

/-- Finishing unit `i` leaves what later units owe alone. -/
theorem owedFrom_finish {x : Execution} {i : Nat} (hi : i < x.done.length) :
    owedFrom t reg (x.finish i) (i + 1) = owedFrom t reg x (i + 1) :=
  owedFrom_congr rfl fun j hj => by rw [pendingAt_finish hi, if_neg (by omega)]

/-- Recording a key of unit `i` leaves what later units owe alone. -/
theorem owedFrom_recordLast {x : Execution} {i : Nat} (es : List Entry) (hi : i < x.units.length) :
    owedFrom t reg (x.recordLast i es) (i + 1) = owedFrom t reg x (i + 1) :=
  owedFrom_congr (by rw [(sameBelow_recordLast es hi).1]) fun j hj => by
    rw [pendingAt_recordLast es hi, if_neg (by omega)]

/-- What the units from `i` on owe, read off the units paired with their finish marks. -/
theorem owedFrom_eq_flatMap_drop {x : Execution} (hd : x.done.length = x.units.length) (i : Nat) :
    owedFrom t reg x i =
      ((x.units.zip x.done).drop i).flatMap fun p => if p.2 then [] else unitYield t reg p.1 := by
  obtain ⟨n, hn⟩ : ∃ n, x.units.length - i = n := ⟨_, rfl⟩
  induction n generalizing i with
  | zero =>
    rw [owedFrom_of_le (by omega), List.drop_eq_nil_of_le (by simp [hd]; omega), List.flatMap_nil]
  | succ n ih =>
    have hi : i < x.units.length := by omega
    have hz : i < (x.units.zip x.done).length := by simp [hd, hi]
    rw [owedFrom_of_lt hi, ih (i + 1) (by omega), List.drop_eq_getElem_cons hz, List.flatMap_cons]
    simp [pendingAt, isDone, List.getD_eq_getElem?_getD, List.getElem?_eq_getElem hi,
      List.getElem?_eq_getElem (hd ▸ hi)]
/-- Reading moves entries from what an execution owes to what it gives, in order, and
never fails; a reading without a bound leaves nothing owed. -/
theorem readFrom_owed (ht : t.Ordered) (room : Option Nat) (fuel i : Nat) (x : Execution)
    (h : x.WellFormed reg) (hfuel : x.units.length - i < fuel) :
    (readFrom t reg room fuel i x).1.entries ++ owedFrom t reg (readFrom t reg room fuel i x).2 i =
        owedFrom t reg x i ∧
      (readFrom t reg room fuel i x).1.failure = none ∧
      (room = none → owedFrom t reg (readFrom t reg room fuel i x).2 i = []) := by
  fun_induction readFrom t reg room fuel i x
  case case1 => exact absurd hfuel (Nat.not_lt_zero _)
  case case2 room fuel i x hlen hcomp => exact ⟨rfl, rfl, fun _ => owedFrom_of_le hlen⟩
  case case3 room fuel i x hlen hcomp =>
    have hnil : owedFrom t reg { x with completed := true } i = [] := owedFrom_of_le hlen
    exact ⟨by rw [hnil, owedFrom_of_le hlen]; rfl, rfl, fun _ => hnil⟩
  case case4 room fuel i x hlen hdone ih =>
    have hi : i < x.units.length := Nat.lt_of_not_le hlen
    have hnil : pendingAt t reg x i = [] := by simp [pendingAt, hdone]
    have hsame := (readFrom_wellFormed t room fuel (i + 1) x h).2
    rw [owedFrom_of_sameBelow hi hsame, owedFrom_of_lt hi, hnil, List.nil_append, List.nil_append]
    exact ih h (by omega)
  case case5 room fuel i x hlen hdone req hempty ih =>
    have hi : i < x.units.length := Nat.lt_of_not_le hlen
    have hdl : i < x.done.length := h.doneLength ▸ hi
    have hempty' : (request (x.units.getD i {})).ranges.isEmpty = true := hempty
    have hfin := h.finishEmpty hi (List.isEmpty_iff.mp hempty)
    have hnil : pendingAt t reg x i = [] := by rw [pendingAt, if_neg hdone, unitYield, if_pos hempty']
    have hfinnil : pendingAt t reg (x.finish i) i = [] := by rw [pendingAt_finish hdl, if_pos rfl]
    have hsame := (readFrom_wellFormed t room fuel (i + 1) (x.finish i) hfin).2
    rw [owedFrom_of_sameBelow (x := x.finish i) hi hsame, hfinnil, List.nil_append, owedFrom_of_lt hi,
      hnil, List.nil_append, ← owedFrom_finish hdl]
    exact ih hfin (by simpa [finish] using (by omega : x.units.length - (i + 1) < fuel))
  case case6 room fuel i x hlen hdone req hne s x' es htake =>
    have hi : i < x.units.length := Nat.lt_of_not_le hlen
    have hnotdone : x.isDone i = false := by simpa using hdone
    obtain ⟨f, keep, hb, hf⟩ := h.selective i
    have hne' : (request (x.units.getD i {})).ranges.isEmpty = false := Bool.eq_false_iff.mpr hne
    have hentries : s.entries = unitYield t reg (x.units.getD i {}) := (scan_request ht hb hf hne').1
    have hpre := take_prefix i x room s.entries
    rw [htake, hentries] at hpre
    obtain rfl := eq_recordLast_of_take htake
    have hrec : owedFrom t reg (x.recordLast i es) i =
        unitYield t reg ((x.units.getD i {}).past es) ++ owedFrom t reg x (i + 1) := by
      rw [owedFrom_of_lt ((sameBelow_recordLast es hi).1 ▸ hi), pendingAt_recordLast es hi,
        if_pos ⟨rfl, hnotdone⟩, owedFrom_recordLast es hi]
    refine ⟨?_, rfl, fun hroom => ?_⟩
    · rw [hrec, ← List.append_assoc, unitYield_past ht hb hf hpre, owedFrom_of_lt hi]
      simp [pendingAt, hnotdone]
    · subst hroom
      simp [take_none] at htake
  case case7 room fuel i x hlen hdone req hne s x' es full htake hfull remarks r hfail =>
    obtain ⟨f, keep, hb, hf⟩ := h.selective i
    have hne' : (request (x.units.getD i {})).ranges.isEmpty = false := Bool.eq_false_iff.mpr hne
    have hnone : s.failure = none := (scan_request ht hb hf hne').2
    rw [hnone] at hfail
    cases hfail
  case case8 room fuel i x hlen hdone req hne s x1 es full htake hfull remarks hfail x2 more y hrest ih =>
    have hi : i < x.units.length := Nat.lt_of_not_le hlen
    have hnotdone : x.isDone i = false := by simpa using hdone
    obtain ⟨f, keep, hb, hf⟩ := h.selective i
    have hne' : (request (x.units.getD i {})).ranges.isEmpty = false := Bool.eq_false_iff.mpr hne
    have hentries : s.entries = unitYield t reg (x.units.getD i {}) := (scan_request ht hb hf hne').1
    obtain rfl : full = false := by simpa using hfull
    have hall : es = unitYield t reg (x.units.getD i {}) := hentries ▸ take_all_of_not_full htake
    obtain ⟨hwf1, hsame1⟩ := h.take hi htake
    obtain rfl := eq_recordLast_of_take htake
    have hdl : i < (x.recordLast i es).done.length := by rw [hwf1.doneLength, hsame1.1]; exact hi
    have hwf2 : x2.WellFormed reg := hwf1.finishStarted i
    have hlen2 : x2.units.length = x.units.length := hsame1.1
    -- the unit just read owes nothing any more, and the later units owe what they owed
    have hnil2 : pendingAt t reg x2 i = [] := by
      show pendingAt t reg ((x.recordLast i es).finish i) i = []
      rw [pendingAt_finish hdl, if_pos rfl]
    have hlater : owedFrom t reg x2 (i + 1) = owedFrom t reg x (i + 1) := by
      show owedFrom t reg ((x.recordLast i es).finish i) (i + 1) = _
      rw [owedFrom_finish hdl, owedFrom_recordLast es hi]
    obtain ⟨hread, hfail', hnone⟩ := ih hwf2 (by omega)
    have hsame := (readFrom_wellFormed t (room.map (· - es.length)) fuel (i + 1) x2 hwf2).2
    rw [hrest] at hread hfail' hnone hsame
    have hy : owedFrom t reg y i = owedFrom t reg y (i + 1) := by
      rw [owedFrom_of_sameBelow (hlen2 ▸ hi) hsame, hnil2, List.nil_append]
    refine ⟨?_, hfail', fun hroom => hy ▸ hnone (by rw [hroom]; rfl)⟩
    rw [hy, List.append_assoc, hread, hlater, owedFrom_of_lt hi, hall]
    simp [pendingAt, hnotdone]
/-! ## Readings -/

theorem WellFormed.read {x : Execution} (h : x.WellFormed reg) (t : Table) (limit : Option Nat) :
    (x.read t reg limit).2.WellFormed reg := by
  unfold Execution.read
  split
  · exact h
  · exact (readFrom_wellFormed t limit _ 0 x h).1

/-- A reading gives, in order, the first part of what an execution owes, and what it gives
no longer is owed; a reading without a limit gives all of it. -/
theorem read_pending (ht : t.Ordered) {x : Execution} (h : x.WellFormed reg) (limit : Option Nat) :
    (x.read t reg limit).1.entries ++ pending t reg (x.read t reg limit).2 = pending t reg x ∧
      (x.read t reg limit).1.failure = none ∧
      (limit = none → pending t reg (x.read t reg limit).2 = []) := by
  unfold read
  split
  · rename_i hzero
    refine ⟨rfl, rfl, fun hnone => ?_⟩
    simp [hnone] at hzero
  · exact readFrom_owed ht limit _ 0 x h (by omega)

/-- A reading without a limit gives what an execution owes. -/
theorem read_none_entries (ht : t.Ordered) {x : Execution} (h : x.WellFormed reg) :
    (x.read t reg none).1.entries = pending t reg x := by
  obtain ⟨hread, -, hnone⟩ := read_pending ht h none
  rw [← hread, hnone rfl, List.append_nil]

variable (t reg)

/-- Reads an execution once with each limit in turn, as a consumer that stops after each
reading and comes back: the entries of all the readings, and the execution after them. -/
def readInTurn : List (Option Nat) → Execution → List Entry × Execution
  | [], x => ([], x)
  | limit :: rest, x =>
    let (r, x) := x.read t reg limit
    let (es, x) := readInTurn rest x
    (r.entries ++ es, x)

variable {t reg}

/-- Readings in turn give the first part of what an execution owes, and leave it well
formed. -/
theorem readInTurn_pending (ht : t.Ordered) (limits : List (Option Nat)) {x : Execution}
    (h : x.WellFormed reg) :
    (readInTurn t reg limits x).1 ++ pending t reg (readInTurn t reg limits x).2 = pending t reg x ∧
      (readInTurn t reg limits x).2.WellFormed reg := by
  induction limits generalizing x with
  | nil => exact ⟨rfl, h⟩
  | cons limit rest ih =>
    obtain ⟨hrest, hwf⟩ := ih (h.read t limit)
    refine ⟨?_, hwf⟩
    simp only [readInTurn]
    rw [List.append_assoc, hrest, (read_pending ht h limit).1]

/-! ## Checkpoints -/

theorem WellFormed.selective_of_mem {x : Execution} (h : x.WellFormed reg) {u : ScanUnit}
    (hu : u ∈ x.units) : reg.Selective u.stages := by
  obtain ⟨j, hj, rfl⟩ := List.getElem_of_mem hu
  simpa [List.getD_eq_getElem?_getD, List.getElem?_eq_getElem hj] using h.selective j

@[simp] theorem units_start (q : Uuid) (us : List ScanUnit) (s : Option Uuid) :
    (start q us s).units = us := rfl

@[simp] theorem isDone_start (q : Uuid) (us : List ScanUnit) (s : Option Uuid) (j : Nat) :
    (start q us s).isDone j = false := by
  simp only [start, isDone, List.getD_eq_getElem?_getD, List.getElem?_map]
  cases us[j]? <;> rfl

/-- A fresh execution of units whose stages judge each entry on their own is well formed. -/
theorem WellFormed.start {us : List ScanUnit} (hsel : ∀ u ∈ us, reg.Selective u.stages) (q : Uuid)
    (s : Option Uuid) : (Execution.start q us s).WellFormed reg where
  selective j := by
    simp only [Execution.start, List.getD_eq_getElem?_getD]
    cases hj : us[j]? with
    | none => exact reg.selective_nil
    | some u => exact hsel u (List.mem_of_getElem? hj)
  doneLength := by simp [Execution.start]
  idle _ j hj := by simp at hj

theorem pending_start_single (q : Uuid) (u : ScanUnit) (s : Option Uuid) :
    pending t reg (start q [u] s) = unitYield t reg u := by
  simp [pending, owedFrom, pendingAt, start, isDone]

/-- Reading the rests of the unfinished units with ranges left gives what the units owe. -/
theorem flatMap_rests (ht : t.Ordered) {L : List (ScanUnit × Bool)}
    (hsel : ∀ p ∈ L, reg.Selective p.1.stages) :
    (L.filterMap fun p => if p.2 = true then none
        else if p.1.remaining.ranges.isEmpty = true then none else some p.1.remaining).flatMap
        (unitYield t reg) =
      L.flatMap fun p => if p.2 then [] else unitYield t reg p.1 := by
  induction L with
  | nil => rfl
  | cons p rest ih =>
    obtain ⟨u, d⟩ := p
    have ih := ih fun p hp => hsel p (List.mem_cons_of_mem _ hp)
    rw [List.filterMap_cons, List.flatMap_cons, ← ih]
    cases d with
    | true => simp
    | false =>
      by_cases hr : u.remaining.ranges.isEmpty = true
      · simp [hr, unitYield_of_remaining_empty hr]
      · obtain ⟨f, keep, hb, hf⟩ := hsel (u, false) List.mem_cons_self
        simp [hr, unitYield_remaining ht hb hf]

/-- Resuming each checkpoint of an execution and reading it to its end gives, in turn, what
the execution owes. -/
theorem checkpoints_resume (ht : t.Ordered) {x : Execution} (h : x.WellFormed reg) (now : Instant)
    (nextId : Nat → Uuid) (first : Nat) :
    (x.checkpoints now nextId first).flatMap (fun cp => ((Engine.resume cp).read t reg none).1.entries) =
      pending t reg x := by
  unfold checkpoints
  split
  · -- before anything was produced, one checkpoint holds every unit as it is
    rename_i hs
    have hs : x.started = false := by simpa using hs
    simp only [List.flatMap_cons, List.flatMap_nil, List.append_nil, Engine.resume]
    rw [read_none_entries ht (WellFormed.start (fun u hu => h.selective_of_mem hu) _ _)]
    refine owedFrom_congr rfl fun j _ => ?_
    by_cases hd : x.isDone j = true
    · rw [pendingAt, pendingAt, isDone_start, hd, if_pos rfl, units_start, if_neg Bool.false_ne_true,
        unitYield, h.idle hs j hd, List.isEmpty_nil, if_pos rfl]
    · simp [pendingAt, hd]
  · -- afterwards, one checkpoint for each unfinished unit with a range left, holding its rest
    simp only [List.flatMap_map]
    have hzip : ∀ p ∈ x.units.zip x.done, reg.Selective p.1.stages :=
      fun p hp => h.selective_of_mem (List.of_mem_zip hp).1
    refine (List.flatMap_congr (g := fun p => unitYield t reg p.1) fun p hp => ?_).trans ?_
    · -- each checkpoint holds the rest of one unit of the execution
      obtain ⟨q, hq, hqp⟩ := List.mem_filterMap.mp (List.fst_mem_of_mem_zipIdx hp)
      have hrest : p.1 = q.1.remaining := by
        split at hqp
        · cases hqp
        · split at hqp
          · cases hqp
          · exact (Option.some.inj hqp).symm
      have hsel : ∀ u ∈ [p.1], reg.Selective u.stages := by
        simpa [hrest] using hzip q hq
      rw [Engine.resume, read_none_entries ht (WellFormed.start hsel _ _), pending_start_single]
    · rw [← List.flatMap_map Prod.fst, List.zipIdx_map_fst, flatMap_rests ht hzip, pending,
        owedFrom_eq_flatMap_drop h.doneLength, List.drop_zero]
end Execution

/-! ## Pausing loses and repeats nothing -/

namespace Engine

/-- Start an execution of a plan whose stages judge each entry on its own, over a table in
key order, and read it with any limits in turn, pausing after each reading. The entries read
so far, followed by reading the paused execution to its end, or by resuming each of its
checkpoints in turn and reading each to its end, are the entries of one reading of the
fresh execution to its end; and so are they when the checkpoints go through their tokens
first, which decode whenever the token codec carries the checkpoints and its compression is
lossless. -/
theorem pause_resume_eq_uninterrupted (e : Engine) (p : Plan) (ht : e.table.Ordered)
    (hsel : ∀ u ∈ p.units, e.registry.Selective u.stages) (limits : List (Option Nat))
    (e' : Engine) (T : TokenCodec Checkpoint) :
    let x := (e.execute p).1
    let paused := Execution.readInTurn e.table e.registry limits x
    let whole := (x.read e.table e.registry none).1.entries
    let cps := (e'.checkpoint paused.2).1
    paused.1 ++ (paused.2.read e.table e.registry none).1.entries = whole ∧
      paused.1 ++ cps.flatMap (fun cp => ((resume cp).read e.table e.registry none).1.entries) = whole ∧
      (T.compression.Lossless Token.maxDecoded → (∀ cp ∈ cps, T.Carries cp) →
        ∃ decoded, cps.mapM (fun cp => Checkpoint.decode T (cp.encode T)) = .ok decoded ∧
          paused.1 ++ decoded.flatMap (fun cp => ((resume cp).read e.table e.registry none).1.entries) =
            whole) := by
  intro x paused whole cps
  have hx : x.WellFormed e.registry := Execution.WellFormed.start hsel _ _
  obtain ⟨hturn, hwf⟩ := Execution.readInTurn_pending ht limits hx
  have hwhole : whole = Execution.pending e.table e.registry x := Execution.read_none_entries ht hx
  have hresume : paused.1 ++ cps.flatMap (fun cp => ((resume cp).read e.table e.registry none).1.entries) =
      whole := by
    rw [show cps = (e'.checkpoint paused.2).1 from rfl, checkpoint, Execution.checkpoints_resume ht hwf, hturn,
      hwhole]
  refine ⟨?_, hresume, ?_⟩
  · rw [Execution.read_none_entries ht hwf, hturn, hwhole]
  · -- the tokens decode back to the checkpoints themselves
    intro hz hfit
    exact ⟨cps, Checkpoint.mapM_decode_encode hz hfit, hresume⟩

/-- Three rows of one byte each. -/
def threeRows : Table := ⟨[⟨Key.ofRow [1], []⟩, ⟨Key.ofRow [2], []⟩, ⟨Key.ofRow [3], []⟩]⟩

/-- Two overlapping units: every key, and row `[2]` once more. -/
def overlappingUnits : Plan :=
  { query := "", units := [{ ranges := [Range.everything] }, { ranges := [Range.exactRow [2]] }] }

/-- Two overlapping units over three rows, read one entry and then two before the pause; the
checkpoints fit their tokens of the command line's codec, and resuming them from their tokens
gives the rest. -/
theorem pause_twice_over_overlapping_units :
    threeRows.Ordered ∧ (∀ u ∈ overlappingUnits.units, Registry.Selective {} u.stages) ∧
    Cli.checkpointTokens.compression.Lossless Token.maxDecoded ∧
    (∀ cp ∈ (({} : Engine).checkpoint (Execution.readInTurn threeRows {} [some 1, some 2]
        (({ table := threeRows } : Engine).execute overlappingUnits).1).2).1, Cli.checkpointTokens.Carries cp) ∧
    ∃ decoded, (({} : Engine).checkpoint (Execution.readInTurn threeRows {} [some 1, some 2]
        (({ table := threeRows } : Engine).execute overlappingUnits).1).2).1.mapM
          (fun cp => Checkpoint.decode Cli.checkpointTokens (cp.encode Cli.checkpointTokens)) = .ok decoded ∧
      (Execution.readInTurn threeRows {} [some 1, some 2]
          (({ table := threeRows } : Engine).execute overlappingUnits).1).1 ++
        decoded.flatMap (fun cp => ((resume cp).read threeRows {} none).1.entries) =
      ((({ table := threeRows } : Engine).execute overlappingUnits).1.read threeRows {} none).1.entries :=
  have ht : threeRows.Ordered := by
    unfold Table.Ordered threeRows
    decide
  have hsel : ∀ u ∈ overlappingUnits.units, Registry.Selective {} u.stages := by
    simp [overlappingUnits, Registry.selective_nil]
  have hfit : ∀ cp ∈ (({} : Engine).checkpoint (Execution.readInTurn threeRows {} [some 1, some 2]
      (({ table := threeRows } : Engine).execute overlappingUnits).1).2).1, cp.Storable := by
    decide +kernel
  have hcarry : ∀ cp ∈ (({} : Engine).checkpoint (Execution.readInTurn threeRows {} [some 1, some 2]
      (({ table := threeRows } : Engine).execute overlappingUnits).1).2).1, Cli.checkpointTokens.Carries cp :=
    fun cp hcp => Cli.checkpointTokens_carries (hfit cp hcp)
  ⟨ht, hsel, Cli.zstd_lossless, hcarry,
    (pause_resume_eq_uninterrupted { table := threeRows } overlappingUnits ht hsel [some 1, some 2] {}
      Cli.checkpointTokens).2.2 Cli.zstd_lossless hcarry⟩

end Engine

end Plan

end EdgeQuery
