import EdgeQuery.Store.Bolt
import EdgeQuery.Proofs.ScanUnion
import EdgeQuery.Proofs.KeyBytes
import EdgeQuery.Proofs.PrefixRanges
/-! # Persisted tables read like tables

A persisted table written by a sequence of `Persisted.put` calls reads every range as the
in-memory table written by the same calls does: the entries the range contains, in key
order, each once, and no failure. This holds across any number of batches, and for any
bucket that keeps the rules of `Bucket.Lawful`: a cursor visits pairs in byte order, a seek
goes to the first key not below the sought one, and storing replaces the pair under a key.

The invariant is `Mirrors`: the bucket's cursor visits exactly the stored pairs of the
table's entries, in order. Byte order of encodings is key order for 64-bit keys
(`cmp_encode`), so a seek to an encoded key cuts the table at that key
(`Persisted.cursorFrom_eq`), and a batch is the first `batchSize` entries the range holds
past the cut (`Persisted.collect_eq`). The next batch seeks the last key read, so the batch
and what is read after it split what the range holds past the cut at that key
(`Persisted.readFrom_eq`). -/

namespace EdgeQuery.Store

/-- What a persisted table relies on of its bucket. -/
structure Bucket.Lawful {β : Type} (B : Bucket β) : Prop where
  /-- A cursor visits the pairs in strictly increasing byte order of their keys. -/
  sorted : ∀ b, (B.visit b none).Pairwise fun p q => Bytes.cmp p.1 q.1 = .lt
  /-- Seeking puts the cursor at the first key not below the sought one. -/
  seek : ∀ b s, B.visit b (some s) = (B.visit b none).dropWhile fun p => Bytes.cmp p.1 s == .lt
  /-- Storing a value replaces the pair under its key and keeps the others. -/
  put : ∀ {b b' k v}, B.put b k v = .ok b' →
    ∀ p, p ∈ B.visit b' none ↔ p = (k, v) ∨ (p.1 ≠ k ∧ p ∈ B.visit b none)

/-- The pair an entry is stored as. -/
def Entry.stored (e : Entry) : Bytes × Bytes := (e.key.encode, e.value)

@[simp] theorem Entry.stored_fst (e : Entry) : e.stored.1 = e.key.encode := rfl

/-- Distinct 64-bit keys have distinct byte forms. -/
theorem Key.encode_inj {a b : Key} (ha : a.Storable) (hb : b.Storable) :
    a.encode = b.encode ↔ a = b := by
  constructor
  · intro h
    have hdec := Key.decode?_encode ha
    rw [h, Key.decode?_encode hb] at hdec
    exact (Except.ok.inj hdec).symm
  · rintro rfl
    rfl

/-! ## Sorted insertion -/

namespace Table

variable {e x : Entry} {xs : List Entry}

theorem mem_insertSorted_of_mem (h : x ∈ insertSorted e xs) : x = e ∨ x ∈ xs := by
  induction xs with
  | nil => simpa [insertSorted] using h
  | cons y ys ih =>
    simp only [insertSorted] at h
    split at h <;> grind

/-- What holds of the entry and of the list holds of the insertion. -/
theorem forall_insertSorted {P : Entry → Prop} (he : P e) (hxs : ∀ x ∈ xs, P x) :
    ∀ x ∈ insertSorted e xs, P x := fun x hx => by
  rcases mem_insertSorted_of_mem hx with rfl | hx
  · exact he
  · exact hxs x hx

/-- Inserting into a list in key order keeps it in key order. -/
theorem pairwise_insertSorted (hs : xs.Pairwise fun a b => a.key < b.key) :
    (insertSorted e xs).Pairwise fun a b => a.key < b.key := by
  induction xs with
  | nil => simp [insertSorted]
  | cons y ys ih =>
    obtain ⟨hy, hys⟩ := List.pairwise_cons.mp hs
    simp only [insertSorted]
    split
    · -- `e` goes first: it is below `y`, so below everything after `y`
      rename_i hlt
      have hlt : e.key < y.key := Key.compare_eq_lt.mp hlt
      refine List.Pairwise.cons (fun z hz => ?_) hs
      rcases List.mem_cons.mp hz with rfl | hz
      · exact hlt
      · exact lt_trans hlt (hy z hz)
    · -- `e` takes the place of `y`, whose key it has
      rename_i heq
      have heq : e.key = y.key := Key.compare_eq_eq.mp heq
      exact List.Pairwise.cons (fun z hz => heq ▸ hy z hz) hys
    · rename_i hgt
      have hgt : y.key < e.key := Key.compare_eq_gt.mp hgt
      refine List.Pairwise.cons (fun z hz => ?_) (ih hys)
      rcases mem_insertSorted_of_mem hz with rfl | hz
      · exact hgt
      · exact hy z hz

/-- Inserting into a list in key order adds the entry and drops the one with its key. -/
theorem mem_insertSorted (hs : xs.Pairwise fun a b => a.key < b.key) :
    x ∈ insertSorted e xs ↔ x = e ∨ (x ∈ xs ∧ x.key ≠ e.key) := by
  induction xs with
  | nil => simp [insertSorted]
  | cons y ys ih =>
    obtain ⟨hy, hys⟩ := List.pairwise_cons.mp hs
    simp only [insertSorted]
    split
    · rename_i hlt
      have hlt : e.key < y.key := Key.compare_eq_lt.mp hlt
      -- every key of the list is at least `y`'s, so none is `e`'s
      have hne : ∀ z ∈ y :: ys, z.key ≠ e.key := fun z hz => by
        rcases List.mem_cons.mp hz with rfl | hz
        · exact ne_of_gt hlt
        · exact ne_of_gt (lt_trans hlt (hy z hz))
      grind
    · rename_i heq
      have heq : e.key = y.key := Key.compare_eq_eq.mp heq
      have hne : ∀ z ∈ ys, z.key ≠ e.key := fun z hz => heq ▸ ne_of_gt (hy z hz)
      grind
    · rename_i hgt
      have hgt : y.key < e.key := Key.compare_eq_gt.mp hgt
      rw [List.mem_cons, ih hys]
      grind

end Table

/-! ## The invariant: a bucket mirrors a list of entries -/

variable {β : Type} {B : Bucket β}

/-- A bucket state mirrors a list of entries when its cursor visits exactly their stored
pairs, in order, and their keys are 64-bit keys in strictly increasing order. -/
structure Mirrors (B : Bucket β) (b : β) (xs : List Entry) : Prop where
  sorted : xs.Pairwise fun a c => a.key < c.key
  storable : ∀ e ∈ xs, e.key.Storable
  visit : B.visit b none = xs.map Entry.stored

/-- Stored pairs of 64-bit keys in key order are in byte order. -/
theorem pairwise_stored {xs : List Entry} (hs : xs.Pairwise fun a c => a.key < c.key)
    (hst : ∀ e ∈ xs, e.key.Storable) :
    (xs.map Entry.stored).Pairwise fun p q => Bytes.cmp p.1 q.1 = .lt := by
  rw [List.pairwise_map]
  refine hs.imp_of_mem fun {a c} ha hc hac => ?_
  rw [Entry.stored_fst, Entry.stored_fst, Key.cmp_encode (hst a ha) (hst c hc)]
  exact hac

/-- The stored pairs of a sorted insertion: the new pair, and the old ones under other
byte keys. -/
theorem mem_stored_insertSorted {xs : List Entry} {e : Entry}
    (hs : xs.Pairwise fun a c => a.key < c.key) (hst : ∀ x ∈ xs, x.key.Storable)
    (he : e.key.Storable) (p : Bytes × Bytes) :
    p ∈ (Table.insertSorted e xs).map Entry.stored ↔
      p = e.stored ∨ (p.1 ≠ e.key.encode ∧ p ∈ xs.map Entry.stored) := by
  simp only [List.mem_map, Table.mem_insertSorted hs]
  constructor
  · rintro ⟨x, rfl | ⟨hx, hne⟩, rfl⟩
    · exact .inl rfl
    · exact .inr ⟨fun h => hne ((Key.encode_inj (hst x hx) he).mp h), x, hx, rfl⟩
  · rintro (rfl | ⟨hne, x, hx, rfl⟩)
    · exact ⟨e, .inl rfl, rfl⟩
    · exact ⟨x, .inr ⟨hx, fun h => hne (by simp [h])⟩, rfl⟩

section Put

variable (hB : B.Lawful)
include hB

/-- Storing one entry keeps a bucket mirroring the list the entry is inserted into. -/
theorem Mirrors.putEntry {b b' : β} {xs : List Entry} {e : Entry} (h : Mirrors B b xs)
    (he : e.key.Storable) (hput : Persisted.putEntry B b e = .ok b') :
    Mirrors B b' (Table.insertSorted e xs) := by
  have hput : B.put b e.key.encode e.value = .ok b' := by
    unfold Persisted.putEntry at hput
    cases hr : B.put b e.key.encode e.value <;> simp_all [Except.mapError]
  have hsorted := Table.pairwise_insertSorted (e := e) h.sorted
  have hst : ∀ x ∈ Table.insertSorted e xs, x.key.Storable :=
    Table.forall_insertSorted (P := fun x => x.key.Storable) he h.storable
  refine ⟨hsorted, hst, ?_⟩
  -- both lists are strictly sorted by byte key, so they are equal if they have one set of
  -- members
  have : Std.Irrefl fun p q : Bytes × Bytes => Bytes.cmp p.1 q.1 = .lt :=
    ⟨fun p h => by simp at h⟩
  have : Std.Antisymm fun p q : Bytes × Bytes => Bytes.cmp p.1 q.1 = .lt :=
    ⟨fun p q h h' => by rw [Bytes.cmp_swap, h] at h'; cases h'⟩
  refine List.Pairwise.eq_of_mem_iff (hB.sorted b') (pairwise_stored hsorted hst) fun p => ?_
  rw [hB.put hput, h.visit, mem_stored_insertSorted h.sorted h.storable he]
  rfl

/-- Storing entries one by one keeps a bucket mirroring the list they are inserted into. -/
theorem Mirrors.putAll {es : List Entry} : ∀ {b b' : β} {xs : List Entry}, Mirrors B b xs →
    (∀ e ∈ es, e.key.Storable) → es.foldlM (Persisted.putEntry B) b = .ok b' →
    Mirrors B b' (es.foldl (fun acc e => Table.insertSorted e acc) xs) := by
  induction es with
  | nil =>
    intro b b' xs h _ hput
    obtain rfl : b = b' := Except.ok.inj hput
    exact h
  | cons e es ih =>
    intro b b' xs h hst hput
    rw [List.foldlM_cons] at hput
    cases hb : Persisted.putEntry B b e with
    | error err => simp [hb, bind, Except.bind] at hput
    | ok b₁ =>
      rw [hb] at hput
      have h₁ := h.putEntry hB (hst e List.mem_cons_self) hb
      exact ih h₁ (fun x hx => hst x (List.mem_cons_of_mem e hx)) hput

/-- A write that succeeds keeps the bucket mirroring the table written the same way. -/
theorem Mirrors.put {t t' : Persisted β} {m : Table} {es : List Entry}
    (h : Mirrors B t.bucket m.entries) (hst : ∀ e ∈ es, e.key.Storable)
    (hput : t.put B es = .ok t') : Mirrors B t'.bucket (m.put es).entries := by
  unfold Persisted.put at hput
  split at hput
  · rename_i b hfold
    cases hput
    exact h.putAll hB hst hfold
  · cases hput

end Put

/-- A persisted table holds a table when both were written by the same successful puts,
from an empty bucket and an empty table. -/
inductive Stored (B : Bucket β) : Persisted β → Table → Prop where
  | opened {t : Persisted β} : B.visit t.bucket none = [] → Stored B t {}
  | put {t t' : Persisted β} {m : Table} {es : List Entry} :
    Stored B t m → (∀ e ∈ es, e.key.Storable) → t.put B es = .ok t' → Stored B t' (m.put es)

/-- A lawful bucket mirrors the table it holds. -/
theorem Stored.mirrors (hB : B.Lawful) {t : Persisted β} {m : Table} (h : Stored B t m) :
    Mirrors B t.bucket m.entries := by
  induction h with
  | opened hv => exact ⟨.nil, nofun, hv⟩
  | put _ hst hput ih => exact ih.put hB hst hput

/-! ## Reading -/

/-- Whether a cursor placed at a sought key, included or not, goes on to visit `k`; with
nothing sought it visits every key. -/
def visitedFrom : Option Key → Bool → Key → Bool
  | none, _, _ => true
  | some s, true, k => decide (s ≤ k)
  | some s, false, k => decide (s < k)

theorem visitedFrom_of_lt {seek : Option Key} {inc : Bool} {a b : Key}
    (ha : visitedFrom seek inc a = true) (hab : a < b) : visitedFrom seek inc b = true := by
  match seek, inc with
  | none, _ => rfl
  | some s, true => simpa [visitedFrom] using le_trans (by simpa [visitedFrom] using ha) hab.le
  | some s, false => simpa [visitedFrom] using lt_trans (by simpa [visitedFrom] using ha) hab

/-- A cursor placed after a key it visits goes on to visit what it visits above that key. -/
theorem filter_visitedFrom_after {seek : Option Key} {inc : Bool} {last : Key}
    (hlast : visitedFrom seek inc last = true) (es : List Entry) :
    es.filter (fun e => visitedFrom (some last) false e.key) =
      (es.filter fun e => visitedFrom seek inc e.key).filter fun e => decide (last < e.key) := by
  rw [List.filter_filter]
  refine List.filter_congr fun e _ => ?_
  by_cases h : last < e.key
  · rw [visitedFrom_of_lt hlast h]
    simp [visitedFrom, h]
  · simp [visitedFrom, h]

/-- In a list in key order, what follows the first `n` entries is what lies above the last
of them. -/
theorem drop_eq_filter_of_getLast? {zs : List Entry} (hs : zs.Pairwise fun a c => a.key < c.key)
    {n : Nat} {last : Entry} (hl : (zs.take n).getLast? = some last) :
    zs.drop n = zs.filter fun e => decide (last.key < e.key) := by
  have hsplit := List.take_append_drop n zs
  have hp := hs
  rw [← hsplit, List.pairwise_append] at hp
  obtain ⟨htake, -, hcross⟩ := hp
  have hle := le_of_getLast?_eq_some htake hl
  have hlast : last ∈ zs.take n := List.mem_of_getLast? hl
  have hnone : (zs.take n).filter (fun e => decide (last.key < e.key)) = [] :=
    List.filter_eq_nil_iff.mpr fun e he => by simpa using hle e he
  have hall : (zs.drop n).filter (fun e => decide (last.key < e.key)) = zs.drop n :=
    List.filter_eq_self.mpr fun e he => by simpa using hcross last hlast e he
  conv_rhs => rw [← hsplit, List.filter_append, hnone, hall, List.nil_append]

/-- When a seek lands on the stored pairs of a sorted list at or above the sought key, the
read transaction looks at those past it when it is excluded. -/
theorem Persisted.cursorFrom_some {t : Persisted β} {s : Key} (hs' : s.Storable) {ys : List Entry}
    (hys : ys.Pairwise fun a c => a.key < c.key) (hge : ∀ y ∈ ys, s ≤ y.key ∧ y.key.Storable)
    (hvs : B.visit t.bucket (some s.encode) = ys.map Entry.stored) (inc : Bool) :
    Persisted.cursorFrom B t (some s.encode) inc =
      (ys.filter fun e => visitedFrom (some s) inc e.key).map Entry.stored := by
  cases ys with
  | nil => simp [Persisted.cursorFrom, hvs]
  | cons y ys =>
    obtain ⟨hy, -⟩ := List.pairwise_cons.mp hys
    obtain ⟨hsy, hyst⟩ := hge y List.mem_cons_self
    -- everything after the first pair is above it, so above `s`
    have habove : ∀ z ∈ ys, s < z.key := fun z hz => lt_of_le_of_lt hsy (hy z hz)
    cases inc with
    | true =>
      have hrest : ys.filter (fun e => decide (s ≤ e.key)) = ys :=
        List.filter_eq_self.mpr fun z hz => by simpa using (habove z hz).le
      simp [Persisted.cursorFrom, hvs, Entry.stored, visitedFrom, hsy, hrest]
    | false =>
      have hrest : ys.filter (fun e => decide (s < e.key)) = ys :=
        List.filter_eq_self.mpr fun z hz => by simpa using habove z hz
      by_cases hyk : y.key = s
      · simp [Persisted.cursorFrom, hvs, Entry.stored, visitedFrom, hyk, hrest]
      · have hne : y.key.encode ≠ s.encode := fun h => hyk ((Key.encode_inj hyst hs').mp h)
        have hlt : s < y.key := lt_of_le_of_ne hsy (Ne.symm hyk)
        simp [Persisted.cursorFrom, hvs, Entry.stored, visitedFrom, hne, hlt, hrest]

section Cursor

variable {es : List Entry} (hs : es.Pairwise fun a c => a.key < c.key)
  (hst : ∀ e ∈ es, e.key.Storable)
include hs hst

/-- Seeking the byte form of a key among the stored pairs of a sorted list visits the
entries at or above the key. -/
theorem dropWhile_stored {s : Key} (hs' : s.Storable) :
    (es.map Entry.stored).dropWhile (fun p => Bytes.cmp p.1 s.encode == .lt) =
      (es.filter fun e => decide (s ≤ e.key)).map Entry.stored := by
  induction es with
  | nil => rfl
  | cons e es ih =>
    obtain ⟨he, hs⟩ := List.pairwise_cons.mp hs
    have hst' : ∀ x ∈ es, x.key.Storable := fun x hx => hst x (List.mem_cons_of_mem e hx)
    have hcmp : Bytes.cmp e.key.encode s.encode = e.key.compare s :=
      Key.cmp_encode (hst e List.mem_cons_self) hs'
    by_cases hlt : e.key < s
    · rw [List.map_cons, List.dropWhile_cons_of_pos (by simpa [hcmp] using hlt),
        List.filter_cons_of_neg (by simpa using not_le_of_gt hlt), ih hs hst']
    · -- `e` is at or above `s`, and everything after it is above `e`
      have hle : s ≤ e.key := le_of_not_gt hlt
      have hall : es.filter (fun x => decide (s ≤ x.key)) = es :=
        List.filter_eq_self.mpr fun x hx => by simpa using le_trans hle (he x hx).le
      rw [List.map_cons, List.dropWhile_cons_of_neg (by simpa [hcmp] using hlt),
        List.filter_cons_of_pos (by simpa using hle), hall, List.map_cons]

variable {t : Persisted β} (hB : B.Lawful) (hv : B.visit t.bucket none = es.map Entry.stored)
include hB hv

/-- The pairs a read transaction looks at are the stored entries a cursor visits from the
sought key. -/
theorem Persisted.cursorFrom_eq (seek : Option Key) (hseek : ∀ s ∈ seek, s.Storable) (inc : Bool) :
    Persisted.cursorFrom B t (seek.map Key.encode) inc =
      (es.filter fun e => visitedFrom seek inc e.key).map Entry.stored := by
  cases seek with
  | none => simp [Persisted.cursorFrom, hv, visitedFrom]
  | some s =>
    have hs' : s.Storable := hseek s rfl
    have hvs : B.visit t.bucket (some s.encode) =
        (es.filter fun e => decide (s ≤ e.key)).map Entry.stored := by
      rw [hB.seek, hv, dropWhile_stored hs hst hs']
    have hge : ∀ y ∈ es.filter (fun e => decide (s ≤ e.key)), s ≤ y.key ∧ y.key.Storable :=
      fun y hy => by
        rw [List.mem_filter] at hy
        exact ⟨by simpa using hy.2, hst y hy.1⟩
    rw [Option.map_some, Persisted.cursorFrom_some hs' (hs.filter _) hge hvs, List.filter_filter]
    -- a cursor placed at `s` visits only keys at or above it
    congr 2
    funext e
    cases inc <;> by_cases h : s < e.key <;> simp [visitedFrom, h, le_of_lt]

end Cursor

/-- A batch is the first `room` entries of the range among those visited, and the range is
done when fewer are left. -/
theorem Persisted.collect_eq (r : Range) {ys : List Entry} (hs : ys.Pairwise fun a c => a.key < c.key)
    (hst : ∀ e ∈ ys, e.key.Storable) {room : Nat} (hroom : 0 < room) :
    Persisted.collect r room (ys.map Entry.stored) =
      .ok ((ys.filter (r.contains ·.key)).take room,
        decide ((ys.filter (r.contains ·.key)).length < room)) := by
  induction ys generalizing room with
  | nil => simp [Persisted.collect, hroom]
  | cons y ys ih =>
    obtain ⟨hy, hs⟩ := List.pairwise_cons.mp hs
    have hst' : ∀ x ∈ ys, x.key.Storable := fun x hx => hst x (List.mem_cons_of_mem y hx)
    have hdec := Key.decode?_encode (hst y List.mem_cons_self)
    simp only [List.map_cons, Entry.stored, Persisted.collect, hdec]
    by_cases ha : r.afterEnd y.key = true
    · -- the range ends here: nothing after `y` is in it either
      have hnone : ys.filter (r.contains ·.key) = [] :=
        List.filter_eq_nil_iff.mpr fun z hz hc => by
          have hz' := Range.afterEnd_false_of_le (Range.contains_eq_true_iff.mp hc).2 (hy z hz).le
          simp [ha] at hz'
      have hcy : r.contains y.key = false := by simp [Range.contains, ha]
      simp [ha, hcy, hnone, hroom]
    · have ha : r.afterEnd y.key = false := by simpa using ha
      by_cases hb : r.beforeStart y.key = true
      · have hcy : r.contains y.key = false := by simp [Range.contains, hb]
        simp [ha, hb, hcy, ih hs hst' hroom]
      · have hb : r.beforeStart y.key = false := by simpa using hb
        have hc : r.contains y.key = true := Range.contains_eq_true_iff.mpr ⟨hb, ha⟩
        by_cases hone : room ≤ 1
        · obtain rfl : room = 1 := by omega
          simp [ha, hb, hc]
        · obtain ⟨n, rfl⟩ : ∃ n, room = n + 2 := ⟨room - 2, by omega⟩
          have ih := ih hs hst' (show 0 < n + 1 by omega)
          simp [ha, hb, hc, ih, Except.map]

section Read

variable {es : List Entry} {t : Persisted β} (r : Range)
  (hs : es.Pairwise fun a c => a.key < c.key) (hst : ∀ e ∈ es, e.key.Storable)
  (hB : B.Lawful) (hv : B.visit t.bucket none = es.map Entry.stored)
include hs hst hB hv

/-- Reading from a sought key gives the entries of the range the cursor visits from there,
for any fuel above the number of entries it visits: each batch but the last is full and
the next one starts right after it. -/
theorem Persisted.readFrom_eq : ∀ (fuel : Nat) (seek : Option Key) (inc : Bool),
    (∀ s ∈ seek, s.Storable) → (es.filter fun e => visitedFrom seek inc e.key).length < fuel →
    Persisted.readFrom B t r fuel (seek.map Key.encode) inc =
      ((es.filter fun e => visitedFrom seek inc e.key).filter (r.contains ·.key), none) := by
  intro fuel
  induction fuel with
  | zero => intro _ _ _ h; exact absurd h (Nat.not_lt_zero _)
  | succ fuel ih =>
    intro seek inc hseek hlen
    -- `ys` is what the cursor visits, `zs` the part of it in the range
    set ys := es.filter fun e => visitedFrom seek inc e.key with hys
    set zs := ys.filter (r.contains ·.key)
    have hys_sorted : ys.Pairwise fun a c => a.key < c.key := hs.filter _
    have hys_st : ∀ e ∈ ys, e.key.Storable := fun e he => hst e (List.mem_filter.mp he).1
    have hbatch : Persisted.readBatch B t r (seek.map Key.encode) inc =
        .ok (zs.take batchSize, decide (zs.length < batchSize)) := by
      rw [Persisted.readBatch, Persisted.cursorFrom_eq hs hst hB hv seek hseek inc,
        Persisted.collect_eq r hys_sorted hys_st (by decide)]
    simp only [Persisted.readFrom, hbatch]
    cases hlast : (zs.take batchSize).getLast? with
    | none =>
      -- an empty batch: nothing in the range is left
      have hnil : zs = [] := by simpa [batchSize] using List.getLast?_eq_none_iff.mp hlast
      simp [hnil]
    | some last =>
      by_cases hdone : zs.length < batchSize
      · simp [hdone, List.take_of_length_le hdone.le]
      · -- a full batch: the rest of the range lies above its last key
        have hlast_zs : last ∈ zs := List.mem_of_mem_take (List.mem_of_getLast? hlast)
        have hlast_ys : last ∈ ys := (List.mem_filter.mp hlast_zs).1
        have hvisited : visitedFrom seek inc last.key = true := (List.mem_filter.mp hlast_ys).2
        have hnext := filter_visitedFrom_after hvisited es
        rw [← hys] at hnext
        have hlen' : (es.filter fun e => visitedFrom (some last.key) false e.key).length < fuel := by
          have hshorter : (ys.filter fun e => decide (last.key < e.key)).length < ys.length :=
            List.length_filter_lt_length_iff_exists.mpr ⟨last, hlast_ys, by simp⟩
          rw [hnext]
          omega
        have hrest := ih (some last.key) false (by simpa using hys_st last hlast_ys) hlen'
        have hsplit : (ys.filter fun e => decide (last.key < e.key)).filter (r.contains ·.key) =
            zs.drop batchSize := by
          rw [drop_eq_filter_of_getLast? (hys_sorted.filter _) hlast]
          simp only [List.filter_filter, Bool.and_comm]
        simp only [Option.map_some] at hrest
        simp [hdone, hrest, hnext, hsplit]

end Read

/-- A key the start of a range lets in is visited by a cursor placed at that start. -/
theorem visitedFrom_start {r : Range} {k : Key} (hk : r.beforeStart k = false) :
    visitedFrom (if r.unboundedStart then none else some r.start)
      (if r.unboundedStart then true else r.startInclusive) k = true := by
  cases hu : r.unboundedStart with
  | true => rfl
  | false =>
    rw [Range.beforeStart_eq_false_iff, hu] at hk
    rcases hk with h | h | ⟨rfl, hinc⟩
    · cases h
    · cases r.startInclusive <;> simp [visitedFrom, h, le_of_lt h]
    · simp [visitedFrom, hinc]

/-- A persisted table that mirrors a table reads a range as the table does. -/
theorem Persisted.read_eq (hB : B.Lawful) {t : Persisted β} {m : Table}
    (h : Mirrors B t.bucket m.entries) (r : Range) (hr : r.start.Storable) :
    t.read B r = (m.read r, none) := by
  have hseek : (if r.unboundedStart then none else some r.start.encode) =
      (if r.unboundedStart then none else some r.start).map Key.encode := by
    split <;> rfl
  have hstart : ∀ s ∈ (if r.unboundedStart then none else some r.start), s.Storable := by
    split <;> simp [hr]
  -- one batch more than the bucket has pairs
  have hfuel : (m.entries.filter fun e => visitedFrom (if r.unboundedStart then none else some r.start)
      (if r.unboundedStart then true else r.startInclusive) e.key).length <
      (B.visit t.bucket none).length + 1 := by
    rw [h.visit, List.length_map]
    exact Nat.lt_succ_of_le (List.length_filter_le _ _)
  rw [Persisted.read, hseek, Persisted.readFrom_eq r h.sorted h.storable hB h.visit _ _ _ hstart hfuel,
    List.filter_filter]
  -- every key in the range is one the cursor placed at its start visits
  refine congrArg (·, none) (List.filter_congr fun e _ => ?_)
  cases hc : r.contains e.key
  · simp
  · rw [visitedFrom_start (Range.contains_eq_true_iff.mp hc).1]
    rfl

/-- A persisted table written by puts into a lawful bucket reads every range as the table
written by the same puts: the entries the range contains, in key order, each once, and no
failure, however many batches the read takes. -/
theorem persisted_read_eq_table_read (hB : B.Lawful) {t : Persisted β} {m : Table}
    (h : Stored B t m) (r : Range) (hr : r.start.Storable) :
    t.read B r = (m.read r, none) ∧
      (∀ e, e ∈ (t.read B r).1 ↔ e ∈ m.entries ∧ r.contains e.key = true) ∧
      (t.read B r).1.Pairwise fun a c => a.key < c.key := by
  have hm := h.mirrors hB
  have hread := Persisted.read_eq hB hm r hr
  refine ⟨hread, fun e => ?_, ?_⟩
  · rw [hread]
    simp [Table.read]
  · rw [hread]
    exact hm.sorted.filter _

/-! ## A lawful bucket -/

/-- Entries in key order with 64-bit keys. -/
structure SortedEntries where
  entries : List Entry
  sorted : entries.Pairwise fun a c => a.key < c.key
  storable : ∀ e ∈ entries, e.key.Storable

/-- A bucket kept as entries in key order: it stores a value under bytes that read as a
64-bit key. -/
def entryBucket : Bucket SortedEntries where
  put b k v :=
    match Key.decode? k with
    | .error _ => .error "key does not read as a key"
    | .ok key =>
      if hk : key.Storable then
        .ok ⟨Table.insertSorted ⟨key, v⟩ b.entries, Table.pairwise_insertSorted b.sorted,
          Table.forall_insertSorted (P := fun x => x.key.Storable) hk b.storable⟩
      else .error "timestamp out of range"
  visit b s :=
    match s with
    | none => b.entries.map Entry.stored
    | some s => (b.entries.map Entry.stored).dropWhile fun p => Bytes.cmp p.1 s == .lt

theorem entryBucket_lawful : entryBucket.Lawful where
  sorted b := pairwise_stored b.sorted b.storable
  seek _ _ := rfl
  put {b b' k v} h p := by
    simp only [entryBucket] at h
    split at h
    · cases h
    · rename_i key hdec
      split at h
      · rename_i hk
        cases h
        rw [← Key.encode_of_decode? hdec]
        exact mem_stored_insertSorted b.sorted b.storable hk p
      · cases h

/-- Two puts into an empty bucket, the second before the first in key order, then a read of
one row. -/
theorem entryBucket_reads_after_put :
    let t : Persisted SortedEntries :=
      { path := "edges.db",
        bucket := ⟨[⟨{ row := [1] }, [8]⟩, ⟨{ row := [2] }, [7]⟩], by decide, by decide⟩ }
    let m : Table := ({} : Table).put [⟨{ row := [2] }, [7]⟩, ⟨{ row := [1] }, [8]⟩]
    t.read entryBucket (Range.exactRow [1]) = (m.read (Range.exactRow [1]), none) ∧
      (∀ e, e ∈ (t.read entryBucket (Range.exactRow [1])).1 ↔
        e ∈ m.entries ∧ (Range.exactRow [1]).contains e.key = true) ∧
      (t.read entryBucket (Range.exactRow [1])).1.Pairwise fun a c => a.key < c.key := by
  intro t m
  have h1 : ({ row := [1] } : Key).Storable := by decide
  have h2 : ({ row := [2] } : Key).Storable := by decide
  have hlt : Key.compare { row := [1] } { row := [2] } = .lt := by decide
  have hput : ({ path := "edges.db", bucket := ⟨[], .nil, nofun⟩ } : Persisted SortedEntries).put
      entryBucket [⟨{ row := [2] }, [7]⟩, ⟨{ row := [1] }, [8]⟩] = .ok t := by
    simp only [t, Persisted.put, List.foldlM_cons, List.foldlM_nil, Persisted.putEntry, entryBucket,
      Key.decode?_encode h1, Key.decode?_encode h2, dif_pos h1, dif_pos h2]
    simp [Except.mapError, Table.insertSorted, hlt, bind, Except.bind, pure, Except.pure]
  exact persisted_read_eq_table_read entryBucket_lawful (.put (.opened rfl) (by decide) hput) _
    (by decide)

end EdgeQuery.Store
