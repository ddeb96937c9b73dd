import EdgeQuery.Store.Scan
import EdgeQuery.Proofs.RangeAlgebra
/-! # A scan reads the union of its ranges

A scan without stages produces the entries of its table that lie in at least one of its
ranges (in all of them when it has none) and whose column family it allows, each once and
in key order. This holds for any list of ranges: unsorted, overlapping, repeated, with any
kind of bounds.

The scan sorts its ranges by their starts and reads each one only after the last key read
so far. The invariant that carries the proof is an equation: reading the ranges that are
left, after a last key, gives the entries above that key in the union of those ranges.
When the next range is read, the keys it holds up to its last stored key are all the keys
the later ranges hold up to there: a later range starts no earlier and a range is convex.
So the entries read from it and the entries read after it split the union at that key.

The table keeps its entries in strictly increasing key order (`Table.Ordered`); reading a
range then gives its entries in key order, as the scan assumes. -/

namespace EdgeQuery.Store

/-- The table invariant: entries in strictly increasing key order, so each key once. -/
def Table.Ordered (t : Table) : Prop := t.entries.Pairwise fun a b => a.key < b.key

/-- What a scan request selects: an entry in one of its ranges (any entry when there are
none) whose column family it allows (any family when it names none). -/
def Request.selects (req : Request) (e : Entry) : Bool :=
  (req.ranges.isEmpty || req.ranges.any fun r => r.contains e.key) &&
    (req.families.isEmpty || req.families.contains e.key.family)

/-- Whether a key comes after the last key read, if any. -/
def keyAfter : Option Key → Key → Bool
  | none, _ => true
  | some l, k => decide (l < k)

/-- The part of a range a scan reads after its last key: the whole range at first. -/
def Range.cutAfter (last : Option Key) (r : Range) : Option Range :=
  match last with
  | none => some r
  | some k => r.after k

/-! ## Sorted entry lists -/

section Sorted

variable {es : List Entry}

/-- In a list in key order, the last entry has the greatest key. -/
theorem le_of_getLast?_eq_some (hs : es.Pairwise fun a b => a.key < b.key) {m : Entry}
    (hm : es.getLast? = some m) : ∀ e ∈ es, e.key ≤ m.key := by
  obtain ⟨init, rfl⟩ := List.getLast?_eq_some_iff.mp hm
  intro e he
  rcases List.mem_append.mp he with hinit | hlast
  · exact le_of_lt (List.pairwise_append.mp hs |>.2.2 e hinit m (List.mem_singleton_self m))
  · rw [List.mem_singleton.mp hlast]

/-- Two filters of a list in key order, the first keeping entries at or below a key and the
second entries above it, together give the filter of either. -/
theorem filter_append_filter_of_split (hs : es.Pairwise fun a b => a.key < b.key)
    {p q t : Entry → Bool} (x : Key)
    (hp : ∀ e ∈ es, p e = true → e.key ≤ x) (hq : ∀ e ∈ es, q e = true → x < e.key)
    (ht : ∀ e ∈ es, t e = (p e || q e)) :
    es.filter p ++ es.filter q = es.filter t := by
  induction es with
  | nil => rfl
  | cons a es ih =>
    obtain ⟨ha, hs⟩ := List.pairwise_cons.mp hs
    have ih := ih hs (fun e he => hp e (List.mem_cons_of_mem a he))
      (fun e he => hq e (List.mem_cons_of_mem a he)) (fun e he => ht e (List.mem_cons_of_mem a he))
    have hta := ht a List.mem_cons_self
    by_cases hqa : q a = true
    · -- `a` is above the key, so are all later entries, and the first filter keeps none
      have hxa := hq a List.mem_cons_self hqa
      have hpa : p a = false := by
        by_contra h
        exact absurd (hp a List.mem_cons_self (by simpa using h)) (not_le_of_gt hxa)
      have hnone : es.filter p = [] := by
        refine List.filter_eq_nil_iff.mpr fun e he hpe => ?_
        exact absurd (hp e (List.mem_cons_of_mem a he) hpe) (not_le_of_gt (lt_trans hxa (ha e he)))
      have hrest : es.filter q = es.filter t := by
        refine List.filter_congr fun e he => ?_
        have hpe : p e = false := by
          simpa [hnone] using (List.filter_eq_nil_iff.mp hnone e he)
        simp [ht e (List.mem_cons_of_mem a he), hpe]
      simp [hpa, hqa, hta, hnone, hrest]
    · have hqa : q a = false := by simpa using hqa
      by_cases hpa : p a = true
      · simp [hpa, hqa, hta, ← ih]
      · have hpa : p a = false := by simpa using hpa
        simp [hpa, hqa, hta, ← ih]

end Sorted

/-! ## Cutting ranges after the last key -/

theorem keyAfter_of_lt {last : Option Key} {a b : Key} (ha : keyAfter last a = true) (hab : a < b) :
    keyAfter last b = true := by
  cases last with
  | none => rfl
  | some l => simpa [keyAfter] using lt_trans (by simpa [keyAfter] using ha) hab

/-- The cut range holds the range's keys after the last key. -/
theorem contains_of_cutAfter_eq_some {last : Option Key} {r r' : Range} {k : Key}
    (h : r.cutAfter last = some r') : r'.contains k = (r.contains k && keyAfter last k) := by
  cases last with
  | none =>
    cases h
    simp [keyAfter]
  | some l => exact Range.contains_of_after_eq_some h

/-- A range cut away entirely holds no key after the last key. -/
theorem keyAfter_eq_false_of_cutAfter_eq_none {last : Option Key} {r : Range} {k : Key}
    (h : r.cutAfter last = none) (hk : r.contains k = true) : keyAfter last k = false := by
  cases last with
  | none => cases h
  | some l => simpa [keyAfter] using Range.le_of_after_eq_none h hk

/-! ## Reading ranges in order -/

namespace Table

variable {t : Table} {families : List Bytes}

/-- Whether the scan keeps an entry's column family. -/
def familyAllowed (families : List Bytes) (e : Entry) : Bool :=
  families.isEmpty || families.contains e.key.family

theorem readRanges_cons (last : Option Key) (r : Range) (rest : List Range) :
    t.readRanges families last (r :: rest) =
      match r.cutAfter last with
      | none => t.readRanges families last rest
      | some r' =>
        (t.read r').filter (familyAllowed families) ++
          t.readRanges families
            (match (t.read r').getLast? with
             | some e => some e.key
             | none => last) rest := by
  cases last <;> rfl

/-- Reading a range cut after the last key gives the table's entries of the range after
that key. -/
theorem read_of_cutAfter_eq_some {last : Option Key} {r r' : Range} (h : r.cutAfter last = some r') :
    t.read r' = t.entries.filter fun e => r.contains e.key && keyAfter last e.key :=
  List.filter_congr fun _ _ => contains_of_cutAfter_eq_some h

/-- The step of the invariant: a range that was read up to its last stored entry `m`
joins the entries read after `m` without gap or repeat. -/
theorem filter_read_append (ht : t.Ordered) {last : Option Key} {r : Range} {rest : List Range}
    (hsorted : ∀ s ∈ rest, Range.compareStart r s ≠ .gt) {m : Entry}
    (hm : m ∈ t.entries.filter fun e => r.contains e.key && keyAfter last e.key)
    (hmax : ∀ e ∈ t.entries.filter (fun e => r.contains e.key && keyAfter last e.key), e.key ≤ m.key) :
    (t.entries.filter fun e => r.contains e.key && keyAfter last e.key).filter (familyAllowed families) ++
        t.entries.filter (fun e => familyAllowed families e && keyAfter (some m.key) e.key &&
          rest.any fun s => s.contains e.key) =
      t.entries.filter fun e => familyAllowed families e && keyAfter last e.key &&
        (r :: rest).any fun s => s.contains e.key := by
  obtain ⟨-, hmr, hmlast⟩ : m ∈ t.entries ∧ r.contains m.key = true ∧ keyAfter last m.key = true := by
    simpa using hm
  rw [List.filter_filter]
  refine filter_append_filter_of_split ht m.key ?_ ?_ ?_
  · intro e he hp
    exact hmax e (List.mem_filter.mpr ⟨he, by simp_all⟩)
  · intro e _ hq
    simp only [Bool.and_eq_true, keyAfter, decide_eq_true_eq] at hq
    exact hq.1.2
  · intro e he
    by_cases hle : e.key ≤ m.key
    · -- at or below `m`, a key of a later range is a key of `r`
      have hq : keyAfter (some m.key) e.key = false := by simpa [keyAfter] using hle
      have hcover : (rest.any fun s => s.contains e.key) = true → r.contains e.key = true := by
        intro hany
        obtain ⟨s, hs, hse⟩ := List.any_eq_true.mp hany
        exact Range.contains_of_compareStart (hsorted s hs) hse hmr hle
      cases hre : r.contains e.key <;> cases hany : rest.any fun s => s.contains e.key <;>
        simp_all
    · -- above `m`, the key was not read from `r`, and it is after the last key
      have hlt : m.key < e.key := lt_of_not_ge hle
      have hnot : (r.contains e.key && keyAfter last e.key) = false := by
        by_contra hread
        exact hle (hmax e (List.mem_filter.mpr ⟨he, by simpa using hread⟩))
      have hafter := keyAfter_of_lt hmlast hlt
      have hre : r.contains e.key = false := by simpa [hafter] using hnot
      have hq : keyAfter (some m.key) e.key = true := by simpa [keyAfter] using hlt
      simp [hq, hafter, hre]

/-- Reading sorted ranges after a last key gives the entries above that key in their union
whose family is allowed. -/
theorem readRanges_eq_filter (ht : t.Ordered) (families : List Bytes) :
    ∀ (rs : List Range) (last : Option Key), rs.Pairwise (fun a b => Range.compareStart a b ≠ .gt) →
      t.readRanges families last rs =
        t.entries.filter fun e => familyAllowed families e && keyAfter last e.key &&
          rs.any fun s => s.contains e.key
  | [], last, _ => by simp [readRanges]
  | r :: rest, last, hs => by
    obtain ⟨hr, hrest⟩ := List.pairwise_cons.mp hs
    rw [readRanges_cons]
    cases hcut : r.cutAfter last with
    | none =>
      -- nothing of `r` is left after the last key
      dsimp only
      rw [readRanges_eq_filter ht families rest last hrest]
      refine List.filter_congr fun e _ => ?_
      cases hre : r.contains e.key
      · simp [hre]
      · simp [keyAfter_eq_false_of_cutAfter_eq_none hcut hre]
    | some r' =>
      dsimp only
      rw [read_of_cutAfter_eq_some hcut]
      cases hlast : (t.entries.filter fun e => r.contains e.key && keyAfter last e.key).getLast? with
      | none =>
        -- `r` holds no stored key after the last key
        have hempty := List.getLast?_eq_none_iff.mp hlast
        rw [readRanges_eq_filter ht families rest last hrest, hempty]
        refine List.filter_congr fun e he => ?_
        have hnot : (r.contains e.key && keyAfter last e.key) = false := by
          simpa using List.filter_eq_nil_iff.mp hempty e he
        cases hre : r.contains e.key <;> cases hka : keyAfter last e.key <;> simp_all
      | some m =>
        rw [readRanges_eq_filter ht families rest (some m.key) hrest]
        have hsortedRead := ht.filter fun e => r.contains e.key && keyAfter last e.key
        exact filter_read_append ht hr (List.mem_of_getLast? hlast)
          (le_of_getLast?_eq_some hsortedRead hlast)

/-- A request reads the entries it selects, in table order. -/
theorem readRequest_eq_filter (ht : t.Ordered) (req : Request) :
    t.readRequest req = t.entries.filter req.selects := by
  unfold readRequest
  split
  · rename_i hnil
    rw [readRanges_eq_filter ht req.families _ none (List.pairwise_singleton _ _)]
    refine List.filter_congr fun e _ => ?_
    simp [Request.selects, familyAllowed, keyAfter, hnil, Range.everything, Range.contains,
      Range.beforeStart, Range.afterEnd]
  · rename_i hnil
    rw [readRanges_eq_filter ht req.families _ none (Range.sort_pairwise req.ranges)]
    refine List.filter_congr fun e _ => ?_
    have hany : ((Range.sort req.ranges).any fun s => s.contains e.key) =
        req.ranges.any fun s => s.contains e.key := by
      apply Bool.eq_iff_iff.mpr
      simp only [List.any_eq_true, Range.mem_sort]
    simp [Request.selects, familyAllowed, keyAfter, hnil, hany, Bool.and_comm]

/-- Without stages a scan builds the identity filter and produces what it reads. -/
theorem scan_eq_readRequest (reg : Registry) {req : Request} (hst : req.stages = []) :
    t.scan reg req = { entries := t.readRequest req } := by
  simp [scan, Registry.build, hst, Stage.runOrder, bind, Except.bind, pure, Except.pure, Filter.chain]

/-! ## The scan -/

/-- A scan without stages yields each entry of the table that lies in some range of the
request (every entry when it has none) and whose family the request allows, exactly once
and in strictly increasing key order: its entries are the selected entries in table order. -/
theorem scan_eq_selected_in_key_order (t : Table) (ht : t.Ordered) (reg : Registry) (req : Request)
    (hst : req.stages = []) :
    t.scan reg req = { entries := t.entries.filter req.selects } ∧
      (t.scan reg req).entries.Pairwise fun a b => a.key < b.key := by
  have hscan : t.scan reg req = { entries := t.entries.filter req.selects } := by
    rw [scan_eq_readRequest reg hst, readRequest_eq_filter ht]
  refine ⟨hscan, ?_⟩
  rw [hscan]
  exact ht.filter _

/-- Overlapping, repeated and unsorted ranges over three rows, one family allowed: the scan
gives the two selected entries once each. -/
theorem scan_overlapping_ranges_once :
    Table.Ordered ⟨[⟨Key.ofRow [1], [10]⟩, ⟨{ row := [2], family := [7] }, []⟩, ⟨Key.ofRow [3], []⟩]⟩ ∧
      ([] : List Stage) = [] ∧
      ((Table.scan ⟨[⟨Key.ofRow [1], [10]⟩, ⟨{ row := [2], family := [7] }, []⟩, ⟨Key.ofRow [3], []⟩]⟩ {}
          { ranges := [Range.rowPrefix [2], Range.everything, Range.exactRow [1], Range.rowPrefix [2]],
            families := [[7], []] }) =
        { entries := [⟨Key.ofRow [1], [10]⟩, ⟨{ row := [2], family := [7] }, []⟩, ⟨Key.ofRow [3], []⟩].filter
            (Request.selects { ranges := [Range.rowPrefix [2], Range.everything, Range.exactRow [1],
              Range.rowPrefix [2]], families := [[7], []] }) } ∧
        (Table.scan ⟨[⟨Key.ofRow [1], [10]⟩, ⟨{ row := [2], family := [7] }, []⟩, ⟨Key.ofRow [3], []⟩]⟩ {}
          { ranges := [Range.rowPrefix [2], Range.everything, Range.exactRow [1], Range.rowPrefix [2]],
            families := [[7], []] }).entries.Pairwise fun a b => a.key < b.key) :=
  ⟨by unfold Table.Ordered; decide, rfl, scan_eq_selected_in_key_order _ (by unfold Table.Ordered; decide) {} _ rfl⟩

end Table

end EdgeQuery.Store
