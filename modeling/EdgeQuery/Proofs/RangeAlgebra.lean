import EdgeQuery.Store.Range
import EdgeQuery.Proofs.KeyOrder
import Mathlib.Order.Basic
import Mathlib.Data.List.Chain
/-! # Range algebra

What the tests of a range mean in key order. A key is past a range's start when the start
is unbounded, the key is after the start, or the key is the start and the start is
included; it is before the range's stop in the mirrored way. A range is therefore convex:
the keys it contains between two of its keys are all in it.

`Range.after last` cuts a range to the keys strictly after `last`: when it gives a range,
that range holds exactly those keys of the old one, and when it gives none, every key of
the range is at or below `last`.

Ranges sort by their starts. A range that sorts no later than another has a start that
lets through every key the other's start lets through. Sorting keeps every range of the
list and puts them in that order, and drops a range equal to the one before it. Ranges
that share a start keep their order, so two copies of a range with another range of the
same start between them both stay (`sort_keeps_repeat_apart`): the result is free of
repeats only when no two different ranges share a start. -/

namespace EdgeQuery.Store

namespace Range

variable {r s : Range} {k l : Key}

/-! ## Starts, stops and containment -/

theorem beforeStart_eq_false_iff :
    r.beforeStart k = false ↔
      r.unboundedStart = true ∨ r.start < k ∨ (k = r.start ∧ r.startInclusive = true) := by
  unfold beforeStart
  split
  · simp_all
  · rename_i hb
    have hb : r.unboundedStart = false := by simpa using hb
    rcases lt_trichotomy k r.start with hlt | heq | hgt
    · have : k.compare r.start = .lt := Key.compare_eq_lt.mpr hlt
      simp [this, hb, not_lt_of_gt hlt, ne_of_lt hlt]
    · subst heq
      simp [hb, Std.ReflCmp.compare_self]
    · have : k.compare r.start = .gt := Key.compare_eq_gt.mpr hgt
      simp [this, hgt]

theorem afterEnd_eq_false_iff :
    r.afterEnd k = false ↔
      r.unboundedStop = true ∨ k < r.stop ∨ (k = r.stop ∧ r.stopInclusive = true) := by
  unfold afterEnd
  split
  · simp_all
  · rename_i hb
    have hb : r.unboundedStop = false := by simpa using hb
    rcases lt_trichotomy k r.stop with hlt | heq | hgt
    · have : k.compare r.stop = .lt := Key.compare_eq_lt.mpr hlt
      simp [this, hlt]
    · subst heq
      simp [hb, Std.ReflCmp.compare_self]
    · have : k.compare r.stop = .gt := Key.compare_eq_gt.mpr hgt
      simp [this, hb, not_lt_of_gt hgt, ne_of_gt hgt]

theorem contains_eq_true_iff :
    r.contains k = true ↔ r.beforeStart k = false ∧ r.afterEnd k = false := by
  simp [contains]

/-- Passing the start is kept by going up. -/
theorem beforeStart_false_of_le {a b : Key} (ha : r.beforeStart a = false) (hab : a ≤ b) :
    r.beforeStart b = false := by
  rw [beforeStart_eq_false_iff] at ha ⊢
  rcases ha with hu | hlt | ⟨rfl, hinc⟩
  · exact Or.inl hu
  · exact Or.inr (Or.inl (lt_of_lt_of_le hlt hab))
  · rcases eq_or_lt_of_le hab with rfl | hlt
    · exact Or.inr (Or.inr ⟨rfl, hinc⟩)
    · exact Or.inr (Or.inl hlt)

/-- Being within the stop is kept by going down. -/
theorem afterEnd_false_of_le {a b : Key} (hb : r.afterEnd b = false) (hab : a ≤ b) :
    r.afterEnd a = false := by
  rw [afterEnd_eq_false_iff] at hb ⊢
  rcases hb with hu | hlt | ⟨rfl, hinc⟩
  · exact Or.inl hu
  · exact Or.inr (Or.inl (lt_of_le_of_lt hab hlt))
  · rcases eq_or_lt_of_le hab with rfl | hlt
    · exact Or.inr (Or.inr ⟨rfl, hinc⟩)
    · exact Or.inr (Or.inl hlt)

/-- A key in a bounded range lies between its ends, so the start is below the stop, or the
two ends are one included key. -/
theorem ends_of_contains (hs : r.unboundedStart = false) (ht : r.unboundedStop = false)
    (h : r.contains k = true) :
    r.start < r.stop ∨ (r.start = r.stop ∧ r.startInclusive = true ∧ r.stopInclusive = true) := by
  obtain ⟨hks, hkt⟩ := contains_eq_true_iff.mp h
  rw [beforeStart_eq_false_iff, hs] at hks
  rw [afterEnd_eq_false_iff, ht] at hkt
  rcases hks with h1 | h1 | ⟨rfl, hi1⟩ <;> rcases hkt with h2 | h2 | ⟨h2, hi2⟩
  all_goals grind

/-- A range that holds a key is not reported empty. -/
theorem isEmpty_eq_false_of_contains (h : r.contains k = true) : r.isEmpty = false := by
  unfold isEmpty
  split
  · rfl
  · rename_i hb
    simp only [Bool.or_eq_true, not_or, Bool.not_eq_true] at hb
    rcases ends_of_contains hb.1 hb.2 h with hlt | ⟨heq, hi1, hi2⟩
    · simp [Key.compare_eq_lt.mpr hlt]
    · simp [Key.compare_eq_eq.mpr heq, hi1, hi2]

/-- A range whose test says it is empty contains no key. -/
theorem contains_eq_false_of_isEmpty (h : r.isEmpty = true) : r.contains k = false := by
  by_contra hk
  rw [isEmpty_eq_false_of_contains (Bool.not_eq_false _ |>.mp hk)] at h
  exact Bool.false_ne_true h

/-! ## Cutting a range after a key -/

/-- The range `after` makes when `last` is in or past the start: the old stop, and the
start `last` excluded. It holds the old range's keys after `last`. -/
theorem contains_cut (hl : r.beforeStart l = false) :
    ({ r with start := l, startInclusive := false, unboundedStart := false } : Range).contains k =
      (r.contains k && decide (l < k)) := by
  have hend : ({ r with start := l, startInclusive := false, unboundedStart := false } : Range).afterEnd k =
      r.afterEnd k := rfl
  by_cases hlk : l < k
  · have hk : r.beforeStart k = false := beforeStart_false_of_le hl (le_of_lt hlk)
    have hcut : ({ r with start := l, startInclusive := false, unboundedStart := false } : Range).beforeStart k = false :=
      beforeStart_eq_false_iff.mpr (Or.inr (Or.inl hlk))
    simp only [contains, hend, hcut, hk, hlk, decide_true, Bool.not_false, Bool.true_and, Bool.and_true]
  · have hcut : ({ r with start := l, startInclusive := false, unboundedStart := false } : Range).beforeStart k = true := by
      cases hb : ({ r with start := l, startInclusive := false, unboundedStart := false } : Range).beforeStart k
      · rw [beforeStart_eq_false_iff] at hb
        simp at hb
        exact absurd hb hlk
      · rfl
    simp [contains, hcut, hlk]

/-- When `after` gives a range, it holds exactly the keys of the old range after `last`. -/
theorem contains_of_after_eq_some {r' : Range} (h : r.after l = some r') :
    r'.contains k = (r.contains k && decide (l < k)) := by
  cases hend : r.afterEnd l
  · cases hbefore : r.beforeStart l
    · have hr' : r' = { r with start := l, startInclusive := false, unboundedStart := false } := by
        simp only [after, hend, hbefore, Bool.false_eq_true, if_false] at h
        split at h
        · cases h
        · exact (Option.some.inj h).symm
      subst hr'
      exact contains_cut hbefore
    · have hr' : r' = r := by simpa [after, hend, hbefore] using h.symm
      subst hr'
      -- `last` is before the range, so every key of the range is after it
      cases hk : r'.contains k
      · rfl
      · obtain ⟨hks, -⟩ := contains_eq_true_iff.mp hk
        have hl : ¬(r'.beforeStart l = false) := by simp [hbefore]
        rw [beforeStart_eq_false_iff] at hks hl
        have : l < k := by grind
        simp [this]
  · simp [after, hend] at h

/-- When `after` gives none, every key of the range is at or below `last`. -/
theorem le_of_after_eq_none (h : r.after l = none) (hk : r.contains k = true) : k ≤ l := by
  obtain ⟨-, hkt⟩ := contains_eq_true_iff.mp hk
  by_contra hkl
  have hlk : l < k := lt_of_not_ge hkl
  cases hend : r.afterEnd l
  · cases hbefore : r.beforeStart l
    · -- the cut range holds `k`, so it is not empty and `after` gives it
      have hcut := contains_cut (k := k) hbefore
      simp only [hk, hlk, decide_true, Bool.and_true] at hcut
      have hne := isEmpty_eq_false_of_contains hcut
      simp [after, hend, hbefore, hne] at h
    · simp [after, hend, hbefore] at h
  · -- a key above `last` would put `last` within the stop too
    have := afterEnd_false_of_le hkt (le_of_lt hlk)
    rw [this] at hend
    cases hend

/-- `after` is exact, whatever the bounds of the range and wherever `last` falls: the range
it gives holds exactly the keys of `r` strictly after `last`, and when it gives none, `r`
holds no key after `last`. -/
theorem after_exact (r : Range) (last : Key) :
    (∀ rest, r.after last = some rest →
      ∀ k, rest.contains k = true ↔ r.contains k = true ∧ last < k) ∧
    (r.after last = none → ∀ k, ¬ (r.contains k = true ∧ last < k)) := by
  refine ⟨fun rest h k => ?_, fun h k ⟨hk, hlt⟩ => ?_⟩
  · rw [contains_of_after_eq_some h]
    simp
  · exact absurd (le_of_after_eq_none h hk) (not_le_of_gt hlt)

/-- Cutting the keys of row `01` after the row's first key, its start: the start becomes
excluded, and an older version of the row's first cell stays in. -/
theorem after_first_key_of_row :
    (exactRow [1]).after (Key.ofRow [1]) = some { exactRow [1] with startInclusive := false } ∧
      (({ exactRow [1] with startInclusive := false } : Range).contains { row := [1] } = true ↔
        (exactRow [1]).contains { row := [1] } = true ∧ Key.ofRow [1] < { row := [1] }) :=
  have h : (exactRow [1]).after (Key.ofRow [1]) =
      some { exactRow [1] with startInclusive := false } := by decide
  ⟨h, (after_exact _ _).1 _ h _⟩

/-! ## Range order -/

/-- One range sorts no later than another: an unbounded start comes first, then the
lower start key, then an included start. -/
theorem compareStart_ne_gt_iff {a b : Range} :
    compareStart a b ≠ .gt ↔
      a.unboundedStart = true ∨
        (b.unboundedStart = false ∧ (a.start < b.start ∨
          (a.start = b.start ∧ (a.startInclusive = true ∨ b.startInclusive = false)))) := by
  unfold compareStart
  split
  · simp_all
  · simp_all
  · simp_all
  · rename_i ha hb
    simp only [ha, hb, Bool.false_eq_true, false_or, true_and]
    rcases lt_trichotomy a.start b.start with hlt | heq | hgt
    · simp [Key.compare_eq_lt.mpr hlt, hlt]
    · -- equal start keys: an included start sorts first
      have hincl : compare true false = Ordering.gt := rfl
      rw [Key.compare_eq_eq.mpr heq]
      cases a.startInclusive <;> cases b.startInclusive <;> simp [heq, hincl]
    · simp [Key.compare_eq_gt.mpr hgt, not_lt_of_gt hgt, ne_of_gt hgt]

/-- A start that sorts no later lets through every key a later start lets through. -/
theorem beforeStart_false_of_compareStart {a b : Range} (hab : compareStart a b ≠ .gt)
    (hb : b.beforeStart k = false) : a.beforeStart k = false := by
  rw [compareStart_ne_gt_iff] at hab
  rw [beforeStart_eq_false_iff] at hb ⊢
  grind

/-- A range holds every key of a range that sorts no later, up to a key it holds: from
its start up to that key it is convex. -/
theorem contains_of_compareStart {a b : Range} {m : Key} (hab : compareStart a b ≠ .gt)
    (hk : b.contains k = true) (hm : a.contains m = true) (hkm : k ≤ m) : a.contains k = true := by
  obtain ⟨hbk, -⟩ := contains_eq_true_iff.mp hk
  obtain ⟨-, ham⟩ := contains_eq_true_iff.mp hm
  exact contains_eq_true_iff.mpr
    ⟨beforeStart_false_of_compareStart hab hbk, afterEnd_false_of_le ham hkm⟩

theorem compareStart_trans {a b c : Range} (hab : (compareStart a b != .gt) = true)
    (hbc : (compareStart b c != .gt) = true) : (compareStart a c != .gt) = true := by
  simp only [bne_iff_ne, ne_eq] at hab hbc ⊢
  rw [← ne_eq, compareStart_ne_gt_iff] at hab hbc ⊢
  grind

theorem compareStart_total (a b : Range) :
    ((compareStart a b != .gt) || (compareStart b a != .gt)) = true := by
  simp only [Bool.or_eq_true, bne_iff_ne, ne_eq]
  rw [← ne_eq, ← ne_eq, compareStart_ne_gt_iff, compareStart_ne_gt_iff]
  rcases lt_trichotomy a.start b.start with hlt | heq | hgt <;>
    cases a.unboundedStart <;> cases b.unboundedStart <;>
    cases a.startInclusive <;> cases b.startInclusive <;> simp_all

/-! ## Sorting -/

theorem dropRepeats_sublist (rs : List Range) : (dropRepeats rs).Sublist rs := by
  fun_induction dropRepeats rs with
  | case1 b rest ih => exact ih.cons b
  | case2 a b rest _ ih => exact ih.cons_cons a
  | case3 rs => exact List.Sublist.refl rs

theorem mem_dropRepeats {rs : List Range} : r ∈ dropRepeats rs ↔ r ∈ rs := by
  fun_induction dropRepeats rs with
  | case1 b rest ih =>
    -- the dropped range equals the next one, which stays
    rw [ih]
    simp
  | case2 a b rest _ ih => simp [ih]
  | case3 rs => rfl

@[simp] theorem mem_sort {rs : List Range} : r ∈ sort rs ↔ r ∈ rs := by
  simp [sort, mem_dropRepeats]

/-- Sorted ranges come in the order of their starts. -/
theorem sort_pairwise (rs : List Range) :
    (sort rs).Pairwise fun a b => compareStart a b ≠ .gt := by
  have hsorted : (rs.mergeSort fun a b => compareStart a b != .gt).Pairwise
      fun a b => (compareStart a b != .gt) = true :=
    List.pairwise_mergeSort (fun a b c => @compareStart_trans a b c) compareStart_total rs
  have hsub := hsorted.sublist (dropRepeats_sublist _)
  simpa [sort] using hsub

theorem compareStart_swap (a b : Range) : compareStart b a = (compareStart a b).swap := by
  unfold compareStart
  have hkey : b.start.compare a.start = (a.start.compare b.start).swap := Std.OrientedCmp.eq_swap
  cases a.unboundedStart <;> cases b.unboundedStart
  case false.false =>
    -- both starts bounded: the keys, then the inclusions, compare the other way round
    rw [Ordering.swap_then, ← hkey]
    cases a.startInclusive <;> cases b.startInclusive <;> rfl
  all_goals rfl

@[simp] theorem compareStart_self (a : Range) : compareStart a a = .eq := by
  unfold compareStart
  cases a.unboundedStart <;> simp [Key.compare_eq_eq.mpr rfl]

/-- One range strictly before another: the second does not sort no later than the first. -/
theorem compareStart_eq_lt_iff {a b : Range} :
    compareStart a b = .lt ↔ ¬ (compareStart b a != .gt) = true := by
  rw [compareStart_swap]
  cases compareStart b a <;> decide

theorem compareStart_lt_trans {a b c : Range} (hab : compareStart a b = .lt)
    (hbc : compareStart b c = .lt) : compareStart a c = .lt := by
  rw [compareStart_eq_lt_iff] at hab hbc ⊢
  intro hca
  -- `a` sorts no later than `b`, since `b` does not sort no later than `a`
  have hab' : (compareStart a b != .gt) = true := by
    have := compareStart_total a b
    simp only [Bool.or_eq_true] at this
    exact this.resolve_right hab
  exact hbc (compareStart_trans hca hab')

/-- Dropping repeats keeps the first range. -/
theorem head_dropRepeats (b : Range) (rest : List Range) : ∃ t, dropRepeats (b :: rest) = b :: t := by
  induction rest generalizing b with
  | nil => exact ⟨[], rfl⟩
  | cons c rest ih =>
    by_cases hbc : b = c
    · subst hbc
      obtain ⟨t, ht⟩ := ih b
      exact ⟨t, by rw [dropRepeats, if_pos rfl, ht]⟩
    · exact ⟨_, by rw [dropRepeats, if_neg hbc]⟩

/-- After dropping repeats no range is next to an equal one. -/
theorem dropRepeats_isChain (rs : List Range) : (dropRepeats rs).IsChain (· ≠ ·) := by
  fun_induction dropRepeats rs with
  | case1 b rest ih => exact ih
  | case2 a b rest hab ih =>
    -- the range after `a` is `b`, the first one kept of the rest
    obtain ⟨t, ht⟩ := head_dropRepeats b rest
    rw [ht] at ih ⊢
    exact List.isChain_cons_cons.2 ⟨hab, ih⟩
  | case3 rs hshort =>
    rcases rs with _ | ⟨a, _ | ⟨b, rest⟩⟩
    · exact .nil
    · exact .singleton a
    · exact absurd rfl (hshort a b rest)

theorem sort_isChain (rs : List Range) : (sort rs).IsChain (· ≠ ·) := dropRepeats_isChain _

/-- In a sorted list whose neighbours differ, neighbours with one start are equal only if
they are the same range; so when ties are equal ranges, the starts increase strictly. -/
theorem isChain_lt_of_sorted {xs : List Range} (hs : xs.Pairwise fun a b => compareStart a b ≠ .gt)
    (hc : xs.IsChain (· ≠ ·)) (h : ∀ a ∈ xs, ∀ b ∈ xs, compareStart a b = .eq → a = b) :
    xs.IsChain fun a b => compareStart a b = .lt := by
  induction hc with
  | nil => exact .nil
  | singleton a => exact .singleton a
  | @cons_cons a b l hab _ ih =>
    refine List.isChain_cons_cons.2 ⟨?_, ih hs.of_cons fun x hx y hy => h x (.tail _ hx) y (.tail _ hy)⟩
    have hle : compareStart a b ≠ .gt := List.rel_of_pairwise_cons hs List.mem_cons_self
    have hne : compareStart a b ≠ .eq := fun heq =>
      hab (h a List.mem_cons_self b (.tail _ List.mem_cons_self) heq)
    cases hcmp : compareStart a b
    · rfl
    · exact absurd hcmp hne
    · exact absurd hcmp hle

/-- When the only ranges of a list that share a start are equal, sorting drops every repeat. -/
theorem sort_nodup_of_starts_distinct {rs : List Range}
    (h : ∀ a ∈ rs, ∀ b ∈ rs, compareStart a b = .eq → a = b) : (sort rs).Nodup := by
  have hchain := isChain_lt_of_sorted (sort_pairwise rs) (sort_isChain rs)
    fun a ha b hb => h a (mem_sort.1 ha) b (mem_sort.1 hb)
  have htrans : Trans (fun a b : Range => compareStart a b = .lt) (fun a b => compareStart a b = .lt)
      (fun a b => compareStart a b = .lt) := ⟨compareStart_lt_trans⟩
  refine (hchain.pairwise).imp fun hab heq => ?_
  subst heq
  simp at hab

/-- Sorting keeps exactly the ranges of the list, in the order of their starts, with no range
next to an equal one; and no repeat at all when the only ranges that share a start are equal. -/
theorem sort_orders_and_drops_neighbour_repeats (rs : List Range) :
    (sort rs).Pairwise (fun a b => compareStart a b ≠ .gt) ∧ (∀ r, r ∈ sort rs ↔ r ∈ rs) ∧
      (sort rs).IsChain (· ≠ ·) ∧
      ((∀ a ∈ rs, ∀ b ∈ rs, compareStart a b = .eq → a = b) → (sort rs).Nodup) :=
  ⟨sort_pairwise rs, fun _ => mem_sort, sort_isChain rs, sort_nodup_of_starts_distinct⟩

/-- An exact row and the prefix of the same row start at one key: between them, the two
copies of the exact row are not neighbours, and sorting keeps both. -/
theorem sort_keeps_repeat_apart :
    sort [exactRow [120], rowPrefix [120], exactRow [120]] =
        [exactRow [120], rowPrefix [120], exactRow [120]] ∧
      ¬ (sort [exactRow [120], rowPrefix [120], exactRow [120]]).Nodup := by
  have hsorted : [exactRow [120], rowPrefix [120], exactRow [120]].Pairwise
      fun a b => (compareStart a b != .gt) = true := by decide
  have hsort : sort [exactRow [120], rowPrefix [120], exactRow [120]] =
      [exactRow [120], rowPrefix [120], exactRow [120]] := by
    rw [sort, List.mergeSort_of_pairwise hsorted]
    decide
  rw [hsort]
  exact ⟨rfl, by decide⟩

end Range

end EdgeQuery.Store
