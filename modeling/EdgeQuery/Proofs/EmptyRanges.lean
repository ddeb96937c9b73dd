import EdgeQuery.Proofs.PrefixRanges
/-! # When a range holds no key

`Range.isEmpty` decides from the two ends of a range alone: a range is empty when its start
sorts after its stop, or when the two are one key that one of them leaves out. That test is
sound (`Range.contains_eq_false_of_isEmpty`), but keys are discrete: with 64-bit timestamps
every key has a next one (`Key.successor`), and there is a least key, the first version of
the empty row. So two more kinds of range hold no key although `isEmpty` says they are not
empty: one whose ends are both left out and adjacent (the stop is the start's successor), and
one with no lower end whose stop, left out, is the least key. `Range.gap` names these, and
`Range.holdsNone_iff` shows that a range with 64-bit ends holds no 64-bit key exactly when it
is empty or a gap.

The proof finds, for a range that is neither, a key it holds: its start when the start is
included, else the start's successor; with no lower end, its stop when included, else the
least key. -/

namespace EdgeQuery.Store

namespace Key

/-- The least key: the first version of the empty row. -/
theorem ofRow_nil_le {k : Key} (hk : k.Storable) : ofRow [] ≤ k := by
  rw [ofRow_le_iff [] hk]
  exact Bytes.cmp_nil_left_ne_gt _

theorem ofRow_nil_storable : (ofRow []).Storable := by
  decide

/-- Above a key, the next key comes first. -/
theorem successor_le_of_lt {k j : Key} (hk : k.Storable) (hj : j.Storable) (h : k < j) :
    k.successor ≤ j := by
  obtain ⟨-, -, hnone⟩ := successor_immediate hk
  by_contra hlt
  exact hnone j hj ⟨h, lt_of_not_ge hlt⟩

end Key

namespace Range

variable {r : Range}

/-- Whether a range holds no key although its ends do not cross: its stop, left out, is the
first key its start lets through, that is the successor of a start that is left out, or the
least key when there is no start. -/
def gap (r : Range) : Bool :=
  !r.unboundedStop && !r.stopInclusive &&
    if r.unboundedStart then r.stop == Key.ofRow []
    else !r.startInclusive && r.stop == r.start.successor

/-- A key is in a range when it passes both ends. -/
theorem contains_iff_ends {k : Key} :
    r.contains k = true ↔
      (r.unboundedStart = true ∨ r.start < k ∨ (k = r.start ∧ r.startInclusive = true)) ∧
      (r.unboundedStop = true ∨ k < r.stop ∨ (k = r.stop ∧ r.stopInclusive = true)) := by
  rw [contains_eq_true_iff, beforeStart_eq_false_iff, afterEnd_eq_false_iff]

/-- With both ends bounded, a range that is not empty has its start below its stop, or one
key at both ends, included at both. -/
theorem ends_of_isEmpty_eq_false (hs : r.unboundedStart = false) (ht : r.unboundedStop = false)
    (he : r.isEmpty = false) :
    r.start < r.stop ∨ (r.start = r.stop ∧ r.startInclusive = true ∧ r.stopInclusive = true) := by
  unfold isEmpty at he
  simp only [hs, ht, Bool.or_false, Bool.false_eq_true, ↓reduceIte] at he
  rcases lt_trichotomy r.start r.stop with hlt | heq | hgt
  · exact .inl hlt
  · rw [Key.compare_eq_eq.mpr heq] at he
    simp only [Bool.not_eq_false', Bool.and_eq_true] at he
    exact .inr ⟨heq, he⟩
  · rw [Key.compare_eq_gt.mpr hgt] at he
    cases he

/-- A gap holds no key. -/
theorem contains_eq_false_of_gap (hr : r.Storable) (hg : r.gap = true) {k : Key} (hk : k.Storable) :
    r.contains k = false := by
  unfold gap at hg
  simp only [Bool.and_eq_true, Bool.not_eq_true'] at hg
  obtain ⟨⟨hu, hi⟩, hs⟩ := hg
  by_contra hc
  obtain ⟨hstart, hstop⟩ := contains_iff_ends.mp (Bool.not_eq_false _ |>.mp hc)
  simp only [hu, hi, Bool.false_eq_true, false_or, and_false, or_false] at hstop
  split at hs
  · -- no lower end: the stop is the least key
    have hleast : r.stop = Key.ofRow [] := by simpa using hs
    exact absurd (Key.ofRow_nil_le hk) (not_le_of_gt (hleast ▸ hstop))
  · -- the ends are adjacent: nothing lies strictly between a key and its successor
    rename_i hb
    simp only [Bool.and_eq_true, Bool.not_eq_true', beq_iff_eq] at hs
    obtain ⟨hsi, hsucc⟩ := hs
    simp only [hb, hsi, Bool.false_eq_true, false_or, and_false, or_false] at hstart
    obtain ⟨-, -, hnone⟩ := Key.successor_immediate hr.1
    exact hnone k hk ⟨hstart, hsucc ▸ hstop⟩

/-- A range with a lower end that is neither empty nor a gap holds a key: its start when
included, else the start's successor. -/
theorem exists_contains_of_start (hr : r.Storable) (hs : r.unboundedStart = false)
    (he : r.isEmpty = false) (hg : r.gap = false) : ∃ k, k.Storable ∧ r.contains k = true := by
  obtain ⟨hlt, hsucc, -⟩ := Key.successor_immediate hr.1
  -- the stop lets through any key below it, and a bounded stop lies above the start
  have stop_ok : ∀ k, k ≤ r.start → (r.unboundedStop = true ∨ k < r.stop ∨
      (k = r.stop ∧ r.stopInclusive = true)) := by
    intro k hk
    cases ht : r.unboundedStop
    · rcases ends_of_isEmpty_eq_false hs ht he with hlt' | ⟨heq, -, hti⟩
      · exact .inr (.inl (lt_of_le_of_lt hk hlt'))
      · rcases eq_or_lt_of_le hk with rfl | hk'
        · exact .inr (.inr ⟨heq, hti⟩)
        · exact .inr (.inl (heq ▸ hk'))
    · exact .inl rfl
  cases hi : r.startInclusive
  · -- the start is left out: its successor is in
    refine ⟨r.start.successor, hsucc, contains_iff_ends.mpr ⟨.inr (.inl hlt), ?_⟩⟩
    cases ht : r.unboundedStop
    · have hstop : r.start < r.stop := by
        rcases ends_of_isEmpty_eq_false hs ht he with h | ⟨-, h, -⟩
        · exact h
        · rw [hi] at h
          cases h
      rcases eq_or_lt_of_le (Key.successor_le_of_lt hr.1 hr.2 hstop) with heq | hlt'
      · -- adjacent ends: the stop is included, or the range would be a gap
        refine .inr (.inr ⟨heq, ?_⟩)
        cases hti : r.stopInclusive
        · simp [gap, hs, ht, hi, hti, heq] at hg
        · rfl
      · exact .inr (.inl hlt')
    · exact .inl rfl
  · exact ⟨r.start, hr.1, contains_iff_ends.mpr ⟨.inr (.inr ⟨rfl, hi⟩), stop_ok _ le_rfl⟩⟩

/-- A range without a lower end that is not a gap holds a key: its stop when included, else
the least key. -/
theorem exists_contains_of_unbounded (hr : r.Storable) (hs : r.unboundedStart = true)
    (hg : r.gap = false) : ∃ k, k.Storable ∧ r.contains k = true := by
  cases hti : r.stopInclusive
  · refine ⟨Key.ofRow [], Key.ofRow_nil_storable, contains_iff_ends.mpr ⟨.inl hs, ?_⟩⟩
    cases ht : r.unboundedStop
    · rcases eq_or_lt_of_le (Key.ofRow_nil_le hr.2) with heq | hlt
      · simp [gap, hs, ht, hti, heq] at hg
      · exact .inr (.inl hlt)
    · exact .inl rfl
  · exact ⟨r.stop, hr.2, contains_iff_ends.mpr ⟨.inl hs, .inr (.inr ⟨rfl, hti⟩)⟩⟩

/-- A range with 64-bit ends holds no 64-bit key exactly when `isEmpty` says so or it is a gap:
`isEmpty` never claims a range empty that holds a key, and misses only the gaps, the ranges
whose stop, left out, is the first key their start lets through. -/
theorem holdsNone_iff (hr : r.Storable) :
    (∀ k : Key, k.Storable → r.contains k = false) ↔ (r.isEmpty = true ∨ r.gap = true) := by
  constructor
  · intro hnone
    by_contra hboth
    simp only [not_or, Bool.not_eq_true] at hboth
    obtain ⟨he, hg⟩ := hboth
    obtain ⟨k, hk, hc⟩ := by
      cases hs : r.unboundedStart
      · exact exists_contains_of_start hr hs he hg
      · exact exists_contains_of_unbounded hr hs hg
    rw [hnone k hk] at hc
    cases hc
  · rintro (he | hg) k hk
    · exact contains_eq_false_of_isEmpty he
    · exact contains_eq_false_of_gap hr hg hk

/-- Below the first version of the empty row there is no key, so the range of the keys before
it holds none, although it has no lower end to cross its stop. -/
theorem holdsNone_below_least :
    ({ unboundedStart := true, stop := Key.ofRow [] } : Range).Storable ∧
      ({ unboundedStart := true, stop := Key.ofRow [] } : Range).isEmpty = false ∧
      ∀ k : Key, k.Storable → ({ unboundedStart := true, stop := Key.ofRow [] } : Range).contains k = false :=
  have hr : ({ unboundedStart := true, stop := Key.ofRow [] } : Range).Storable := by decide
  ⟨hr, rfl, (holdsNone_iff hr).mpr (.inr rfl)⟩

/-- The keys strictly between two adjacent versions of a cell: none, though `isEmpty` says
the range is not empty. -/
theorem isEmpty_misses_adjacent_versions :
    ({ start := { row := [1], timestamp := 5 }, stop := { row := [1], timestamp := 4 } } : Range).isEmpty = false ∧
      ∀ k : Key, k.Storable →
        ({ start := { row := [1], timestamp := 5 }, stop := { row := [1], timestamp := 4 } } : Range).contains k =
          false := by
  refine ⟨rfl, fun k hk => ?_⟩
  have hr : ({ start := { row := [1], timestamp := 5 }, stop := { row := [1], timestamp := 4 } } : Range).Storable := by
    decide
  exact contains_eq_false_of_gap hr rfl hk

end Range

end EdgeQuery.Store
