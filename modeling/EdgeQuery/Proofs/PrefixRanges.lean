import EdgeQuery.Proofs.RangeAlgebra
import EdgeQuery.Proofs.KeyBytes
/-! # Prefix ranges

The ranges built for a prefix of a key hold exactly the keys their names promise, for every
64-bit key (`Key.Storable`):

* `k.following p` is the least key above every key that agrees with `k` on the prefix `p`:
  a key sorts below it exactly when its components in `p` are at most `k`'s
  (`Key.lt_following_iff`);
* `Range.ofPrefix k p` holds the keys that agree with `k` on `p`, `Range.exactRow r` the
  keys of row `r`, and `Range.rowPrefix s` the keys whose rows start with `s`, also when `s`
  is empty or ends in `FF` bytes;
* `k.successor` is the next key after `k`, also when `k` has the oldest timestamp
  (`Key.successor_immediate`).

Every bound these constructors build is a key with the newest timestamp, the least 64-bit key
of its cell, so each statement comes down to byte strings (`Key.lt_floor_iff`,
`Key.floor_le_iff`): a zero byte appended to a text gives the least text above it and all its
extensions (`Bytes.cmp_append_zero_eq_lt`), and the texts from a prefix `p` up to
`prefixEnd p` are those that start with `p` (`Bytes.cmp_between_append`,
`Bytes.cmp_between_succ`). Main statement: `Range.prefix_ranges_exact`. -/

namespace EdgeQuery.Bytes

@[simp] theorem cmp_nil_right_ne_lt (x : Bytes) : Bytes.cmp x [] ≠ .lt := by
  cases x <;> simp [Bytes.cmp]

@[simp] theorem cmp_nil_left_ne_gt (x : Bytes) : Bytes.cmp [] x ≠ .gt := by
  cases x <;> simp [Bytes.cmp]

@[simp] theorem cmp_nil_left_eq_lt (x : Bytes) : Bytes.cmp [] x = .lt ↔ x ≠ [] := by
  cases x <;> simp [Bytes.cmp]

theorem cmp_swap (a b : Bytes) : Bytes.cmp b a = (Bytes.cmp a b).swap := by
  unfold Bytes.cmp
  exact Std.OrientedCmp.eq_swap

@[simp] theorem cmp_eq_eq {a b : Bytes} : Bytes.cmp a b = .eq ↔ a = b := by
  unfold Bytes.cmp
  exact Std.LawfulEqCmp.compare_eq_iff_eq

@[simp] theorem cmp_self (a : Bytes) : Bytes.cmp a a = .eq := cmp_eq_eq.2 rfl

theorem cmp_ne_gt_iff {a b : Bytes} : Bytes.cmp a b ≠ .gt ↔ Bytes.cmp a b = .lt ∨ a = b := by
  rw [← cmp_eq_eq]
  cases Bytes.cmp a b <;> decide

@[simp] theorem cmp_cons_nil (a : UInt8) (x : Bytes) : Bytes.cmp (a :: x) [] = .gt := rfl

@[simp] theorem cmp_nil_cons (a : UInt8) (x : Bytes) : Bytes.cmp [] (a :: x) = .lt := rfl

theorem cmp_cons_cons (a b : UInt8) (x y : Bytes) :
    Bytes.cmp (a :: x) (b :: y) = (Ord.compare a b).then (Bytes.cmp x y) :=
  List.compare_cons_cons

/-- A zero byte appended to a text gives the least text above it and all its extensions. -/
theorem cmp_append_zero_eq_lt (x y : Bytes) :
    Bytes.cmp x (y ++ [0]) = .lt ↔ Bytes.cmp x y ≠ .gt := by
  induction y generalizing x with
  | nil =>
    cases x with
    | nil => simp [Bytes.cmp]
    | cons a x =>
      rw [List.nil_append, cmp_cons_cons]
      simp [compare_uint8, Ordering.then_eq_lt, Nat.compare_eq_lt]
  | cons b y ih =>
    cases x with
    | nil => simp
    | cons a x =>
      rw [List.cons_append, cmp_cons_cons, cmp_cons_cons]
      rcases compare a b <;> simp [ih]

/-- Texts between two texts with a common part `q` are that part followed by texts between
what follows it. -/
theorem cmp_between_append (q s t x : Bytes) :
    (Bytes.cmp (q ++ s) x ≠ .gt ∧ Bytes.cmp x (q ++ t) = .lt) ↔
      ∃ x', x = q ++ x' ∧ Bytes.cmp s x' ≠ .gt ∧ Bytes.cmp x' t = .lt := by
  induction q generalizing x with
  | nil => simp
  | cons c q ih =>
    cases x with
    | nil => simp
    | cons a x =>
      rw [List.cons_append, List.cons_append, cmp_cons_cons, cmp_cons_cons,
        show Ord.compare a c = (Ord.compare c a).swap from Std.OrientedCmp.eq_swap]
      -- a first byte other than `c` puts `x` outside the bounds, and `x` does not start with `q`
      rcases h : Ord.compare c a
      · simp
        rintro _ rfl
        simp [Std.ReflCmp.compare_self] at h
      · have hca : c = a := Std.LawfulEqCmp.eq_of_compare h
        subst hca
        simp [ih]
      · simp
        rintro _ rfl
        simp [Std.ReflCmp.compare_self] at h

/-- No text sorts below a run of `FF` bytes but those that start with it. -/
theorem cmp_replicate_ff_ne_gt (m : Nat) (x : Bytes) :
    Bytes.cmp (List.replicate m 0xFF) x ≠ .gt ↔ List.replicate m 0xFF <+: x := by
  induction m generalizing x with
  | zero => simp
  | succ m ih =>
    cases x with
    | nil => simp [List.replicate_succ]
    | cons a x =>
      rw [List.replicate_succ, cmp_cons_cons, List.cons_prefix_cons, ← ih x]
      have ha := a.toNat_lt
      rcases Nat.lt_or_ge a.toNat 255 with hlt | hge
      · have hne : (0xFF : UInt8) ≠ a := fun h => by subst h; simp at hlt
        have : Ord.compare (0xFF : UInt8) a = .gt := by
          rw [compare_uint8, Nat.compare_eq_gt]
          simpa using hlt
        simp [this, hne]
      · have hff : a = 0xFF := UInt8.toNat_inj.1 (by simp; omega)
        subst hff
        simp [Std.ReflCmp.compare_self]

/-- The texts at or above `b FF…FF` and below `b + 1` are those that start with `b FF…FF`. -/
theorem cmp_between_succ {b : UInt8} (hb : b ≠ 0xFF) (m : Nat) (x : Bytes) :
    (Bytes.cmp (b :: List.replicate m 0xFF) x ≠ .gt ∧ Bytes.cmp x [b + 1] = .lt) ↔
      b :: List.replicate m 0xFF <+: x := by
  cases x with
  | nil => simp
  | cons a x =>
    have hb' : b.toNat < 255 := by
      have := b.toNat_lt
      have : b.toNat ≠ 255 := fun h => hb (UInt8.toNat_inj.1 (by simpa using h))
      omega
    have hsucc : (b + 1).toNat = b.toNat + 1 := by
      rw [UInt8.toNat_add]
      simp
      omega
    rw [cmp_cons_cons, cmp_cons_cons, List.cons_prefix_cons, ← cmp_replicate_ff_ne_gt]
    rw [compare_uint8, compare_uint8, hsucc]
    rcases Nat.lt_trichotomy a.toNat b.toNat with h | h | h
    · have hne : b ≠ a := fun e => by subst e; omega
      simp [Nat.compare_eq_gt.2 h, hne]
    · have hab : a = b := UInt8.toNat_inj.1 h
      subst hab
      simp [Nat.compare_eq_lt.2 (Nat.lt_succ_self _)]
    · -- above `b`, `x` is at or above `b + 1`
      have hne : b ≠ a := fun e => by subst e; omega
      have hge : ¬ a.toNat < b.toNat + 1 := by omega
      simp [Ordering.then_eq_lt, Nat.compare_eq_lt, hge, hne]

end EdgeQuery.Bytes

namespace EdgeQuery.Store

namespace Key

theorem then_ne_gt_iff {o t : Ordering} : o.then t ≠ .gt ↔ o = .lt ∨ (o = .eq ∧ t ≠ .gt) := by
  cases o <;> cases t <;> decide

/-- How the components of `j` that a prefix takes compare with those of `k`,
lexicographically. -/
def comparePrefix (j k : Key) : Part → Ordering
  | .row => Bytes.cmp j.row k.row
  | .family => (Bytes.cmp j.row k.row).then (Bytes.cmp j.family k.family)
  | .qualifier =>
    (Bytes.cmp j.row k.row).then ((Bytes.cmp j.family k.family).then
      (Bytes.cmp j.qualifier k.qualifier))
  | .visibility =>
    (Bytes.cmp j.row k.row).then ((Bytes.cmp j.family k.family).then
      ((Bytes.cmp j.qualifier k.qualifier).then (Bytes.cmp j.visibility k.visibility)))

@[simp] theorem comparePrefix_self (k : Key) (p : Part) : k.comparePrefix k p = .eq := by
  cases p <;> simp [comparePrefix]

theorem comparePrefix_swap (j k : Key) (p : Part) :
    k.comparePrefix j p = (j.comparePrefix k p).swap := by
  cases p <;> simp [comparePrefix, Bytes.cmp_swap j.row, Bytes.cmp_swap j.family,
    Bytes.cmp_swap j.qualifier, Bytes.cmp_swap j.visibility, Ordering.swap_then]

theorem comparePrefix_eq_eq (j k : Key) (p : Part) :
    j.comparePrefix k p = .eq ↔ j.equalUpTo k (some p) = true := by
  cases p <;> simp [comparePrefix, equalUpTo, and_assoc]

/-- Keys compare by their cell, then newer timestamps first. -/
theorem compare_eq_then (j k : Key) :
    j.compare k = (j.comparePrefix k .visibility).then (Ord.compare k.timestamp j.timestamp) := by
  simp [Key.compare, comparePrefix, Ordering.then_assoc]

/-- A key is below another when its cell is, or when it is a newer version of the same cell. -/
theorem lt_iff_comparePrefix {k j : Key} :
    k < j ↔ (k.comparePrefix j .visibility = .lt ∨
      (k.comparePrefix j .visibility = .eq ∧ j.timestamp < k.timestamp)) := by
  rw [lt_iff_compare, compare_eq_then, Ordering.then_eq_lt, Int.compare_eq_lt]

/-! ## Floor keys

A key with the newest timestamp is the least 64-bit key of its cell, so a 64-bit key compares
with it as its cell does. -/

section Floor

variable {j x : Key}

theorem lt_floor_iff (hx : x.timestamp = maxTimestamp) (hj : j.timestamp ≤ maxTimestamp) :
    j < x ↔ j.comparePrefix x .visibility = .lt := by
  have hts : Ord.compare x.timestamp j.timestamp ≠ .lt := by
    rw [hx, ne_eq, Int.compare_eq_lt]
    omega
  rw [lt_iff_compare, compare_eq_then, Ordering.then_eq_lt]
  simp [hts]

theorem floor_le_iff (hx : x.timestamp = maxTimestamp) (hj : j.timestamp ≤ maxTimestamp) :
    x ≤ j ↔ x.comparePrefix j .visibility ≠ .gt := by
  have hts : (Ord.compare j.timestamp x.timestamp).isLE := by
    rw [hx, Int.isLE_compare]
    exact hj
  rw [le_iff_compare, compare_eq_then, Ordering.isLE_then_iff_or]
  cases x.comparePrefix j .visibility <;> simp [hts]

end Floor

theorem following_timestamp (k : Key) (p : Part) : (k.following p).timestamp = maxTimestamp := by
  cases p <;> rfl

theorem truncate_start_timestamp (k : Key) (p : Part) :
    (k.start.truncate p).timestamp = maxTimestamp := by
  cases p <;> rfl

/-! ## The bounds of a prefix -/

/-- A key sorts below `k.following p` exactly when its components in the prefix `p` are at
most `k`'s. -/
theorem lt_following_iff (k : Key) (p : Part) {j : Key} (hj : j.Storable) :
    j < k.following p ↔ j.comparePrefix k p ≠ .gt := by
  rw [lt_floor_iff (following_timestamp k p) hj.bounds.2]
  cases p <;> simp [comparePrefix, following, Ordering.then_eq_lt, then_ne_gt_iff,
    Bytes.cmp_append_zero_eq_lt]

/-- A key sorts at or above the first key of `k`'s prefix `p` exactly when its components
in the prefix are at least `k`'s. -/
theorem truncate_le_iff (k : Key) (p : Part) {j : Key} (hj : j.Storable) :
    k.start.truncate p ≤ j ↔ k.comparePrefix j p ≠ .gt := by
  rw [floor_le_iff (truncate_start_timestamp k p) hj.bounds.2]
  cases p <;> simp [comparePrefix, truncate, start, then_ne_gt_iff, Bytes.cmp_ne_gt_iff,
    Decidable.not_or_self]

theorem ofRow_le_iff (r : Bytes) {j : Key} (hj : j.Storable) :
    ofRow r ≤ j ↔ Bytes.cmp r j.row ≠ .gt :=
  truncate_le_iff (ofRow r) .row hj

theorem lt_ofRow_iff (r : Bytes) {j : Key} (hj : j.Storable) :
    j < ofRow r ↔ Bytes.cmp j.row r = .lt := by
  rw [lt_floor_iff rfl hj.bounds.2]
  simp [comparePrefix, ofRow, Ordering.then_eq_lt]

/-! ## The next key -/

/-- `successor` is the next key: it sorts after `k`, is a 64-bit key again, and no 64-bit key
lies strictly between them, also when `k` has the oldest timestamp. -/
theorem successor_immediate {k : Key} (hk : k.Storable) :
    k < k.successor ∧ k.successor.Storable ∧
      ∀ j : Key, j.Storable → ¬ (k < j ∧ j < k.successor) := by
  have hb := hk.bounds
  unfold successor
  split
  · -- the oldest version: the successor is the first key after the whole cell
    refine ⟨?_, ?_, ?_⟩
    · rw [lt_following_iff k .visibility hk, comparePrefix_self]
      decide
    · unfold Storable
      rw [following_timestamp]
      decide
    · rintro j hj ⟨hkj, hjs⟩
      rw [lt_following_iff k .visibility hj] at hjs
      rw [lt_iff_comparePrefix, comparePrefix_swap, Ordering.swap_eq_lt] at hkj
      rcases hkj with hgt | ⟨-, hts⟩
      · -- a key past `k`'s cell is past the next cell too
        exact hjs hgt
      · -- in `k`'s cell, `j` would be older than the oldest timestamp
        have := hj.bounds.1
        omega
  · -- otherwise the successor is the next older version of the same cell
    rename_i hmin
    have hsame : ∀ j : Key, j.comparePrefix { k with timestamp := k.timestamp - 1 } .visibility =
        j.comparePrefix k .visibility := fun j => rfl
    refine ⟨?_, ?_, ?_⟩
    · have hcell : k.comparePrefix { k with timestamp := k.timestamp - 1 } .visibility = .eq :=
        comparePrefix_self k .visibility
      rw [lt_iff_comparePrefix, hcell]
      simp
    · unfold Storable
      simp only [minTimestamp, maxTimestamp] at hb hmin ⊢
      omega
    · rintro j - ⟨hkj, hjs⟩
      rw [lt_iff_comparePrefix, comparePrefix_swap, Ordering.swap_eq_lt, Ordering.swap_eq_eq] at hkj
      rw [lt_iff_comparePrefix, hsame] at hjs
      rcases hkj with hgt | ⟨hcell, hts⟩
      · -- a key past `k`'s cell is past the successor too
        rw [hgt] at hjs
        simp at hjs
      · -- in `k`'s cell, no timestamp lies strictly between `t - 1` and `t`
        rw [hcell] at hjs
        have hts' : k.timestamp - 1 < j.timestamp := by simpa using hjs
        omega

end Key

namespace Range

/-! ## The end of a row prefix -/

/-- `prefixEnd` increases the last byte below `FF` and drops the `FF` bytes after it. -/
theorem prefixEnd_eq_some {p e : Bytes} (h : prefixEnd p = some e) :
    ∃ q b m, p = q ++ b :: List.replicate m 0xFF ∧ b ≠ 0xFF ∧ e = q ++ [b + 1] := by
  unfold prefixEnd at h
  split at h
  · cases h
  · rename_i b rest hdrop
    cases h
    -- the bytes dropped from the end of `p` are all `FF`
    obtain ⟨m, hm⟩ : ∃ m, p.reverse.takeWhile (· = 0xFF) = List.replicate m 0xFF := by
      refine ⟨_, List.eq_replicate_iff.2 ⟨rfl, fun x hx => ?_⟩⟩
      simpa using List.mem_takeWhile_imp hx
    have hb : b ≠ 0xFF := by
      have := List.head_dropWhile_not (fun x : UInt8 => decide (x = 0xFF)) (l := p.reverse)
        (by simp [hdrop])
      simpa [hdrop] using this
    have hsplit :=
      List.takeWhile_append_dropWhile (p := fun x : UInt8 => decide (x = 0xFF)) (l := p.reverse)
    rw [hm, hdrop] at hsplit
    refine ⟨rest.reverse, b, m, ?_, hb, by simp⟩
    rw [← List.reverse_reverse p, ← hsplit]
    simp

/-- `prefixEnd` finds nothing to increase only in a run of `FF` bytes. -/
theorem prefixEnd_eq_none {p : Bytes} (h : prefixEnd p = none) :
    p = List.replicate p.length 0xFF := by
  unfold prefixEnd at h
  split at h
  · rename_i hdrop
    refine List.eq_replicate_iff.2 ⟨rfl, fun x hx => ?_⟩
    have := List.dropWhile_eq_nil_iff.1 hdrop x (List.mem_reverse.2 hx)
    simpa using this
  · cases h

/-! ## What the constructors hold -/

theorem contains_between (s e k : Key) : (between s e).contains k = true ↔ s ≤ k ∧ k < e := by
  rw [contains_eq_true_iff, beforeStart_eq_false_iff, afterEnd_eq_false_iff]
  simp [between, le_iff_lt_or_eq, eq_comm]

/-- The range of a prefix of `k` holds the keys that agree with `k` on the prefix. -/
theorem ofPrefix_contains_iff (k : Key) (p : Part) {j : Key} (hj : j.Storable) :
    (ofPrefix k (some p)).contains j = true ↔ j.equalUpTo k (some p) = true := by
  rw [ofPrefix, contains_between, Key.truncate_le_iff k p hj, Key.lt_following_iff k p hj,
    Key.comparePrefix_swap, ← Key.comparePrefix_eq_eq]
  cases j.comparePrefix k p <;> decide

/-- The range of a row holds the keys of that row. -/
theorem exactRow_contains_iff (r : Bytes) {j : Key} (hj : j.Storable) :
    (exactRow r).contains j = true ↔ j.row = r := by
  rw [show exactRow r = ofPrefix (Key.ofRow r) (some .row) from rfl, ofPrefix_contains_iff _ _ hj]
  simp [Key.equalUpTo, Key.ofRow]

/-- The range of a row prefix holds the keys whose rows start with it. -/
theorem rowPrefix_contains_iff (p : Bytes) {j : Key} (hj : j.Storable) :
    (rowPrefix p).contains j = true ↔ p <+: j.row := by
  unfold rowPrefix
  split
  · rename_i hp
    rw [List.isEmpty_iff.1 hp]
    simp [everything, contains, beforeStart, afterEnd]
  · split
    · -- `p` is `q b FF…FF` with `b` below `FF`, and the range ends at `q (b + 1)`
      rename_i e he
      obtain ⟨q, b, m, rfl, hb, rfl⟩ := prefixEnd_eq_some he
      rw [contains_between, Key.ofRow_le_iff _ hj, Key.lt_ofRow_iff _ hj,
        Bytes.cmp_between_append]
      simp only [Bytes.cmp_between_succ hb]
      constructor
      · rintro ⟨x', hx, hp⟩
        rw [hx]
        exact (List.prefix_append_right_inj q).2 hp
      · rintro ⟨u, hu⟩
        exact ⟨b :: List.replicate m 0xFF ++ u, by rw [← hu]; simp, List.prefix_append _ _⟩
    · -- `p` is all `FF` bytes, and the range has no end
      rename_i he
      have hstart : ({ start := Key.ofRow p, startInclusive := true, unboundedStop := true } :
          Range).contains j = true ↔ Key.ofRow p ≤ j := by
        rw [contains_eq_true_iff, beforeStart_eq_false_iff, afterEnd_eq_false_iff]
        simp [le_iff_lt_or_eq, eq_comm]
      rw [hstart, Key.ofRow_le_iff _ hj, prefixEnd_eq_none he, Bytes.cmp_replicate_ff_ne_gt]

/-- The prefix ranges denote the key sets their names promise, for every 64-bit key `j`:
`k.following p` bounds the keys whose components in `p` are at most `k`'s; the range of a
prefix holds the keys that agree with `k` on it; the range of a row the keys of the row; the
range of a row prefix `s` the keys whose rows start with `s`, also an empty `s` or one that
ends in `FF` bytes; and `successor` gives the next key, also at the oldest timestamp. -/
theorem prefix_ranges_exact :
    (∀ (k : Key) (p : Part) (j : Key), j.Storable →
      (j < k.following p ↔ j.comparePrefix k p ≠ .gt)) ∧
    (∀ (k : Key) (p : Part) (j : Key), j.Storable →
      ((ofPrefix k (some p)).contains j = true ↔ j.equalUpTo k (some p) = true)) ∧
    (∀ (r : Bytes) (j : Key), j.Storable → ((exactRow r).contains j = true ↔ j.row = r)) ∧
    (∀ (s : Bytes) (j : Key), j.Storable → ((rowPrefix s).contains j = true ↔ s <+: j.row)) ∧
    (∀ k : Key, k.Storable → k < k.successor ∧ k.successor.Storable ∧
      ∀ j : Key, j.Storable → ¬ (k < j ∧ j < k.successor)) :=
  ⟨fun k p _ hj => Key.lt_following_iff k p hj, fun k p _ hj => ofPrefix_contains_iff k p hj,
    fun r _ hj => exactRow_contains_iff r hj, fun s _ hj => rowPrefix_contains_iff s hj,
    fun _ hk => Key.successor_immediate hk⟩

/-- The row prefix `FF` holds the row `FF 00`, and the key after the oldest version of a
cell is the first key of the next cell. -/
theorem prefix_ranges_at_edges :
    let j : Key := { row := [0xFF, 0] }
    let k : Key := { row := [1], timestamp := minTimestamp }
    j.Storable ∧ k.Storable ∧ ((rowPrefix [0xFF]).contains j = true ↔ [0xFF] <+: j.row) ∧
      (k < k.successor ∧ k.successor.Storable ∧
        ∀ i : Key, i.Storable → ¬ (k < i ∧ i < k.successor)) := by
  intro j k
  have hj : j.Storable := by decide
  have hk : k.Storable := by decide
  exact ⟨hj, hk, prefix_ranges_exact.2.2.2.1 _ _ hj, prefix_ranges_exact.2.2.2.2 _ hk⟩

end Range

end EdgeQuery.Store
