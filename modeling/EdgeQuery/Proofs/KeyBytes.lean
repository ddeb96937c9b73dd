import EdgeQuery.Proofs.KeyOrder
import EdgeQuery.Proofs.WireRoundTrip
import Mathlib.Data.List.Induction
/-! # Key bytes

`Key.encode` writes a key so that a store that keeps its entries in byte order keeps them in
key order: each text component has its zero bytes escaped as `00 FF` and ends with the
terminator `00 01`, and the timestamp follows as the eight big-endian bytes of its distance
below the newest timestamp. This module shows that the form is an order embedding with an
inverse on its image:

* `Key.cmp_encode`: byte order of encodings is key order. A component's terminator sorts
  below every escaped byte, so a text sorts before its extensions and a comparison decided
  inside a component is never overturned by what follows (`compare_encodeComponent`);
  big-endian bytes of one width compare as the numbers they hold (`compare_bigEndian`),
  and the distance below the newest timestamp reverses the timestamp order.
* `Key.decode?_encode`: a key reads back from its bytes.
* `Key.encode_of_decode?`: bytes that read as a key are that key's bytes, so no other byte
  string decodes to it.

Timestamps are 64-bit integers (`Key.Storable`): only those fit the eight bytes. -/

namespace EdgeQuery.Bytes

/-- Bytes compare as their values. -/
theorem compare_uint8 (a b : UInt8) : Ord.compare a b = Ord.compare a.toNat b.toNat := by
  rcases Nat.lt_trichotomy a.toNat b.toNat with h | h | h
  · rw [(Nat.compare_eq_lt).2 h]
    exact (Std.compare_eq_lt (α := UInt8)).2 (UInt8.lt_iff_toNat_lt.2 h)
  · rw [(Nat.compare_eq_eq).2 h, UInt8.toNat_inj.1 h]
    exact Std.ReflCmp.compare_self
  · rw [(Nat.compare_eq_gt).2 h]
    exact (Std.compare_eq_gt (α := UInt8)).2 (UInt8.lt_iff_toNat_lt.2 h)

/-- A common prefix does not decide a comparison. -/
theorem compare_append_left (p a b : Bytes) :
    Ord.compare (p ++ a) (p ++ b) = Ord.compare a b := by
  induction p with
  | nil => rfl
  | cons x p ih => simp [List.compare_cons_cons, Std.ReflCmp.compare_self, ih]

/-- Between byte strings of one length, what follows decides only a tie. -/
theorem compare_append_of_length_eq {a b : Bytes} (h : a.length = b.length) (x y : Bytes) :
    Ord.compare (a ++ x) (b ++ y) = (Ord.compare a b).then (Ord.compare x y) := by
  induction a generalizing b with
  | nil =>
    cases b with
    | nil => rfl
    | cons _ _ => simp at h
  | cons u a ih =>
    cases b with
    | nil => simp at h
    | cons v b =>
      simp only [List.cons_append, List.compare_cons_cons, List.length_cons] at h ⊢
      rw [ih (by omega), Ordering.then_assoc]

theorem compare_zero_left {b : UInt8} (hb : b ≠ 0) : Ord.compare (0 : UInt8) b = .lt := by
  rw [compare_uint8, Nat.compare_eq_lt]
  exact Nat.pos_of_ne_zero (fun h => hb (UInt8.toNat_inj.1 h))

theorem compare_zero_right {a : UInt8} (ha : a ≠ 0) : Ord.compare a (0 : UInt8) = .gt := by
  rw [compare_uint8, Nat.compare_eq_gt]
  exact Nat.pos_of_ne_zero (fun h => ha (UInt8.toNat_inj.1 h))

end EdgeQuery.Bytes

namespace EdgeQuery.Store
namespace Key

/-- The bytes that stand for one byte of a text component: a zero byte is escaped. -/
def escape (b : UInt8) : Bytes := if b = 0 then [0, 0xFF] else [b]

theorem encodeComponent_nil : encodeComponent [] = [0, 1] := rfl

theorem encodeComponent_cons (b : UInt8) (s : Bytes) :
    encodeComponent (b :: s) = escape b ++ encodeComponent s := by
  simp [encodeComponent, escape]

/-- Escaped bytes compare as the bytes they stand for. -/
theorem compare_escape (a b : UInt8) (x y : Bytes) :
    Ord.compare (escape a ++ x) (escape b ++ y) = (Ord.compare a b).then (Ord.compare x y) := by
  by_cases ha : a = 0 <;> by_cases hb : b = 0
  · subst ha hb
    simp [escape, Std.ReflCmp.compare_self]
  · -- an escaped zero starts with a zero byte, below any other byte
    subst ha
    simp [escape, hb, Bytes.compare_zero_left hb]
  · subst hb
    simp [escape, ha, Bytes.compare_zero_right ha]
  · simp [escape, ha, hb]

/-- The terminator `00 01` sorts below every escaped byte. -/
theorem compare_terminator_escape (b : UInt8) (x y : Bytes) :
    Ord.compare ([0, 1] ++ x) (escape b ++ y) = .lt := by
  by_cases hb : b = 0
  · -- `00 01` against `00 FF`
    subst hb
    have hlt : Ord.compare (1 : UInt8) 0xFF = .lt := by decide
    simp [escape, hlt, Std.ReflCmp.compare_self]
  · simp [escape, hb, Bytes.compare_zero_left hb]

/-- Every escaped byte sorts above the terminator. -/
theorem compare_escape_terminator (b : UInt8) (x y : Bytes) :
    Ord.compare (escape b ++ y) ([0, 1] ++ x) = .gt := by
  rw [(Std.OrientedCmp.eq_swap : Ord.compare (escape b ++ y) ([0, 1] ++ x) = _),
    compare_terminator_escape]
  rfl

/-- Components compare as the texts they encode, and what follows them decides only a tie:
byte order across a component boundary is the order of the texts. -/
theorem compare_encodeComponent (s t x y : Bytes) :
    Ord.compare (encodeComponent s ++ x) (encodeComponent t ++ y) =
      (Ord.compare s t).then (Ord.compare x y) := by
  induction s generalizing t with
  | nil =>
    cases t with
    | nil => exact Bytes.compare_append_left _ _ _
    | cons b t =>
      rw [encodeComponent_nil, encodeComponent_cons, List.append_assoc,
        compare_terminator_escape]
      rfl
  | cons a s ih =>
    cases t with
    | nil =>
      rw [encodeComponent_nil, encodeComponent_cons, List.append_assoc,
        compare_escape_terminator]
      rfl
    | cons b t =>
      rw [encodeComponent_cons, encodeComponent_cons, List.append_assoc, List.append_assoc,
        compare_escape, ih, List.compare_cons_cons, Ordering.then_assoc]

/-- An encoded component reads back as its text, leaving what follows it. -/
theorem readComponent_encodeComponent (s r : Bytes) :
    readComponent (encodeComponent s ++ r) = .ok (s, r) := by
  induction s with
  | nil => rfl
  | cons b s ih =>
    rw [encodeComponent_cons, List.append_assoc]
    by_cases hb : b = 0
    · subst hb
      simp [escape, readComponent, ih, Except.map]
    · simp [escape, hb, readComponent, ih, Except.map]

/-- What a component reads from is exactly its encoding followed by the rest. -/
theorem eq_encodeComponent_of_readComponent {b s r : Bytes}
    (h : readComponent b = .ok (s, r)) : b = encodeComponent s ++ r := by
  fun_induction readComponent b generalizing s with
  | case1 => simp at h
  | case2 => simp at h
  | case3 rest ih =>
    -- an escaped zero byte
    cases hr : readComponent rest with
    | error e => simp [hr, Except.map] at h
    | ok v =>
      obtain ⟨s', r'⟩ := v
      simp only [hr, Except.map, Except.ok.injEq, Prod.mk.injEq] at h
      obtain ⟨rfl, rfl⟩ := h
      rw [ih hr, encodeComponent_cons]
      rfl
  | case4 rest =>
    simp only [Except.ok.injEq, Prod.mk.injEq] at h
    obtain ⟨rfl, rfl⟩ := h
    rfl
  | case5 => simp at h
  | case6 b rest hnil _ _ hbad ih =>
    -- a plain byte, which the earlier cases show is not zero
    have hb : b ≠ 0 := by
      intro hb
      cases rest with
      | nil => exact hnil hb rfl
      | cons c t => exact hbad c t hb rfl
    cases hr : readComponent rest with
    | error e => simp [hr, Except.map] at h
    | ok v =>
      obtain ⟨s', r'⟩ := v
      simp only [hr, Except.map, Except.ok.injEq, Prod.mk.injEq] at h
      obtain ⟨rfl, rfl⟩ := h
      rw [ih hr, encodeComponent_cons]
      simp [escape, hb]

/-! ## The timestamp -/

/-- The timestamp is written as the common big-endian form of eight bytes. -/
theorem bigEndian8_eq (v : Nat) : bigEndian8 v = Msgpack.bigEndian 8 v := rfl

theorem ofBigEndian_eq (b : Bytes) : ofBigEndian b = Msgpack.ofBigEndian b := rfl

end Key
end EdgeQuery.Store

namespace EdgeQuery.Msgpack

/-- Comparing by the high digits first, then the last, is comparing the numbers. -/
theorem compare_div_then_mod (u v : Nat) :
    (Ord.compare (u / 256) (v / 256)).then (Ord.compare (u % 256) (v % 256)) =
      Ord.compare u v := by
  rcases Nat.lt_trichotomy (u / 256) (v / 256) with h | h | h
  · rw [Nat.compare_eq_lt.2 h, Ordering.lt_then]
    exact (Nat.compare_eq_lt.2 (by omega)).symm
  · rw [Nat.compare_eq_eq.2 h, Ordering.eq_then]
    rcases Nat.lt_trichotomy (u % 256) (v % 256) with h' | h' | h'
    · rw [Nat.compare_eq_lt.2 h', Nat.compare_eq_lt.2 (by omega)]
    · rw [Nat.compare_eq_eq.2 h', Nat.compare_eq_eq.2 (by omega)]
    · rw [Nat.compare_eq_gt.2 h', Nat.compare_eq_gt.2 (by omega)]
  · rw [Nat.compare_eq_gt.2 h, Ordering.gt_then]
    exact (Nat.compare_eq_gt.2 (by omega)).symm

/-- Big-endian bytes of one width compare as the numbers they hold. -/
theorem compare_bigEndian (w : Nat) {u v : Nat} (hu : u < Nat.pow 256 w)
    (hv : v < Nat.pow 256 w) :
    Ord.compare (bigEndian w u) (bigEndian w v) = Ord.compare u v := by
  induction w generalizing u v with
  | zero =>
    have hu0 : u = 0 := by simp [Nat.pow] at hu; omega
    have hv0 : v = 0 := by simp [Nat.pow] at hv; omega
    subst hu0 hv0
    rfl
  | succ w ih =>
    have hpow : Nat.pow 256 (w + 1) = Nat.pow 256 w * 256 := rfl
    rw [bigEndian_succ, bigEndian_succ,
      Bytes.compare_append_of_length_eq (by rw [length_bigEndian, length_bigEndian]),
      ih (Nat.div_lt_of_lt_mul (by omega)) (Nat.div_lt_of_lt_mul (by omega)),
      List.compare_cons_cons, List.compare_nil_nil, Ordering.then_eq, Bytes.compare_uint8]
    simpa [Nat.mod_lt] using compare_div_then_mod u v

/-- Bytes read as a big-endian number and written back at their own width are
unchanged. -/
theorem bigEndian_ofBigEndian (b : Bytes) : bigEndian b.length (ofBigEndian b) = b := by
  induction b using List.reverseRecOn with
  | nil => rfl
  | append_singleton b x ih =>
    rw [List.length_append, List.length_singleton, bigEndian_succ, ofBigEndian_append_byte]
    have hdiv : (ofBigEndian b * 256 + x.toNat) / 256 = ofBigEndian b := by
      have := x.toNat_lt; omega
    have hmod : (ofBigEndian b * 256 + x.toNat) % 256 = x.toNat := by
      have := x.toNat_lt; omega
    rw [hdiv, hmod, ih]
    simp

end EdgeQuery.Msgpack

namespace EdgeQuery.Store
namespace Key

/-- The byte form of a key, component by component. -/
theorem encode_eq (k : Key) :
    k.encode = encodeComponent k.row ++ (encodeComponent k.family ++
      (encodeComponent k.qualifier ++ (encodeComponent k.visibility ++
        bigEndian8 (maxTimestamp - k.timestamp).toNat))) := by
  simp [encode, List.append_assoc]

/-- A 64-bit timestamp lies between the oldest and the newest timestamps. -/
theorem Storable.bounds {k : Key} (h : k.Storable) :
    minTimestamp ≤ k.timestamp ∧ k.timestamp ≤ maxTimestamp := by
  have h63 : Int.pow 2 63 = 9223372036854775808 := by decide
  unfold Storable at h
  simp only [minTimestamp, maxTimestamp, h63] at h ⊢
  omega

/-- A 64-bit timestamp is written as a number below `2^64`. -/
theorem timestamp_distance_lt {k : Key} (h : k.Storable) :
    (maxTimestamp - k.timestamp).toNat < Nat.pow 256 8 := by
  have hb := h.bounds
  have h63 : Int.pow 2 63 = 9223372036854775808 := by decide
  have h64 : Nat.pow 256 8 = 18446744073709551616 := by decide
  simp only [minTimestamp, maxTimestamp, h63] at hb ⊢
  rw [h64]
  omega

/-- The timestamp bytes of 64-bit keys compare the other way round from the timestamps:
newer first. -/
theorem compare_timestampBytes {a b : Key} (ha : a.Storable) (hb : b.Storable) :
    Ord.compare (bigEndian8 (maxTimestamp - a.timestamp).toNat)
      (bigEndian8 (maxTimestamp - b.timestamp).toNat) = Ord.compare b.timestamp a.timestamp := by
  rw [bigEndian8_eq, bigEndian8_eq,
    Msgpack.compare_bigEndian 8 (timestamp_distance_lt ha) (timestamp_distance_lt hb)]
  have hba := ha.bounds
  have hbb := hb.bounds
  rcases Int.lt_trichotomy b.timestamp a.timestamp with h | h | h
  · rw [Int.compare_eq_lt.2 h, Nat.compare_eq_lt]
    omega
  · rw [Int.compare_eq_eq.2 h, Nat.compare_eq_eq]
    omega
  · rw [Int.compare_eq_gt.2 h, Nat.compare_eq_gt]
    omega

/-- Byte order of 64-bit keys' encodings is key order. -/
theorem cmp_encode {a b : Key} (ha : a.Storable) (hb : b.Storable) :
    Bytes.cmp a.encode b.encode = a.compare b := by
  rw [Bytes.cmp, encode_eq, encode_eq, compare_encodeComponent, compare_encodeComponent,
    compare_encodeComponent, compare_encodeComponent, compare_timestampBytes ha hb]
  rfl

/-- A 64-bit key reads back from its byte form. -/
theorem decode?_encode {k : Key} (h : k.Storable) : decode? k.encode = .ok k := by
  have hlen : (bigEndian8 (maxTimestamp - k.timestamp).toNat).length = 8 := by
    rw [bigEndian8_eq, Msgpack.length_bigEndian]
  have hts : maxTimestamp - (ofBigEndian (bigEndian8 (maxTimestamp - k.timestamp).toNat) : Int) =
      k.timestamp := by
    rw [ofBigEndian_eq, bigEndian8_eq, Msgpack.ofBigEndian_bigEndian,
      Nat.mod_eq_of_lt (timestamp_distance_lt h)]
    have := h.bounds
    omega
  rw [decode?, encode_eq]
  simp only [bind, Except.bind, Except.mapError, readComponent_encodeComponent, hlen, ne_eq,
    not_true_eq_false, if_false, hts, pure, Except.pure]

/-- A reading step of `decode?` that succeeds read its component. -/
theorem readStep_eq_ok {α : Type} {i : Nat} {b : Bytes} {g : Bytes × Bytes → Except DecodeError α}
    {a : α} (h : (readComponent b).mapError (DecodeError.component i) >>= g = .ok a) :
    ∃ s r, readComponent b = .ok (s, r) ∧ g (s, r) = .ok a := by
  cases hb : readComponent b with
  | error e => simp [hb, Except.mapError, bind, Except.bind] at h
  | ok v => exact ⟨v.1, v.2, rfl, by simpa [hb, Except.mapError, bind, Except.bind] using h⟩

/-- Bytes that read as a key are that key's byte form. -/
theorem encode_of_decode? {b : Bytes} {k : Key} (h : decode? b = .ok k) : k.encode = b := by
  unfold decode? at h
  obtain ⟨row, b1, h0, h⟩ := readStep_eq_ok h
  obtain ⟨family, b2, h1, h⟩ := readStep_eq_ok h
  obtain ⟨qualifier, b3, h2, h⟩ := readStep_eq_ok h
  obtain ⟨visibility, b4, h3, h⟩ := readStep_eq_ok h
  -- what is left after the four components is the eight timestamp bytes
  have hlen : b4.length = 8 := by
    by_contra hne
    simp [hne] at h
  simp only [hlen, ne_eq, not_true_eq_false, if_false, pure, Except.pure, Except.ok.injEq] at h
  subst h
  have hts : bigEndian8 (maxTimestamp - (maxTimestamp - (ofBigEndian b4 : Int))).toNat = b4 := by
    rw [Int.sub_sub_self, Int.toNat_natCast, bigEndian8_eq, ofBigEndian_eq, ← hlen,
      Msgpack.bigEndian_ofBigEndian]
  rw [encode_eq, hts, eq_encodeComponent_of_readComponent h0, eq_encodeComponent_of_readComponent h1,
    eq_encodeComponent_of_readComponent h2, eq_encodeComponent_of_readComponent h3]

/-! ## The byte form as an order embedding -/

/-- The byte form of 64-bit keys is an order embedding with an inverse on its image: byte
order of encodings is key order (newer timestamps first), every key reads back from its
bytes, and bytes that read as a key are exactly that key's bytes. -/
theorem encode_order_embedding :
    (∀ a b : Key, a.Storable → b.Storable → Bytes.cmp a.encode b.encode = a.compare b) ∧
    (∀ k : Key, k.Storable → decode? k.encode = .ok k) ∧
    (∀ (b : Bytes) (k : Key), decode? b = .ok k → k.encode = b) :=
  ⟨fun _ _ ha hb => cmp_encode ha hb, fun _ h => decode?_encode h, fun _ _ h => encode_of_decode? h⟩

/-- Rows `00` and `00 FF`, the oldest and the newest timestamps: the escaped zero against a
literal `FF` byte, and the timestamp bytes at both ends of their range. -/
theorem encode_order_nul_rows :
    ({ row := [0], timestamp := minTimestamp } : Key).Storable ∧
    ({ row := [0, 0xFF], timestamp := maxTimestamp } : Key).Storable ∧
    Bytes.cmp ({ row := [0], timestamp := minTimestamp } : Key).encode
      ({ row := [0, 0xFF], timestamp := maxTimestamp } : Key).encode = .lt ∧
    decode? ({ row := [0, 0xFF], timestamp := maxTimestamp } : Key).encode =
      .ok { row := [0, 0xFF], timestamp := maxTimestamp } := by
  have ha : ({ row := [0], timestamp := minTimestamp } : Key).Storable := by decide
  have hb : ({ row := [0, 0xFF], timestamp := maxTimestamp } : Key).Storable := by decide
  refine ⟨ha, hb, ?_, encode_order_embedding.2.1 _ hb⟩
  rw [encode_order_embedding.1 _ _ ha hb]
  decide

end Key
end EdgeQuery.Store
