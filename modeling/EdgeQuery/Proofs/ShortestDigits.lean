import EdgeQuery.Proofs.RatioRounding
/-! # The shortest digits read back as the value

`Decimal.shortest` picks, for a finite positive value `m * 2^q`, a decimal `d * 10^e` with as
few digits as it can. This module shows that the pick always lies in the interval of reals
that read back as the value (`Decimal.Within`), so that reading the printed digits with
correct rounding gives the value again.

Each attempt `tryDigits m q n` lays a grid of spacing `10^e` over the interval, with `e`
chosen from the decimal exponent of the upper end, and takes a grid point between the least
one at or above the lower end and the greatest one at or below the upper end; every such
point is inside (`tryDigits_within`). The search goes up to seventeen digits, and at
seventeen the grid is finer than the interval is wide, so some attempt succeeds
(`tryDigits_seventeen_isSome`). The width argument needs the decimal exponent of the upper end
to be at most the true one: `log10Floor` starts from an estimate through `log10 2 < 0.30103`
that is at most three too large and corrects it by one at each of its three steps. -/

namespace EdgeQuery.Decimal

open Binary64

/-! ## Exact comparisons and ratios -/

/-- An integer power of a nonzero rational splits along the sign of its exponent. -/
theorem zpow_eq_div_toNat {x : ℚ} (hx : x ≠ 0) (i : ℤ) :
    x ^ i = x ^ i.toNat / x ^ (-i).toNat := by
  conv_lhs => rw [← Int.toNat_sub_toNat_neg i]
  rw [zpow_sub₀ hx, zpow_natCast, zpow_natCast]

/-- `cmpScaled` is the comparison of `a * 10^i` with `b * 2^j`: not greater. -/
theorem cmpScaled_ne_gt_iff (a : ℕ) (i : ℤ) (b : ℕ) (j : ℤ) :
    cmpScaled a i b j ≠ .gt ↔ (a : ℚ) * 10 ^ i ≤ b * 2 ^ j := by
  unfold cmpScaled
  rw [compare_le_iff_le, ← Nat.cast_le (α := ℚ), zpow_eq_div_toNat (by norm_num) i,
    zpow_eq_div_toNat (by norm_num) j, mul_div_assoc', mul_div_assoc',
    div_le_div_iff₀ (by positivity) (by positivity)]
  simp only [Nat.pow_eq, Nat.cast_mul, Nat.cast_pow, Nat.cast_ofNat]

theorem ratio_snd_pos (b : ℕ) (j i : ℤ) : 0 < (ratio b j i).2 := by
  unfold ratio
  simp only [Nat.pow_eq]
  positivity

/-- `ratio b j i` is the fraction `b * 2^j / 10^i`. -/
theorem ratio_div (b : ℕ) (j i : ℤ) :
    ((ratio b j i).1 : ℚ) / (ratio b j i).2 = b * 2 ^ j / 10 ^ i := by
  unfold ratio
  rw [zpow_eq_div_toNat (by norm_num) i, zpow_eq_div_toNat (by norm_num) j]
  simp only [Nat.pow_eq, Nat.cast_mul, Nat.cast_pow, Nat.cast_ofNat]
  field_simp

/-! ## The decimal exponent of the upper end -/

/-- One correction of the estimate in `log10Floor`: up when the next power of ten is still
not above the value, down when this one is. -/
def log10Fix (b : ℕ) (j k : ℤ) : ℤ :=
  if cmpScaled 1 (k + 1) b j != .gt then k + 1
  else if cmpScaled 1 k b j == .gt then k - 1 else k

theorem log10Floor_eq (b : ℕ) (j : ℤ) :
    log10Floor b j =
      log10Fix b j (log10Fix b j (log10Fix b j
        (((bitLength b : ℤ) - 1 + j) * 30103 / 100000))) := rfl

/-- A correction gains one on how far below the value a power of ten is known to be. -/
theorem log10Fix_gain {b : ℕ} {j k t : ℤ} (ht : 0 ≤ t)
    (h : (10 : ℚ) ^ (k - t - 1) ≤ b * 2 ^ j) :
    (10 : ℚ) ^ (log10Fix b j k - t) ≤ b * 2 ^ j := by
  have mono : ∀ {x y : ℤ}, x ≤ y → (10 : ℚ) ^ x ≤ 10 ^ y := fun hxy =>
    zpow_le_zpow_right₀ (by norm_num) hxy
  unfold log10Fix
  split
  · -- the next power is not above the value
    rename_i hup
    have hup : (10 : ℚ) ^ (k + 1) ≤ b * 2 ^ j := by
      simpa using (cmpScaled_ne_gt_iff 1 (k + 1) b j).1 (by simpa using hup)
    exact (mono (by omega)).trans hup
  · split
    · -- this power is above the value: one down, and the known bound moves with it
      rw [show k - 1 - t = k - t - 1 by ring]
      exact h
    · rename_i _ hdown
      have hk : (10 : ℚ) ^ k ≤ b * 2 ^ j := by
        simpa using (cmpScaled_ne_gt_iff 1 k b j).1 (by simpa using hdown)
      exact (mono (by omega)).trans hk

/-- The estimate `u * 30103 / 100000` of `u * log10 2` is at most three too large, for the
exponents of binary64 values. -/
theorem ten_zpow_estimate_le {u : ℤ} (h1 : -1400 ≤ u) (h2 : u ≤ 1900) :
    (10 : ℚ) ^ (u * 30103 / 100000 - 3) ≤ 2 ^ u := by
  set k := u * 30103 / 100000 - 3 with hk
  rcases le_or_gt 0 u with hu | hu
  · rcases lt_or_ge k 0 with hk0 | hk0
    · calc (10 : ℚ) ^ k ≤ 1 := zpow_le_one_of_nonpos₀ (by norm_num) hk0.le
        _ ≤ 2 ^ u := one_le_zpow₀ (by norm_num) hu
    · -- `10 k ≤ 3 u`, and `10^3 ≤ 2^10`
      have hnat : 10 ^ k.toNat ≤ 2 ^ u.toNat := by
        rw [← Nat.pow_le_pow_iff_left (n := 10) (by norm_num), ← Nat.pow_mul, ← Nat.pow_mul]
        calc 10 ^ (k.toNat * 10) ≤ 10 ^ (3 * u.toNat) :=
              Nat.pow_le_pow_right (by norm_num) (by omega)
          _ = 1000 ^ u.toNat := by rw [Nat.pow_mul]
          _ ≤ 1024 ^ u.toNat := Nat.pow_le_pow_left (by norm_num) _
          _ = 2 ^ (u.toNat * 10) := by rw [Nat.mul_comm, Nat.pow_mul]
      rw [show k = (k.toNat : ℤ) by omega, show u = (u.toNat : ℤ) by omega, zpow_natCast,
        zpow_natCast]
      exact_mod_cast hnat
  · -- `10 w ≤ 33 v` for `w = -u` and `v = -k`, and `2^33 ≤ 10^10`
    have hnat : 2 ^ (-u).toNat ≤ 10 ^ (-k).toNat := by
      have key : (2 ^ (-u).toNat) ^ 33 ≤ (10 ^ (-k).toNat) ^ 33 :=
        calc (2 ^ (-u).toNat) ^ 33 = (2 ^ 33) ^ (-u).toNat := by
              rw [← Nat.pow_mul, ← Nat.pow_mul, Nat.mul_comm]
          _ ≤ (10 ^ 10) ^ (-u).toNat := Nat.pow_le_pow_left (by norm_num) _
          _ = 10 ^ (10 * (-u).toNat) := by rw [Nat.pow_mul]
          _ ≤ 10 ^ ((-k).toNat * 33) := Nat.pow_le_pow_right (by norm_num) (by omega)
          _ = (10 ^ (-k).toNat) ^ 33 := Nat.pow_mul 10 _ 33
      exact (Nat.pow_le_pow_iff_left (by norm_num)).1 key
    rw [show k = -((-k).toNat : ℤ) by omega, show u = -((-u).toNat : ℤ) by omega, zpow_neg,
      zpow_neg, zpow_natCast, zpow_natCast]
    apply inv_anti₀ (by positivity)
    exact_mod_cast hnat

/-- `log10Floor` gives a power of ten that is not above the value, for the values that the
ends of binary64 intervals take. -/
theorem log10Floor_le {b : ℕ} {j : ℤ} (hb : 0 < b)
    (h1 : -1400 ≤ (bitLength b : ℤ) - 1 + j) (h2 : (bitLength b : ℤ) - 1 + j ≤ 1900) :
    (10 : ℚ) ^ log10Floor b j ≤ b * 2 ^ j := by
  set u : ℤ := (bitLength b : ℤ) - 1 + j with hu
  -- the value is at least `2^u`
  have hlow : (2 : ℚ) ^ u ≤ b * 2 ^ j := by
    have hb2 : (2 : ℚ) ^ ((bitLength b - 1 : ℕ) : ℤ) ≤ b := by
      rw [zpow_natCast]; exact_mod_cast two_pow_bitLength_le hb
    rw [show u = ((bitLength b - 1 : ℕ) : ℤ) + j by have := one_le_bitLength hb; omega,
      zpow_add₀ (by norm_num)]
    exact mul_le_mul_of_nonneg_right hb2 (by positivity)
  have h0 := (ten_zpow_estimate_le h1 h2).trans hlow
  rw [log10Floor_eq]
  have s1 := log10Fix_gain (b := b) (j := j) (t := 2) (by norm_num)
    (by rwa [show u * 30103 / 100000 - 2 - 1 = u * 30103 / 100000 - 3 by ring])
  have s2 := log10Fix_gain (b := b) (j := j) (t := 1) (by norm_num)
    (by rwa [show ∀ x : ℤ, x - 1 - 1 = x - 2 from fun x => by ring])
  have s3 := log10Fix_gain (b := b) (j := j) (t := 0) (by norm_num)
    (by rwa [show ∀ x : ℤ, x - 0 - 1 = x - 1 from fun x => by ring])
  simpa using s3


/-! ## The grid points `tryDigits` picks -/

/-- The largest grid point at or below `hn / hd`, below it when the end is excluded. -/
def gridBelow (hn hd : ℕ) (inclusive : Bool) : ℕ :=
  if hn % hd = 0 ∧ ¬inclusive = true then hn / hd - 1 else hn / hd

/-- The least grid point at or above `ln / ld`, above it when the end is excluded. -/
def gridAbove (ln ld : ℕ) (inclusive : Bool) : ℕ :=
  if ln % ld = 0 then (if inclusive = true then ln / ld else ln / ld + 1) else ln / ld + 1

/-- `tryDigits` with its grid points named. -/
theorem tryDigits_eq (m : ℕ) (q : ℤ) (n : ℕ) :
    tryDigits m q n =
      let e := log10Floor (interval m q).2.2.1 (q - 2) - n + 1
      let rHi := ratio (interval m q).2.2.1 (q - 2) e
      let rLo := ratio (interval m q).2.1 (q - 2) e
      let rV := ratio (interval m q).1 (q - 2) e
      let dHi := gridBelow rHi.1 rHi.2 (interval m q).2.2.2
      let dLo := gridAbove rLo.1 rLo.2 (interval m q).2.2.2
      if dLo ≤ dHi then some ⟨max dLo (min (roundHalfEven rV.1 rV.2) dHi), e⟩ else none := rfl

/-- The grid point below: not above the end, below it when the end is excluded, and not
below any grid point under the end. -/
theorem gridBelow_spec {hn hd : ℕ} (hd0 : 0 < hd) (hn0 : 0 < hn) (inclusive : Bool) :
    gridBelow hn hd inclusive * hd ≤ hn ∧
      (inclusive = false → gridBelow hn hd inclusive * hd < hn) ∧
      ∀ k, k * hd < hn → k ≤ gridBelow hn hd inclusive := by
  have hdiv := Nat.div_add_mod' hn hd
  have hmod := Nat.mod_lt hn hd0
  have hq : hn / hd * hd ≤ hn := Nat.div_mul_le_self hn hd
  unfold gridBelow
  split
  · -- the end is a grid point and excluded: one below it
    rename_i hr
    have hq1 : 1 ≤ hn / hd := by
      rcases Nat.eq_zero_or_pos (hn / hd) with h0 | h0
      · rw [h0] at hdiv; omega
      · exact h0
    rw [Nat.sub_mul, Nat.one_mul]
    refine ⟨by omega, fun _ => by omega, fun k hk => ?_⟩
    have : k < hn / hd := Nat.lt_of_mul_lt_mul_right (a := hd) (by omega)
    omega
  · rename_i hr
    refine ⟨hq, fun hincl => ?_, fun k hk => (Nat.le_div_iff_mul_le hd0).2 hk.le⟩
    rw [hincl] at hr
    simp only [Bool.false_eq_true, not_false_eq_true, and_true] at hr
    omega

/-- The grid point above: not below the end, above it when the end is excluded, and at
most one past the end's quotient. -/
theorem gridAbove_spec (ln : ℕ) {ld : ℕ} (ld0 : 0 < ld) (inclusive : Bool) :
    ln ≤ gridAbove ln ld inclusive * ld ∧
      (inclusive = false → ln < gridAbove ln ld inclusive * ld) ∧
      gridAbove ln ld inclusive ≤ ln / ld + 1 := by
  have hdiv := Nat.div_add_mod' ln ld
  have hmod := Nat.mod_lt ln ld0
  have hsucc : (ln / ld + 1) * ld = ln / ld * ld + ld := by rw [Nat.add_mul, Nat.one_mul]
  unfold gridAbove
  split
  · split
    · rename_i hr hincl
      refine ⟨by omega, fun h => by rw [h] at hincl; exact absurd hincl (by decide), by omega⟩
    · exact ⟨by omega, fun _ => by omega, le_refl _⟩
  · exact ⟨by omega, fun _ => by omega, le_refl _⟩

/-- A grid point `d` against the end `b * 2^j`, on the grid `10^i`: not above it. -/
theorem grid_le_iff (d b : ℕ) (j i : ℤ) :
    d * (ratio b j i).2 ≤ (ratio b j i).1 ↔ (d : ℚ) * 10 ^ i ≤ b * 2 ^ j := by
  have hpos : (0 : ℚ) < (ratio b j i).2 := by exact_mod_cast ratio_snd_pos b j i
  rw [← Nat.cast_le (α := ℚ), Nat.cast_mul, ← le_div_iff₀ hpos, ratio_div,
    le_div_iff₀ (by positivity)]

/-- A grid point against an end: below it. -/
theorem grid_lt_iff (d b : ℕ) (j i : ℤ) :
    d * (ratio b j i).2 < (ratio b j i).1 ↔ (d : ℚ) * 10 ^ i < b * 2 ^ j := by
  have hpos : (0 : ℚ) < (ratio b j i).2 := by exact_mod_cast ratio_snd_pos b j i
  rw [← Nat.cast_lt (α := ℚ), Nat.cast_mul, ← lt_div_iff₀ hpos, ratio_div,
    lt_div_iff₀ (by positivity)]

/-- A grid point against an end: not below it. -/
theorem le_grid_iff (d b : ℕ) (j i : ℤ) :
    (ratio b j i).1 ≤ d * (ratio b j i).2 ↔ (b : ℚ) * 2 ^ j ≤ d * 10 ^ i := by
  rw [← not_lt, grid_lt_iff, not_lt]

/-- A grid point against an end: above it. -/
theorem lt_grid_iff (d b : ℕ) (j i : ℤ) :
    (ratio b j i).1 < d * (ratio b j i).2 ↔ (b : ℚ) * 2 ^ j < d * 10 ^ i := by
  rw [← not_le, grid_le_iff, not_le]

/-- A grid point between the two that `tryDigits` computes lies in the interval. -/
theorem within_of_between {m : ℕ} {q e : ℤ} {d : ℕ}
    (hd1 : gridAbove (ratio (interval m q).2.1 (q - 2) e).1 (ratio (interval m q).2.1 (q - 2) e).2
      (interval m q).2.2.2 ≤ d)
    (hd2 : d ≤ gridBelow (ratio (interval m q).2.2.1 (q - 2) e).1
      (ratio (interval m q).2.2.1 (q - 2) e).2 (interval m q).2.2.2) :
    Within m q ((d : ℚ) * 10 ^ e) := by
  have hhi0 : 0 < (ratio (interval m q).2.2.1 (q - 2) e).1 := by
    unfold ratio
    simp only [interval_upper, Nat.pow_eq]
    positivity
  obtain ⟨hHi, hHiStrict, -⟩ :=
    gridBelow_spec (ratio_snd_pos (interval m q).2.2.1 (q - 2) e) hhi0 (interval m q).2.2.2
  obtain ⟨hLo, hLoStrict, -⟩ :=
    gridAbove_spec _ (ratio_snd_pos (interval m q).2.1 (q - 2) e) (interval m q).2.2.2
  have below := (Nat.mul_le_mul_right _ hd2).trans hHi
  have above := hLo.trans (Nat.mul_le_mul_right _ hd1)
  refine ⟨(le_grid_iff d _ _ _).1 above, (grid_le_iff d _ _ _).1 below,
    fun hexcl => (lt_grid_iff d _ _ _).1 ?_, fun hexcl => (grid_lt_iff d _ _ _).1 ?_⟩
  · exact (hLoStrict hexcl).trans_le (Nat.mul_le_mul_right _ hd1)
  · exact (Nat.mul_le_mul_right _ hd2).trans_lt (hHiStrict hexcl)

/-- The digits `tryDigits` picks name a grid point inside the interval of `m * 2^q`. -/
theorem tryDigits_within {m : ℕ} {q : ℤ} {n : ℕ} {s : Scientific}
    (h : tryDigits m q n = some s) : Within m q ((s.digits : ℚ) * 10 ^ s.exponent) := by
  rw [tryDigits_eq] at h
  simp only at h
  -- nothing depends on which grid was chosen
  generalize log10Floor (interval m q).2.2.1 (q - 2) - n + 1 = e at h
  split at h
  · rename_i hle
    obtain rfl := (Option.some.inj h).symm
    exact within_of_between (le_max_left _ _) (max_le hle (min_le_right _ _))
  · exact absurd h (by simp)

/-! ## Seventeen digits always fit -/

theorem bitLength_le_of_lt {n k : ℕ} (h : n < 2 ^ k) : bitLength n ≤ k := by
  rcases Nat.eq_zero_or_pos n with rfl | hn
  · simp [bitLength]
  · have h1 := two_pow_bitLength_le hn
    have : bitLength n - 1 < k := (Nat.pow_lt_pow_iff_right (by norm_num)).1 (h1.trans_lt h)
    omega

/-- The interval of a finite positive value is wider than the grid of its seventeen-digit
decimals: the upper end is below `10^16` times the width. -/
theorem interval_upper_lt_width {m : ℕ} {q : ℤ} (hm : 0 < m) (hm53 : m < 9007199254740992) :
    (interval m q).2.2.1 < ((interval m q).2.2.1 - (interval m q).2.1) * 10 ^ 16 := by
  rw [interval_upper, interval_lower]
  split
  · rename_i h
    rw [h.1]
    norm_num
  · omega

/-- With seventeen digits the grid always has a point inside the interval. -/
theorem tryDigits_seventeen_isSome {m : ℕ} {q : ℤ} (hm : 0 < m) (hm53 : m < 9007199254740992)
    (hq1 : -1074 ≤ q) (hq2 : q ≤ 971) : (tryDigits m q 17).isSome := by
  have hhi : (interval m q).2.2.1 = 4 * m + 2 := interval_upper m q
  have hlohi : (interval m q).2.1 < (interval m q).2.2.1 := by
    rw [interval_lower, interval_upper]
    split <;> omega
  -- the power of ten below the upper end
  have hL : (10 : ℚ) ^ log10Floor (interval m q).2.2.1 (q - 2) ≤
      (interval m q).2.2.1 * 2 ^ (q - 2) := by
    have hbits : bitLength (interval m q).2.2.1 ≤ 55 := bitLength_le_of_lt (by omega)
    have hbits1 := one_le_bitLength (show 0 < (interval m q).2.2.1 by omega)
    exact log10Floor_le (by omega) (by omega) (by omega)
  -- the interval is wider than the grid `10^(L-16)`
  have hwidth : ((interval m q).2.2.1 : ℚ) <
      ((interval m q).2.2.1 - (interval m q).2.1) * 10 ^ 16 := by
    rw [← Nat.cast_sub hlohi.le]
    exact_mod_cast interval_upper_lt_width (q := q) hm hm53
  rw [tryDigits_eq]
  simp only
  generalize log10Floor (interval m q).2.2.1 (q - 2) = L at hL ⊢
  have hgrid : (10 : ℚ) ^ (L - (17 : ℕ) + 1) * 10 ^ 16 = 10 ^ L := by
    rw [← zpow_natCast, ← zpow_add₀ (by norm_num)]
    congr 1
    push_cast
    ring
  have hgap : (10 : ℚ) ^ (L - (17 : ℕ) + 1) <
      ((interval m q).2.2.1 - (interval m q).2.1) * 2 ^ (q - 2) := by
    have h2 : (0 : ℚ) < 2 ^ (q - 2) := by positivity
    have h16 : (0 : ℚ) < 10 ^ 16 := by positivity
    nlinarith
  generalize L - (17 : ℕ) + 1 = e at hgap ⊢
  -- one past the quotient of the lower end is a grid point below the upper end
  have hfloor := Nat.div_mul_le_self (ratio (interval m q).2.1 (q - 2) e).1
    (ratio (interval m q).2.1 (q - 2) e).2
  have hk : (((ratio (interval m q).2.1 (q - 2) e).1 / (ratio (interval m q).2.1 (q - 2) e).2 + 1
      : ℕ) : ℚ) * 10 ^ e < (interval m q).2.2.1 * 2 ^ (q - 2) := by
    have h1 := (grid_le_iff _ (interval m q).2.1 (q - 2) e).1 hfloor
    push_cast
    linarith
  have hhi0 : 0 < (ratio (interval m q).2.2.1 (q - 2) e).1 := by
    unfold ratio
    simp only [interval_upper, Nat.pow_eq]
    positivity
  have hkHi := (gridBelow_spec (ratio_snd_pos _ (q - 2) e) hhi0 (interval m q).2.2.2).2.2 _
    ((grid_lt_iff _ _ (q - 2) e).2 hk)
  have hkLo := (gridAbove_spec (ratio (interval m q).2.1 (q - 2) e).1
    (ratio_snd_pos (interval m q).2.1 (q - 2) e) (interval m q).2.2.2).2.2
  rw [if_pos (hkLo.trans hkHi)]
  rfl

section

-- Unfolding `tryDigits` on open arguments goes nowhere and is costly; the search only needs
-- to see which way each attempt went.
attribute [local irreducible] tryDigits

/-- One step of the search: the attempt with `n` digits, or the search from `n + 1` on. -/
theorem shortestFrom_succ (m : ℕ) (q : ℤ) (fuel n : ℕ) :
    shortestFrom m q (fuel + 1) n =
      match tryDigits m q n with
      | some s => s
      | none => shortestFrom m q fuel (n + 1) := rfl

/-- The search from `n` digits on returns what `tryDigits` gives for some digit count, as
long as some count it tries has a grid point. -/
theorem shortestFrom_found {m : ℕ} {q : ℤ} (fuel n : ℕ) {k : ℕ} (hk1 : n ≤ k)
    (hk2 : k < n + fuel) (hk : (tryDigits m q k).isSome) :
    ∃ j, tryDigits m q j = some (shortestFrom m q fuel n) := by
  induction fuel generalizing n with
  | zero => omega
  | succ fuel ih =>
    rw [shortestFrom_succ]
    cases hn : tryDigits m q n with
    | some s => exact ⟨n, hn⟩
    | none =>
      -- the count with a grid point is further on
      have hkn : k ≠ n := by rintro rfl; simp [hn] at hk
      exact ih (n + 1) (by omega) (by omega)

end

/-- The shortest digits of a finite positive value lie in its interval. -/
theorem shortest_within {m : ℕ} {q : ℤ} (hm : 0 < m) (hm53 : m < 9007199254740992)
    (hq1 : -1074 ≤ q) (hq2 : q ≤ 971) :
    Within m q (((shortest m q).digits : ℚ) * 10 ^ (shortest m q).exponent) := by
  obtain ⟨j, hj⟩ := shortestFrom_found (m := m) (q := q) 17 1 (k := 17) (by norm_num)
    (by norm_num) (tryDigits_seventeen_isSome hm hm53 hq1 hq2)
  exact tryDigits_within hj

end EdgeQuery.Decimal
