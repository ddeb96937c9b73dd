import Mathlib.Algebra.Order.Field.Power
import Mathlib.Tactic.FieldSimp
import Mathlib.Tactic.Linarith
import Mathlib.Tactic.Positivity
import Mathlib.Tactic.Ring
import Mathlib.Data.Rat.Cast.Order
import EdgeQuery.Number.Shortest
import EdgeQuery.Proofs.FloatBits
/-! # Rounding a ratio to binary64

`Binary64.ofRatio` reads an exact ratio `num / den` as the nearest binary64 value, a tie
going to an even significand. It finds the binary exponent of the leading digit, scales
the ratio to a significand of 53 bits (fewer below the normal range), rounds half to even,
and packs the result, carrying into the next exponent when rounding reaches `2^53`.

Every finite positive value `m * 2^q` is the value of a whole interval of ratios, the one
`Decimal.interval` gives: half a unit on each side (a quarter unit below a power of two),
the ends included exactly when `m` is even. The main result, `ofRatio_of_within`, is that
`ofRatio` reads every ratio in that interval as the value: the rounding is correct. The
computation is split into three named steps first, so that each has its own lemma. -/

namespace EdgeQuery.Binary64

/-- The binary exponent of the leading digit of `num / den`, as `ofRatio` finds it. -/
def leadExponent (num den : ℕ) : ℤ :=
  let t0 : Int := (bitLength num : Int) - (bitLength den : Int)
  if (if 0 ≤ t0 then num ≥ den * Nat.pow 2 t0.toNat else num * Nat.pow 2 (-t0).toNat ≥ den)
  then t0 else t0 - 1

/-- `num / den` divided by `2^q`, as a pair of natural numbers. -/
def scaleBy (num den : ℕ) (q : ℤ) : ℕ × ℕ :=
  if q ≤ 0 then (num * Nat.pow 2 (-q).toNat, den) else (num, den * Nat.pow 2 q.toNat)

/-- The value of a rounded significand `m` at exponent `q`: a carry into a new binary digit
moves up one exponent, a small significand is subnormal, and a large exponent is infinite. -/
def packRounded (negative : Bool) (m : ℕ) (q : ℤ) : Float :=
  let (m, q) := if m = Nat.pow 2 53 then (Nat.pow 2 52, q + 1) else (m, q)
  if m < Nat.pow 2 52 then ofParts ⟨negative, 0, m⟩
  else
    let e := q + 1075
    if e ≥ 2047 then infinity negative
    else ofParts ⟨negative, e.toNat, m - Nat.pow 2 52⟩

theorem ofRatio_eq (negative : Bool) (num den : ℕ) :
    ofRatio negative num den =
      if num = 0 ∨ den = 0 then zero negative
      else
        let q := max (leadExponent num den - 52) (-1074)
        packRounded negative (roundHalfEven (scaleBy num den q).1 (scaleBy num den q).2) q := by
  unfold ofRatio leadExponent scaleBy packRounded
  rfl


/-! ## The leading binary digit -/

theorem two_pow_bitLength_le {n : ℕ} (hn : 0 < n) : 2 ^ (bitLength n - 1) ≤ n := by
  rw [bitLength, if_neg (Nat.pos_iff_ne_zero.1 hn), Nat.add_sub_cancel]
  exact Nat.log2_self_le (Nat.pos_iff_ne_zero.1 hn)

theorem lt_two_pow_bitLength (n : ℕ) : n < 2 ^ bitLength n := by
  unfold bitLength
  split
  · simp_all
  · exact Nat.lt_log2_self

theorem one_le_bitLength {n : ℕ} (hn : 0 < n) : 1 ≤ bitLength n := by
  simp [bitLength, Nat.pos_iff_ne_zero.1 hn]

/-- The comparison `ofRatio` makes without fractions is `2^t ≤ num / den`. -/
theorem scaled_ge_iff {num den : ℕ} (hden : 0 < den) (t : ℤ) :
    (if 0 ≤ t then num ≥ den * Nat.pow 2 t.toNat else num * Nat.pow 2 (-t).toNat ≥ den) ↔
      (2 : ℚ) ^ t ≤ num / den := by
  have hd : (0 : ℚ) < den := by exact_mod_cast hden
  rw [le_div_iff₀ hd]
  split
  · rename_i ht
    rw [show t = (t.toNat : ℤ) by omega, zpow_natCast, Nat.pow_eq, ge_iff_le, Int.toNat_natCast,
      ← Nat.cast_le (α := ℚ)]
    push_cast
    rw [mul_comm]
  · rename_i ht
    rw [show t = -((-t).toNat : ℤ) by omega, zpow_neg, zpow_natCast, Nat.pow_eq, ge_iff_le,
      neg_neg, Int.toNat_natCast, ← Nat.cast_le (α := ℚ)]
    push_cast
    rw [inv_mul_le_iff₀ (by positivity), mul_comm]

/-- `leadExponent` finds the binary exponent of the leading digit of `num / den`. -/
theorem leadExponent_bounds {num den : ℕ} (hnum : 0 < num) (hden : 0 < den) :
    (2 : ℚ) ^ leadExponent num den ≤ num / den ∧ (num : ℚ) / den < 2 ^ (leadExponent num den + 1) := by
  have hd : (0 : ℚ) < den := by exact_mod_cast hden
  -- `num` and `den` lie between consecutive powers of two given by their bit lengths
  have hn1 : (2 : ℚ) ^ ((bitLength num : ℤ) - 1) ≤ num := by
    rw [show (bitLength num : ℤ) - 1 = ((bitLength num - 1 : ℕ) : ℤ) by
      have := one_le_bitLength hnum; omega, zpow_natCast]
    exact_mod_cast two_pow_bitLength_le hnum
  have hn2 : (num : ℚ) < 2 ^ (bitLength num : ℤ) := by
    rw [zpow_natCast]; exact_mod_cast lt_two_pow_bitLength num
  have hd1 : (2 : ℚ) ^ ((bitLength den : ℤ) - 1) ≤ den := by
    rw [show (bitLength den : ℤ) - 1 = ((bitLength den - 1 : ℕ) : ℤ) by
      have := one_le_bitLength hden; omega, zpow_natCast]
    exact_mod_cast two_pow_bitLength_le hden
  have hd2 : (den : ℚ) < 2 ^ (bitLength den : ℤ) := by
    rw [zpow_natCast]; exact_mod_cast lt_two_pow_bitLength den
  set t0 : ℤ := (bitLength num : ℤ) - bitLength den with ht0
  -- hence `2^(t0-1) < num / den < 2^(t0+1)`
  have hlow : (2 : ℚ) ^ (t0 - 1) < num / den := by
    rw [lt_div_iff₀ hd, show t0 - 1 = ((bitLength num : ℤ) - 1) - bitLength den by omega,
      zpow_sub₀ (by norm_num), div_mul_eq_mul_div, div_lt_iff₀ (by positivity)]
    calc (2 : ℚ) ^ ((bitLength num : ℤ) - 1) * den
        < 2 ^ ((bitLength num : ℤ) - 1) * 2 ^ (bitLength den : ℤ) := by gcongr
      _ ≤ num * 2 ^ (bitLength den : ℤ) := by gcongr
  have hhigh : (num : ℚ) / den < 2 ^ (t0 + 1) := by
    rw [div_lt_iff₀ hd, show t0 + 1 = (bitLength num : ℤ) - ((bitLength den : ℤ) - 1) by omega,
      zpow_sub₀ (by norm_num), div_mul_eq_mul_div, lt_div_iff₀ (by positivity)]
    calc (num : ℚ) * 2 ^ ((bitLength den : ℤ) - 1)
        < 2 ^ (bitLength num : ℤ) * 2 ^ ((bitLength den : ℤ) - 1) := by gcongr
      _ ≤ 2 ^ (bitLength num : ℤ) * den := by gcongr
  unfold leadExponent
  simp only [← ht0]
  by_cases hc : (2 : ℚ) ^ t0 ≤ num / den
  · rw [if_pos ((scaled_ge_iff hden t0).2 hc)]
    exact ⟨hc, hhigh⟩
  · rw [if_neg (fun h => hc ((scaled_ge_iff hden t0).1 h)), sub_add_cancel]
    exact ⟨hlow.le, lt_of_not_ge hc⟩

/-! ## Scaling and rounding -/

theorem scaleBy_snd_pos {num den : ℕ} (hden : 0 < den) (q : ℤ) : 0 < (scaleBy num den q).2 := by
  unfold scaleBy
  split
  · exact hden
  · exact Nat.mul_pos hden (by rw [Nat.pow_eq]; positivity)

/-- The scaled pair is `num / den` divided by `2^q`. -/
theorem scaleBy_div (num den : ℕ) (q : ℤ) :
    ((scaleBy num den q).1 : ℚ) / (scaleBy num den q).2 = num / den / 2 ^ q := by
  unfold scaleBy
  split
  · rename_i hq
    rw [show q = -((-q).toNat : ℤ) by omega, zpow_neg, zpow_natCast, div_inv_eq_mul, neg_neg,
      Int.toNat_natCast, Nat.pow_eq]
    push_cast
    rw [mul_div_right_comm]
  · rename_i hq
    rw [show q = (q.toNat : ℤ) by omega, zpow_natCast, Int.toNat_natCast, Nat.pow_eq]
    push_cast
    rw [div_div]

/-- Round half to even on natural numbers: the result is `m` when `num / den` is within
half a unit of `m`, a tie only at an even `m`. -/
theorem roundHalfEven_eq_nat {num den m : ℕ} (hden : 0 < den)
    (hlo : 2 * (m * den) ≤ 2 * num + den) (hhi : 2 * num ≤ 2 * (m * den) + den)
    (htie : 2 * (m * den) = 2 * num + den ∨ 2 * num = 2 * (m * den) + den → m % 2 = 0) :
    roundHalfEven num den = m := by
  have hdiv := Nat.div_add_mod num den
  have hr := Nat.mod_lt num hden
  set q := num / den
  set r := num % den
  -- `m` is the quotient or one more
  have hq : q ≤ m := by
    by_contra h
    have := Nat.mul_le_mul_right den (show m + 1 ≤ q by omega)
    rw [Nat.add_mul, Nat.one_mul, Nat.mul_comm q den] at this
    omega
  have hq' : m ≤ q + 1 := by
    by_contra h
    have := Nat.mul_le_mul_right den (show q + 2 ≤ m by omega)
    rw [Nat.add_mul, Nat.mul_comm q den] at this
    omega
  unfold roundHalfEven
  simp only
  rcases Nat.eq_or_lt_of_le hq with hm | hm
  · -- `m` is the quotient: the remainder is at most half a unit
    subst hm
    rw [Nat.mul_comm q den] at hlo hhi htie
    rw [if_neg (by omega)]
    split
    · rename_i htie2
      rw [if_neg (by have := htie (Or.inr (by omega)); omega)]
    · rfl
  · -- `m` is one more: the remainder is at least half a unit
    have hm' : m = q + 1 := by omega
    subst hm'
    rw [Nat.add_mul, Nat.one_mul, Nat.mul_comm q den] at hlo hhi htie
    split
    · rfl
    · rw [if_pos (by omega), if_pos (by have := htie (Or.inl (by omega)); omega)]

/-- Round half to even, for a ratio within half a unit of `m`, a tie only at an even `m`. -/
theorem roundHalfEven_eq_of_near {num den m : ℕ} (hden : 0 < den)
    (hlo : (m : ℚ) - 1 / 2 ≤ num / den) (hhi : (num : ℚ) / den ≤ m + 1 / 2)
    (htie : (m : ℚ) - 1 / 2 = num / den ∨ (num : ℚ) / den = m + 1 / 2 → m % 2 = 0) :
    roundHalfEven num den = m := by
  have hd : (0 : ℚ) < den := by exact_mod_cast hden
  -- clear the fractions: both sides times `2 * den`
  have key : ∀ a b : ℚ, a = b ↔ 2 * den * a = 2 * den * b := fun a b =>
    ⟨fun h => by rw [h], fun h => mul_left_cancel₀ (by positivity) h⟩
  have e1 : 2 * den * ((m : ℚ) - 1 / 2) = 2 * (m * den) - den := by ring
  have e2 : 2 * den * ((num : ℚ) / den) = 2 * num := by field_simp
  have e3 : 2 * den * ((m : ℚ) + 1 / 2) = 2 * (m * den) + den := by ring
  apply roundHalfEven_eq_nat hden
  · have h := mul_le_mul_of_nonneg_left hlo (by positivity : (0 : ℚ) ≤ 2 * den)
    rw [e1, e2] at h
    exact_mod_cast (by linarith : (2 * (m * den) : ℚ) ≤ 2 * num + den)
  · have h := mul_le_mul_of_nonneg_left hhi (by positivity : (0 : ℚ) ≤ 2 * den)
    rw [e2, e3] at h
    exact_mod_cast h
  · intro h
    apply htie
    rw [key, e1, e2, key ((num : ℚ) / den), e2, e3]
    rcases h with h | h
    · left
      have h' : (2 * (m * den) : ℚ) = 2 * num + den := by exact_mod_cast h
      linarith
    · right
      exact_mod_cast h

/-! ## Putting the rounded value together -/

theorem packRounded_subnormal (negative : Bool) {m : ℕ} (hm : m < 4503599627370496) (q : ℤ) :
    packRounded negative m q = ofParts ⟨negative, 0, m⟩ := by
  have h53 : Nat.pow 2 53 = 9007199254740992 := rfl
  have h52 : Nat.pow 2 52 = 4503599627370496 := rfl
  unfold packRounded
  rw [h53, h52, if_neg (by omega)]
  simp only
  rw [if_pos hm]

theorem packRounded_normal (negative : Bool) {m : ℕ} (hm : 4503599627370496 ≤ m)
    (hm' : m < 9007199254740992) {q : ℤ} (hq : q + 1075 < 2047) :
    packRounded negative m q = ofParts ⟨negative, (q + 1075).toNat, m - 4503599627370496⟩ := by
  have h53 : Nat.pow 2 53 = 9007199254740992 := rfl
  have h52 : Nat.pow 2 52 = 4503599627370496 := rfl
  unfold packRounded
  rw [h53, h52, if_neg (by omega)]
  simp only
  rw [if_neg (by omega), if_neg (by omega)]

/-- A significand rounded up to `2^53` carries into the next exponent. -/
theorem packRounded_carry (negative : Bool) {q : ℤ} (hq : q + 1076 < 2047) :
    packRounded negative 9007199254740992 q = ofParts ⟨negative, (q + 1076).toNat, 0⟩ := by
  have h53 : Nat.pow 2 53 = 9007199254740992 := rfl
  have h52 : Nat.pow 2 52 = 4503599627370496 := rfl
  unfold packRounded
  rw [h53, h52, if_pos rfl]
  simp only
  rw [if_neg (by omega), if_neg (by omega), show q + 1 + 1075 = q + 1076 by ring]

/-- The significand and exponent of a finite value: a normal value has a significand of 53
bits and an exponent from `-1074` to `971`; a subnormal one a smaller significand at `-1074`. -/
theorem significand_cases (p : Parts) (hexp : p.exponent < 2047) (hfrac : p.fraction < 4503599627370496) :
    (significand p).1 < 9007199254740992 ∧ -1074 ≤ (significand p).2 ∧ (significand p).2 ≤ 971 ∧
    ((significand p).1 < 4503599627370496 →
      (significand p).2 = -1074 ∧ p.exponent = 0 ∧ p.fraction = (significand p).1) ∧
    (4503599627370496 ≤ (significand p).1 →
      p.exponent = ((significand p).2 + 1075).toNat ∧ p.fraction = (significand p).1 - 4503599627370496) := by
  have h52 : Nat.pow 2 52 = 4503599627370496 := rfl
  unfold significand
  split
  · rename_i h
    simp only
    exact ⟨by omega, by omega, by omega, fun _ => ⟨trivial, h, trivial⟩, fun h' => by omega⟩
  · rename_i h
    simp only [h52]
    omega

end EdgeQuery.Binary64

namespace EdgeQuery.Decimal

/-- The ratio `x` reads as the finite positive value `m * 2^q`: it lies between the ends of
the interval `interval m q` gives in units of `2^(q-2)`, and on an end only when the
interval includes its ends. -/
structure Within (m : ℕ) (q : ℤ) (x : ℚ) : Prop where
  lower : ((interval m q).2.1 : ℚ) * 2 ^ (q - 2) ≤ x
  upper : x ≤ ((interval m q).2.2.1 : ℚ) * 2 ^ (q - 2)
  lower_strict : (interval m q).2.2.2 = false → ((interval m q).2.1 : ℚ) * 2 ^ (q - 2) < x
  upper_strict : (interval m q).2.2.2 = false → x < ((interval m q).2.2.1 : ℚ) * 2 ^ (q - 2)

@[simp] theorem interval_lower (m : ℕ) (q : ℤ) :
    (interval m q).2.1 = 4 * m - (if m = 4503599627370496 ∧ q > -1074 then 1 else 2) := rfl

@[simp] theorem interval_upper (m : ℕ) (q : ℤ) : (interval m q).2.2.1 = 4 * m + 2 := rfl

@[simp] theorem interval_inclusive (m : ℕ) (q : ℤ) : (interval m q).2.2.2 = decide (m % 2 = 0) := rfl

/-- Within the interval, the ratio in units of `2^q` is at most half a unit from `m`, a
quarter below at a power of two, and on an end only for an even `m`. -/
theorem Within.scaled {m : ℕ} {q : ℤ} {x : ℚ} (hm : 0 < m) (hx : Within m q x) :
    (m : ℚ) - (if m = 4503599627370496 ∧ q > -1074 then 1 else 2) / 4 ≤ x / 2 ^ q ∧
    x / 2 ^ q ≤ m + 1 / 2 ∧
    (m % 2 = 1 → (m : ℚ) - (if m = 4503599627370496 ∧ q > -1074 then 1 else 2) / 4 < x / 2 ^ q ∧
      x / 2 ^ q < m + 1 / 2) := by
  have hq : (0 : ℚ) < 2 ^ q := by positivity
  have h4 : (2 : ℚ) ^ (q - 2) = 2 ^ q / 4 := by rw [zpow_sub₀ (by norm_num)]; norm_num
  -- the ends of the interval, in units of `2^q`
  have hlo : (((interval m q).2.1 : ℕ) : ℚ) * 2 ^ (q - 2) / 2 ^ q =
      (m : ℚ) - (if m = 4503599627370496 ∧ q > -1074 then 1 else 2) / 4 := by
    rw [interval_lower, h4, Nat.cast_sub (by split <;> omega)]
    field_simp
    split <;> push_cast <;> ring
  have hhi : (((interval m q).2.2.1 : ℕ) : ℚ) * 2 ^ (q - 2) / 2 ^ q = (m : ℚ) + 1 / 2 := by
    rw [interval_upper, h4]
    field_simp
    push_cast
    ring
  refine ⟨?_, ?_, fun hodd => ⟨?_, ?_⟩⟩
  · rw [← hlo]; exact div_le_div_of_nonneg_right hx.lower hq.le
  · rw [← hhi]; exact div_le_div_of_nonneg_right hx.upper hq.le
  · rw [← hlo]
    exact div_lt_div_of_pos_right (hx.lower_strict (by simp; omega)) hq
  · rw [← hhi]
    exact div_lt_div_of_pos_right (hx.upper_strict (by simp; omega)) hq

end EdgeQuery.Decimal

namespace EdgeQuery.Binary64

open Decimal

/-- Inside the interval of `m * 2^q`, the ratio in units of `2^q` rounds to `m`. -/
theorem roundHalfEven_of_within {m : ℕ} {q : ℤ} {num den : ℕ} (hden : 0 < den) (hm : 0 < m)
    (hx : Within m q (num / den)) :
    roundHalfEven (scaleBy num den q).1 (scaleBy num den q).2 = m := by
  obtain ⟨hlo, hhi, hstrict⟩ := hx.scaled hm
  have hgap : (if m = 4503599627370496 ∧ q > -1074 then (1 : ℚ) else 2) / 4 ≤ 1 / 2 := by
    split <;> norm_num
  apply roundHalfEven_eq_of_near (scaleBy_snd_pos hden q) <;> rw [scaleBy_div]
  · linarith
  · exact hhi
  · -- a tie is an end of the interval, which only an even `m` includes
    intro htie
    by_contra hodd
    obtain ⟨h1, h2⟩ := hstrict (by omega)
    rcases htie with h | h <;> linarith

/-- Just below `2^53` units of `2^q`, the ratio rounds up to `2^53`. -/
theorem roundHalfEven_carry {q : ℤ} {num den : ℕ} (hden : 0 < den)
    (hlo : ((9007199254740992 : ℚ) - 1 / 2) * 2 ^ q ≤ num / den)
    (hhi : (num : ℚ) / den < 9007199254740992 * 2 ^ q) :
    roundHalfEven (scaleBy num den q).1 (scaleBy num den q).2 = 9007199254740992 := by
  have hq : (0 : ℚ) < 2 ^ q := by positivity
  apply roundHalfEven_eq_of_near (scaleBy_snd_pos hden q) <;> rw [scaleBy_div]
  · rw [le_div_iff₀ hq]; push_cast; linarith
  · rw [div_le_iff₀ hq]; push_cast; nlinarith
  · intro _; rfl

/-- A ratio inside the interval of a finite positive value reads as that value: `ofRatio`
rounds correctly. -/
theorem ofRatio_of_within (negative : Bool) {num den : ℕ} (hden : 0 < den) {p : Parts}
    (hexp : p.exponent < 2047) (hfrac : p.fraction < 4503599627370496)
    (hpos : 0 < (significand p).1)
    (hx : Within (significand p).1 (significand p).2 (num / den)) :
    ofRatio negative num den = ofParts ⟨negative, p.exponent, p.fraction⟩ := by
  obtain ⟨hm53, hq1, hq2, hsub, hnorm⟩ := significand_cases p hexp hfrac
  set m := (significand p).1
  set q0 := (significand p).2
  obtain ⟨hlo, hhi, -⟩ := hx.scaled hpos
  have hq0 : (0 : ℚ) < 2 ^ q0 := by positivity
  have hgap : (if m = 4503599627370496 ∧ q0 > -1074 then (1 : ℚ) else 2) / 4 ≤ 1 / 2 := by
    split <;> norm_num
  have hm1 : (1 : ℚ) ≤ m := by exact_mod_cast hpos
  have hX : (0 : ℚ) < num / den := by
    have hY : (0 : ℚ) < num / den / 2 ^ q0 := by linarith
    have := mul_pos hY hq0
    rwa [div_mul_cancel₀ _ hq0.ne'] at this
  have hnum : 0 < num := by
    rcases Nat.eq_zero_or_pos num with h | h
    · simp [h] at hX
    · exact h
  obtain ⟨ht1, ht2⟩ := leadExponent_bounds hnum hden
  set t := leadExponent num den
  rw [ofRatio_eq, if_neg (by omega)]
  simp only
  -- the ratio is below `2^(q0 + 53)`, so its leading digit is at most at `q0 + 52`
  have hup : (num : ℚ) / den < 2 ^ (q0 + 53) := by
    have hm' : (m : ℚ) ≤ 9007199254740991 := by exact_mod_cast (by omega : m ≤ 9007199254740991)
    have h53 : (2 : ℚ) ^ (53 : ℤ) = 9007199254740992 := by norm_num
    rw [zpow_add₀ (by norm_num), h53, mul_comm, ← div_lt_iff₀ hq0]
    linarith
  have htq : t ≤ q0 + 52 := by
    by_contra h
    have := zpow_le_zpow_right₀ (by norm_num : (1 : ℚ) ≤ 2) (show q0 + 53 ≤ t by omega)
    linarith
  have h52 : (2 : ℚ) ^ (q0 + 52) = 4503599627370496 * 2 ^ q0 := by
    rw [zpow_add₀ (by norm_num), mul_comm]; norm_num
  have h51 : (2 : ℚ) ^ (q0 + 51) = 2251799813685248 * 2 ^ q0 := by
    rw [zpow_add₀ (by norm_num), mul_comm]; norm_num
  by_cases hcarry : t = q0 + 51 ∧ q0 > -1074 ∧ 4503599627370496 ≤ m
  · -- the leading digit is one place lower: only `2^52` just below a power of two does this,
    -- and its ratio rounds up to `2^53` units of `2^(q0-1)`
    obtain ⟨ht, hq, hbig⟩ := hcarry
    have hbelow : (num : ℚ) / den / 2 ^ q0 < 4503599627370496 := by
      rw [div_lt_iff₀ hq0, ← h52, ← show t + 1 = q0 + 52 by omega]
      exact ht2
    have hm : m = 4503599627370496 := by
      by_contra hne
      have : (4503599627370497 : ℚ) ≤ m := by exact_mod_cast (by omega : 4503599627370497 ≤ m)
      linarith
    have hlo' : (m : ℚ) - 1 / 4 ≤ num / den / 2 ^ q0 := by
      rw [if_pos ⟨hm, hq⟩] at hlo
      linarith
    have hq1' : (2 : ℚ) ^ (q0 - 1) = 2 ^ q0 / 2 := by
      rw [zpow_sub₀ (by norm_num)]; norm_num
    rw [show max (t - 52) (-1074) = q0 - 1 by omega]
    rw [roundHalfEven_carry hden ?_ ?_, packRounded_carry negative (by omega)]
    · obtain ⟨he, hf⟩ := hnorm hbig
      rw [he, hf, hm, show q0 - 1 + 1076 = q0 + 1075 by ring]
    · rw [hm] at hlo'
      push_cast at hlo'
      calc ((9007199254740992 : ℚ) - 1 / 2) * 2 ^ (q0 - 1)
          = (4503599627370496 - 1 / 4) * 2 ^ q0 := by rw [hq1']; ring
        _ ≤ (num : ℚ) / den / 2 ^ q0 * 2 ^ q0 := mul_le_mul_of_nonneg_right hlo' hq0.le
        _ = num / den := div_mul_cancel₀ _ hq0.ne'
    · calc (num : ℚ) / den = (num : ℚ) / den / 2 ^ q0 * 2 ^ q0 := (div_mul_cancel₀ _ hq0.ne').symm
        _ < 4503599627370496 * 2 ^ q0 := mul_lt_mul_of_pos_right hbelow hq0
        _ = 9007199254740992 * 2 ^ (q0 - 1) := by rw [hq1']; ring
  · -- otherwise the exponent `ofRatio` scales by is the value's own
    have hmax : max (t - 52) (-1074) = q0 := by
      by_cases hbig : 4503599627370496 ≤ m
      · have : q0 + 51 < t + 1 := by
          have hm' : (4503599627370496 : ℚ) ≤ m := by exact_mod_cast hbig
          have h1 : (2 : ℚ) ^ (q0 + 51) < num / den := by
            rw [h51, ← lt_div_iff₀ hq0]
            linarith
          exact (zpow_lt_zpow_iff_right₀ (by norm_num : (1 : ℚ) < 2)).1 (lt_trans h1 ht2)
        omega
      · obtain ⟨hq, -, -⟩ := hsub (by omega)
        have : t < q0 + 52 := by
          have hm' : (m : ℚ) ≤ 4503599627370495 := by exact_mod_cast (by omega : m ≤ 4503599627370495)
          have h1 : (num : ℚ) / den < 2 ^ (q0 + 52) := by
            rw [h52, ← div_lt_iff₀ hq0]
            linarith
          exact (zpow_lt_zpow_iff_right₀ (by norm_num : (1 : ℚ) < 2)).1 (lt_of_le_of_lt ht1 h1)
        omega
    rw [hmax, roundHalfEven_of_within hden hpos hx]
    by_cases hbig : 4503599627370496 ≤ m
    · rw [packRounded_normal negative hbig hm53 (by omega)]
      obtain ⟨he, hf⟩ := hnorm hbig
      rw [he, hf]
    · rw [packRounded_subnormal negative (by omega)]
      obtain ⟨-, he, hf⟩ := hsub (by omega)
      rw [he, hf]

end EdgeQuery.Binary64

namespace EdgeQuery.Binary64

/-- A zero ratio reads as the zero of its sign. -/
theorem ofRatio_zero (negative : Bool) (den : ℕ) : ofRatio negative 0 den = zero negative := by
  rw [ofRatio_eq, if_pos (Or.inl rfl)]

/-- Rounding a ratio below `k` gives at most `k`. -/
theorem roundHalfEven_le {num den k : ℕ} (hden : 0 < den) (h : num < k * den) :
    roundHalfEven num den ≤ k := by
  have hq : num / den < k := (Nat.div_lt_iff_lt_mul hden).2 h
  unfold roundHalfEven
  simp only
  split
  · omega
  · split
    · split <;> omega
    · omega

/-- Scaled by the exponent `ofRatio` chooses, a positive ratio is below `2^53`. -/
theorem scaleBy_lt {num den : ℕ} (hnum : 0 < num) (hden : 0 < den) :
    (scaleBy num den (max (leadExponent num den - 52) (-1074))).1 <
      9007199254740992 * (scaleBy num den (max (leadExponent num den - 52) (-1074))).2 := by
  set q := max (leadExponent num den - 52) (-1074)
  have hd : (0 : ℚ) < (scaleBy num den q).2 := by exact_mod_cast scaleBy_snd_pos hden q
  have hq : (0 : ℚ) < 2 ^ q := by positivity
  have ht := (leadExponent_bounds hnum hden).2
  -- `2^(t+1) ≤ 2^53 * 2^q` because `q ≥ t - 52`
  have hle : (2 : ℚ) ^ (leadExponent num den + 1) ≤ 9007199254740992 * 2 ^ q := by
    have h53 : (9007199254740992 : ℚ) = 2 ^ (53 : ℤ) := by norm_num
    rw [h53, ← zpow_add₀ (by norm_num)]
    exact zpow_le_zpow_right₀ (by norm_num) (by omega)
  have hlt : ((scaleBy num den q).1 : ℚ) / (scaleBy num den q).2 < 9007199254740992 := by
    rw [scaleBy_div, div_lt_iff₀ hq]
    linarith
  rw [div_lt_iff₀ hd] at hlt
  exact_mod_cast hlt

/-- A significand whose exponent is past the largest finite one packs into an infinity. -/
theorem packRounded_overflow (negative : Bool) {m : ℕ} (hm : 4503599627370496 ≤ m)
    (hm' : m ≤ 9007199254740992) {q : ℤ}
    (hq : 2047 ≤ q + 1075 + (if m = 9007199254740992 then 1 else 0)) :
    packRounded negative m q = infinity negative := by
  have h53 : Nat.pow 2 53 = 9007199254740992 := rfl
  have h52 : Nat.pow 2 52 = 4503599627370496 := rfl
  unfold packRounded
  rw [h53, h52]
  by_cases hc : m = 9007199254740992
  · rw [if_pos hc] at hq ⊢
    simp only
    rw [if_neg (by omega), if_pos (by omega)]
  · rw [if_neg hc] at hq ⊢
    simp only
    rw [if_neg (by omega), if_pos (by omega)]

/-- A significand of at most `2^53` packs into a finite value unless it overflows. -/
theorem isFinite_packRounded (negative : Bool) {m : ℕ} (hm : m ≤ 9007199254740992) (q : ℤ)
    (h : isInfinite (packRounded negative m q) = false) :
    isFinite (packRounded negative m q) = true := by
  by_cases hsmall : m < 4503599627370496
  · rw [packRounded_subnormal negative hsmall]
    exact isFinite_ofParts ⟨by simp, by simp; omega, by simp⟩ (by simp)
  by_cases hq : q + 1075 + (if m = 9007199254740992 then 1 else 0) < 2047
  · by_cases hc : m = 9007199254740992
    · subst hc
      rw [if_pos rfl] at hq
      rw [packRounded_carry negative (by omega)]
      exact isFinite_ofParts ⟨by simp; omega, by simp, by simp⟩ (by simp; omega)
    · rw [if_neg hc] at hq
      rw [packRounded_normal negative (by omega) (by omega) (by omega)]
      exact isFinite_ofParts ⟨by simp; omega, by simp; omega, by simp; omega⟩ (by simp; omega)
  · rw [packRounded_overflow negative (by omega) hm (by omega), isInfinite_infinity] at h
    exact absurd h (by decide)

/-- `ofRatio` gives an infinity or a finite value, never a not-a-number. -/
theorem isFinite_ofRatio (negative : Bool) (num den : ℕ)
    (h : isInfinite (ofRatio negative num den) = false) :
    isFinite (ofRatio negative num den) = true := by
  rw [ofRatio_eq] at h ⊢
  split at h
  · rw [if_pos ‹_›]
    exact isFinite_ofParts ⟨by simp, by simp, by simp⟩ (by simp)
  · rename_i hpos
    rw [if_neg hpos]
    simp only at h ⊢
    have hnum : 0 < num := by omega
    have hden : 0 < den := by omega
    exact isFinite_packRounded negative
      (roundHalfEven_le (scaleBy_snd_pos hden _) (scaleBy_lt hnum hden)) _ h

end EdgeQuery.Binary64
