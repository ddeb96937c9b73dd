import Mathlib
import EdgeQuery.Number.Binary64
/-! # Binary64 values and their bit patterns

`Binary64.parts` takes a value apart into sign, biased exponent and fraction, and
`Binary64.ofParts` puts one together. Lean's `Float` is modelled by bit patterns in which
every not-a-number is one canonical pattern; a pattern is read into an unpacked value and
packed again. This module shows that packing undoes unpacking on every pattern that is not
a not-a-number pattern, so that every value is `ofParts` of its parts, and the parts of
`ofParts p` are `p` whenever `p` describes such a pattern. -/

namespace EdgeQuery.Binary64

open Float.Model Float.Model.UnpackedFloat

/-! ## The fields of a pattern -/

theorem toNat_unpackMantissa (b : BitVec 64) :
    (@unpackMantissa Format.binary64 b).toNat = b.toNat % 4503599627370496 := by
  simp [unpackMantissa]
  
theorem toNat_unpackExponent (b : BitVec 64) :
    (@unpackExponent Format.binary64 b).toNat = b.toNat / 4503599627370496 % 2048 := by
  simp [unpackExponent, Nat.shiftRight_eq_div_pow]

theorem toNat_unpackSign (b : BitVec 64) :
    (@unpackSign Format.binary64 b).toNat = b.toNat / 9223372036854775808 := by
  have := b.isLt
  simp [unpackSign, Nat.shiftRight_eq_div_pow]
  omega

theorem toNat_packComponents (s : Sign) (e : BitVec 11) (m : BitVec 52) :
    (packComponents Format.binary64 s e m).toNat =
      s.toBitVec.toNat * 9223372036854775808 + e.toNat * 4503599627370496 + m.toNat := by
  have hm := m.isLt
  have he := e.isLt
  simp only [packComponents, BitVec.toNat_append]
  have hs : s.toBitVec.toNat < 2 := s.toBitVec.isLt
  rw [← Nat.shiftLeft_add_eq_or_of_lt he, ← Nat.shiftLeft_add_eq_or_of_lt hm]
  simp only [Nat.shiftLeft_eq]
  omega

/-- The sign read from its bit is written back as that bit. -/
theorem toBitVec_ofBitVec (v : BitVec 1) : (Sign.ofBitVec v).toBitVec = v := by
  unfold Sign.ofBitVec
  split
  · rename_i h
    simp [Sign.toBitVec, h]
  · rename_i h
    have hv := v.isLt
    have hne : v.toNat ≠ 0 := fun h0 => h (BitVec.eq_of_toNat_eq (by simpa using h0))
    apply BitVec.eq_of_toNat_eq
    simp [Sign.toBitVec]
    omega

/-- A pattern is put together from its own fields. -/
theorem packComponents_fields (b : BitVec 64) :
    packComponents Format.binary64 (Sign.ofBitVec (@unpackSign Format.binary64 b)) (@unpackExponent Format.binary64 b)
      (@unpackMantissa Format.binary64 b) = b := by
  apply BitVec.eq_of_toNat_eq
  rw [toNat_packComponents, toBitVec_ofBitVec, toNat_unpackSign, toNat_unpackExponent,
    toNat_unpackMantissa]
  have := b.isLt
  omega

/-! ## Packing undoes unpacking -/

/-- A pattern that is not a not-a-number pattern is packed back into itself. -/
theorem pack_unpack (b : BitVec 64)
    (hnan : @unpackExponent Format.binary64 b = -1#11 → @unpackMantissa Format.binary64 b = 0#52) :
    UnpackedFloat.pack Format.binary64 (UnpackedFloat.unpack Format.binary64 b) = b := by
  conv => rhs; rw [← packComponents_fields b]
  unfold UnpackedFloat.unpack
  dsimp only
  by_cases hmax : @unpackExponent Format.binary64 b = -1#11
  · rw [if_pos hmax, if_pos (hnan hmax)]
    simp [UnpackedFloat.pack, packedInfinity, hmax, hnan hmax]
  rw [if_neg hmax]
  by_cases hzero : @unpackExponent Format.binary64 b = 0#11
  · rw [if_pos hzero]
    by_cases hm : @unpackMantissa Format.binary64 b = 0#52
    · rw [dif_pos hm]
      simp [UnpackedFloat.pack, packedZero, hzero, hm]
    · rw [dif_neg hm]
      have hM := (@unpackMantissa Format.binary64 b).isLt
      have hpos : (@unpackMantissa Format.binary64 b).toNat ≠ 0 :=
        fun h => hm (BitVec.eq_of_toNat_eq (by simpa using h))
      have hlog : (@unpackMantissa Format.binary64 b).toNat.log2 < 52 := (Nat.log2_lt hpos).2 hM
      simp [UnpackedFloat.pack, Format.exponentBias, Format.mantissaBits, hzero, Nat.ne_of_lt hlog]
  · rw [if_neg hzero]
    have hE : (@unpackExponent Format.binary64 b).toNat < 2048 := BitVec.isLt _
    have hM : (@unpackMantissa Format.binary64 b).toNat < 4503599627370496 := BitVec.isLt _
    have hE0 : (@unpackExponent Format.binary64 b).toNat ≠ 0 :=
      fun h => hzero (BitVec.eq_of_toNat_eq (by simpa using h))
    have hE1 : (@unpackExponent Format.binary64 b).toNat ≠ 2047 :=
      fun h => hmax (BitVec.eq_of_toNat_eq (by simpa using h))
    -- the hidden bit stands in front of the fraction
    have hfull : (1#1 ++ @unpackMantissa Format.binary64 b).toNat =
        4503599627370496 + (@unpackMantissa Format.binary64 b).toNat := by
      simp only [BitVec.toNat_append]
      rw [← Nat.shiftLeft_add_eq_or_of_lt hM]
      simp [Nat.shiftLeft_eq]
    have hlog : (1#1 ++ @unpackMantissa Format.binary64 b).toNat.log2 = 52 := by
      rw [hfull]
      exact (Nat.log2_eq_iff (by omega)).2 ⟨by simp, by simp; omega⟩
    have hbias : Format.binary64.exponentBias = 1023 := rfl
    simp only [UnpackedFloat.pack, hbias, Format.mantissaBits]
    rw [if_neg (by omega), if_pos (by rw [hlog])]
    congr 1
    · apply BitVec.eq_of_toNat_eq
      simp
      omega
    · apply BitVec.eq_of_toNat_eq
      simp [hfull]
      omega

/-- The canonical not-a-number pattern unpacks and packs to itself. -/
theorem pack_unpack_packedNaN :
    UnpackedFloat.pack Format.binary64 (UnpackedFloat.unpack Format.binary64 (packedNaN Format.binary64)) =
      packedNaN Format.binary64 := by
  decide

/-- Every value is the value of its bits. -/
theorem ofBits_toBits (x : Float) : Float.ofBits x.toBits = x := by
  obtain ⟨⟨u, hvalid⟩⟩ := x
  show Float.ofModel (Float.Model.pack (UnpackedFloat.unpack Format.binary64 u.toBitVec)) = _
  congr 1
  unfold Float.Model.pack
  congr 1
  by_cases hnan : @unpackExponent Format.binary64 u.toBitVec = -1#11 →
      @unpackMantissa Format.binary64 u.toBitVec = 0#52
  · rw [pack_unpack _ hnan]
  · have hcanon := hvalid.eq_packedNaN (Classical.not_imp.1 hnan).1 (Classical.not_imp.1 hnan).2
    rw [hcanon, pack_unpack_packedNaN, ← hcanon]

/-- The bits of the value of a pattern that is not a not-a-number pattern are that pattern. -/
theorem toBits_ofBits (u : UInt64)
    (hnan : @unpackExponent Format.binary64 u.toBitVec = -1#11 →
      @unpackMantissa Format.binary64 u.toBitVec = 0#52) :
    (Float.ofBits u).toBits = u := by
  show UInt64.ofBitVec (UnpackedFloat.pack Format.binary64 (UnpackedFloat.unpack Format.binary64 u.toBitVec)) = u
  rw [pack_unpack _ hnan]

/-! ## Parts -/

/-- The parts of a pattern that is not a not-a-number pattern: an eleven-bit exponent, a
52-bit fraction, and a zero fraction under the full exponent. -/
structure Parts.Valid (p : Parts) : Prop where
  exponent_lt : p.exponent < 2048
  fraction_lt : p.fraction < 4503599627370496
  fraction_of_full : p.exponent = 2047 → p.fraction = 0

/-- The pattern `ofParts` builds, as a number. -/
theorem toNat_ofParts_bits (p : Parts) (he : p.exponent < 2048) (hf : p.fraction < 4503599627370496) :
    (((if p.negative then Nat.pow 2 63 else 0) + p.exponent % 2048 * Nat.pow 2 52
      + p.fraction % Nat.pow 2 52).toUInt64).toNat =
      (if p.negative then 9223372036854775808 else 0) + p.exponent * 4503599627370496 + p.fraction := by
  have h63 : Nat.pow 2 63 = 9223372036854775808 := rfl
  have h52 : Nat.pow 2 52 = 4503599627370496 := rfl
  rw [h63, h52, Nat.mod_eq_of_lt he, Nat.mod_eq_of_lt hf]
  simp only [Nat.toUInt64, UInt64.toNat_ofNat']
  split <;> omega

/-- The parts of a value put together from valid parts are those parts. -/
theorem parts_ofParts {p : Parts} (hp : p.Valid) : parts (ofParts p) = p := by
  have he := hp.exponent_lt
  have hf := hp.fraction_lt
  unfold ofParts parts
  rw [toBits_ofBits]
  · rw [toNat_ofParts_bits _ he hf]
    obtain ⟨neg, e, f⟩ := p
    simp only at he hf ⊢
    have h63 : Nat.pow 2 63 = 9223372036854775808 := rfl
    have h52 : Nat.pow 2 52 = 4503599627370496 := rfl
    rw [h63, h52]
    cases neg <;> simp <;> omega
  · -- the pattern is no not-a-number pattern: its exponent field is full only for infinities
    intro hexp
    have hx := congrArg BitVec.toNat hexp
    rw [toNat_unpackExponent, UInt64.toNat_toBitVec, toNat_ofParts_bits p he hf] at hx
    apply BitVec.eq_of_toNat_eq
    rw [toNat_unpackMantissa, UInt64.toNat_toBitVec, toNat_ofParts_bits p he hf]
    have hx' : p.exponent = 2047 := by
      simp at hx
      split at hx <;> omega
    have := hp.fraction_of_full hx'
    simp
    split <;> omega

/-- Every value is put together from its own parts. -/
theorem ofParts_parts (x : Float) : ofParts (parts x) = x := by
  have hb : x.toBits.toNat < 18446744073709551616 := x.toBits.toNat_lt
  have h63 : Nat.pow 2 63 = 9223372036854775808 := rfl
  have h52 : Nat.pow 2 52 = 4503599627370496 := rfl
  -- the three fields add up to the pattern again
  have hsum : (if (parts x).negative then Nat.pow 2 63 else 0) + (parts x).exponent % 2048 * Nat.pow 2 52
      + (parts x).fraction % Nat.pow 2 52 = x.toBits.toNat := by
    simp only [parts, h63, h52]
    by_cases hs : x.toBits.toNat / 9223372036854775808 % 2 = 1
    · simp [hs]
      omega
    · simp [hs]
      omega
  unfold ofParts
  rw [hsum]
  show Float.ofBits (UInt64.ofNat x.toBits.toNat) = x
  rw [UInt64.ofNat_toNat]
  exact ofBits_toBits x

/-- Values with the same parts are equal. -/
theorem eq_of_parts_eq {x y : Float} (h : parts x = parts y) : x = y := by
  rw [← ofParts_parts x, ← ofParts_parts y, h]

/-! ## Finite and infinite values -/

theorem isFinite_ofParts {p : Parts} (hp : p.Valid) (he : p.exponent < 2047) :
    isFinite (ofParts p) = true := by
  simp [isFinite, parts_ofParts hp]
  omega

theorem isInfinite_infinity (negative : Bool) : isInfinite (infinity negative) = true := by
  have hv : Parts.Valid ⟨negative, 2047, 0⟩ := ⟨by simp, by simp, fun _ => rfl⟩
  simp [isInfinite, infinity, parts_ofParts hv]

end EdgeQuery.Binary64
