/-! # Binary64 numbers by their bits

A binary64 value is a sign, an eleven-bit biased exponent and a 52-bit fraction. A finite
nonzero value is `m * 2^q` with an integer significand `m`: for normal numbers `m` has the
hidden bit 2^52 and `q = e - 1075`; subnormal numbers have `e = 0`, no hidden bit and
`q = -1074`.

This module takes values apart and builds them from an exact rational by rounding to the
nearest representable value, ties to an even significand. A rational past the largest
finite value by half a unit or more becomes infinite. Reading decimal and hexadecimal
numbers goes through `ofRatio`, so every reading is correctly rounded. -/

namespace EdgeQuery.Binary64

/-- The bits of a value: sign, biased exponent and fraction. -/
structure Parts where
  negative : Bool
  exponent : Nat
  fraction : Nat
  deriving Repr, DecidableEq

/-- Takes a value apart. -/
def parts (x : Float) : Parts :=
  let b := x.toBits.toNat
  { negative := b / Nat.pow 2 63 % 2 = 1, exponent := b / Nat.pow 2 52 % 2048, fraction := b % Nat.pow 2 52 }

/-- Puts a value together. -/
def ofParts (p : Parts) : Float :=
  Float.ofBits (((if p.negative then Nat.pow 2 63 else 0) + p.exponent % 2048 * Nat.pow 2 52
    + p.fraction % Nat.pow 2 52).toUInt64)

/-- Whether a value is not a number. -/
def isNaN (x : Float) : Bool := (parts x).exponent = 2047 ∧ (parts x).fraction ≠ 0

/-- Whether a value is infinite. -/
def isInfinite (x : Float) : Bool := (parts x).exponent = 2047 ∧ (parts x).fraction = 0

/-- Whether a value is finite. -/
def isFinite (x : Float) : Bool := (parts x).exponent ≠ 2047

/-- The infinity of a sign. -/
def infinity (negative : Bool) : Float := ofParts ⟨negative, 2047, 0⟩

/-- The quiet not-a-number value with the lowest fraction bit set. -/
def nan : Float := ofParts ⟨false, 2047, 1⟩

/-- The zero of a sign. -/
def zero (negative : Bool) : Float := ofParts ⟨negative, 0, 0⟩

/-- The significand and binary exponent of a finite value: its magnitude is `m * 2^q`. -/
def significand (p : Parts) : Nat × Int :=
  if p.exponent = 0 then (p.fraction, -1074)
  else (p.fraction + Nat.pow 2 52, (p.exponent : Int) - 1075)

/-! ## Rounding an exact ratio -/

/-- The number of binary digits of a natural number. -/
def bitLength (n : Nat) : Nat := if n = 0 then 0 else Nat.log2 n + 1

/-- `n * 2^k` for an integer `k`, rounded down. -/
def shiftFloor (n : Nat) (k : Int) : Nat :=
  if 0 ≤ k then n * Nat.pow 2 k.toNat else n / Nat.pow 2 (-k).toNat

/-- Rounds `num / den` to a natural number, ties to even. -/
def roundHalfEven (num den : Nat) : Nat :=
  let q := num / den
  let r := num % den
  if 2 * r > den then q + 1
  else if 2 * r = den then (if q % 2 = 1 then q + 1 else q)
  else q

/-- The value nearest to the magnitude `num / den`, ties to an even significand; zero
when `num` is zero and infinite past the largest finite value. -/
def ofRatio (negative : Bool) (num den : Nat) : Float :=
  if num = 0 ∨ den = 0 then zero negative
  else
    -- The binary exponent of the leading digit: 2^t ≤ num / den < 2^(t+1).
    let t0 : Int := (bitLength num : Int) - (bitLength den : Int)
    let t : Int :=
      if (if 0 ≤ t0 then num ≥ den * Nat.pow 2 t0.toNat else num * Nat.pow 2 (-t0).toNat ≥ den)
      then t0 else t0 - 1
    -- Scale so that the significand has 53 bits, or fewer below the normal range.
    let q : Int := max (t - 52) (-1074)
    let (sNum, sDen) :=
      if q ≤ 0 then (num * Nat.pow 2 (-q).toNat, den) else (num, den * Nat.pow 2 q.toNat)
    let m := roundHalfEven sNum sDen
    -- Rounding may carry into a new binary digit.
    let (m, q) := if m = Nat.pow 2 53 then (Nat.pow 2 52, q + 1) else (m, q)
    if m < Nat.pow 2 52 then ofParts ⟨negative, 0, m⟩
    else
      let e := q + 1075
      if e ≥ 2047 then infinity negative
      else ofParts ⟨negative, e.toNat, m - Nat.pow 2 52⟩

/-- The value nearest to `m * 10^e`. -/
def ofDecimal (negative : Bool) (m : Nat) (e : Int) : Float :=
  if 0 ≤ e then ofRatio negative (m * Nat.pow 10 e.toNat) 1
  else ofRatio negative m (Nat.pow 10 (-e).toNat)

/-- The value nearest to `m * 2^e`. -/
def ofBinary (negative : Bool) (m : Nat) (e : Int) : Float :=
  if 0 ≤ e then ofRatio negative (m * Nat.pow 2 e.toNat) 1
  else ofRatio negative m (Nat.pow 2 (-e).toNat)

end EdgeQuery.Binary64
