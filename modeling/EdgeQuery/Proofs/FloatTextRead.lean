import EdgeQuery.Proofs.ShortestDigits
import EdgeQuery.Query.Printer
import EdgeQuery.Number.Read
import Mathlib.Data.List.TakeWhile
/-! # Printed floating-point values read back

A literal prints a finite value as its sign and the shortest digits that round back to it
(`Query.Literal.floatText`). This module shows that reading that text gives the value again
(`parseFloat_floatText`).

The printed text is an optional minus sign and a `Numeral`: whole digits, a fraction after a
point and perhaps an exponent (`floatText_toList`). The reader takes a well-formed numeral's
digits and exponent exactly (`parseFloat_chars`), so it reads the decimal the digits stand
for, and that decimal lies in the value's rounding interval (`Decimal.shortest_within`). -/

namespace EdgeQuery

open Binary64

/-! ## Numerals -/

/-- A decimal numeral as values are printed: whole digits, the digits after a point if there
is one, and an exponent (its sign and digits after an `e`) if there is one. -/
structure Numeral where
  whole : List Char
  fraction : Option (List Char)
  exponent : Option (Bool × List Char)
  deriving DecidableEq, Repr

namespace Numeral

/-- The text of a fraction: a point and its digits. -/
def fractionChars : Option (List Char) → List Char
  | none => []
  | some ds => '.' :: ds

/-- The text of an exponent: an `e`, its sign and its digits. -/
def exponentChars : Option (Bool × List Char) → List Char
  | none => []
  | some (negative, ds) => 'e' :: (if negative then '-' else '+') :: ds

/-- The text of a numeral. -/
def chars (n : Numeral) : List Char :=
  n.whole ++ fractionChars n.fraction ++ exponentChars n.exponent

/-- A run of at least one decimal digit. -/
def IsDigits (ds : List Char) : Prop := ds ≠ [] ∧ ∀ c ∈ ds, Read.isDigit c = true

/-- Each part of a well-formed numeral is a run of digits, and its exponent is below the
point where the reader stops counting exponent digits. -/
structure WellFormed (n : Numeral) : Prop where
  whole : IsDigits n.whole
  fraction : ∀ ds ∈ n.fraction, IsDigits ds
  exponent : ∀ e ∈ n.exponent, IsDigits e.2 ∧ Nat.ofDigitChars 10 e.2 0 < 10000

/-- The value of a written exponent. -/
def exponentValue : Option (Bool × List Char) → ℤ
  | none => 0
  | some (negative, ds) =>
    if negative then -(Nat.ofDigitChars 10 ds 0 : ℤ) else Nat.ofDigitChars 10 ds 0

/-- The whole and fraction digits together, as a number. -/
def mantissa (n : Numeral) : ℕ := Nat.ofDigitChars 10 (n.whole ++ n.fraction.getD []) 0

/-- The power of ten the mantissa is scaled by: the written exponent less the number of
fraction digits. -/
def scale (n : Numeral) : ℤ := exponentValue n.exponent - ((n.fraction.getD []).length : ℤ)

end Numeral

/-! ## Digits -/

namespace Read

theorem isDigit_iff (c : Char) : isDigit c = true ↔ 48 ≤ c.toNat ∧ c.toNat ≤ 57 := by
  simp [isDigit, Char.le_def, UInt32.le_iff_toNat_le]

theorem isDigit_of_isDigit {c : Char} (h : c.isDigit = true) : isDigit c = true := by
  simpa [Char.isDigit, isDigit, Char.le_def, UInt32.le_iff_toNat_le] using h

theorem ne_of_isDigit {c d : Char} (hc : isDigit c = true) (hd : isDigit d = false) : c ≠ d := by
  rintro rfl
  simp_all

theorem lower_of_isDigit {c : Char} (hc : isDigit c = true) : lower c = c := by
  rw [isDigit_iff] at hc
  have : ¬('A' ≤ c ∧ c ≤ 'Z') := by
    simp [Char.le_def, UInt32.le_iff_toNat_le]
    omega
  simp [lower, this]

/-- A digit is none of the marks that make a printed text read as a float. -/
theorem not_floatMark_of_isDigit {c : Char} (hc : isDigit c = true) :
    ¬(c = '.' ∨ c = 'e' ∨ c = 'E' ∨ c = 'I' ∨ c = 'N') := by
  simp only [not_or]
  exact ⟨ne_of_isDigit hc rfl, ne_of_isDigit hc rfl, ne_of_isDigit hc rfl,
    ne_of_isDigit hc rfl, ne_of_isDigit hc rfl⟩

end Read

theorem FloatText.mem_zeros {c : Char} {k : ℕ} (h : c ∈ FloatText.zeros k) : c = '0' := by
  simp only [FloatText.zeros, List.mem_replicate] at h
  exact h.2

namespace Numeral

open Read

theorem isDigit_of_mem_zeros {c : Char} {k : ℕ} (h : c ∈ FloatText.zeros k) :
    isDigit c = true := by
  rw [FloatText.mem_zeros h]; decide

theorem ofDigitChars_zeros_append (k : ℕ) (l : List Char) :
    Nat.ofDigitChars 10 (FloatText.zeros k ++ l) 0 = Nat.ofDigitChars 10 l 0 := by
  simp [FloatText.zeros, Nat.ofDigitChars_append]

theorem ofDigitChars_append_zeros (l : List Char) (k : ℕ) :
    Nat.ofDigitChars 10 (l ++ FloatText.zeros k) 0 = Nat.ofDigitChars 10 l 0 * 10 ^ k := by
  simp [FloatText.zeros, Nat.ofDigitChars_append, Nat.mul_comm]

end Numeral

/-! ## Reading a numeral -/

namespace Read

/-- A digit adds to the mantissa and to the count of fraction digits. -/
theorem mantissaDigits_cons_digit {c : Char} (hc : isDigit c = true) (rest : List Char) (v : ℕ)
    (frac : Option ℕ) (saw us : Bool) :
    mantissaDigits false (c :: rest) v frac saw us =
      mantissaDigits false rest (v * 10 + (c.toNat - 48)) (frac.map (· + 1)) true us := by
  have h1 : c ≠ '_' := ne_of_isDigit hc rfl
  have h2 : c ≠ '.' := ne_of_isDigit hc rfl
  cases frac <;> simp [mantissaDigits, h1, h2, hc]

/-- Leading digits add to the mantissa and to the count of fraction digits. -/
theorem mantissaDigits_digits {ds : List Char} (hds : ∀ c ∈ ds, isDigit c = true)
    (rest : List Char) (v : ℕ) (frac : Option ℕ) (saw us : Bool) :
    mantissaDigits false (ds ++ rest) v frac saw us =
      mantissaDigits false rest (Nat.ofDigitChars 10 ds v) (frac.map (· + ds.length))
        (saw || !ds.isEmpty) us := by
  induction ds generalizing v frac saw with
  | nil => simp
  | cons c ds ih =>
    have hc := hds c (by simp)
    rw [List.cons_append, mantissaDigits_cons_digit hc, ih (fun d hd => hds d (by simp [hd]))]
    simp [Nat.ofDigitChars_cons, Option.map_map, Function.comp_def, Nat.add_assoc,
      Nat.add_comm 1, Nat.mul_comm v]

/-- A point starts the fraction. -/
theorem mantissaDigits_point (rest : List Char) (v : ℕ) (saw us : Bool) :
    mantissaDigits false ('.' :: rest) v none saw us =
      mantissaDigits false rest v (some 0) saw us := by
  simp [mantissaDigits]

/-- Exponent digits past the cap do not count, so below the cap the capped value is the
value. -/
theorem foldl_capped {ds : List Char} {v : ℕ} (h : Nat.ofDigitChars 10 ds v < 10000) :
    ds.foldl (fun (n : ℕ) c => if n < 10000 then n * 10 + (c.toNat - 48) else n) v =
      Nat.ofDigitChars 10 ds v := by
  induction ds generalizing v with
  | nil => rfl
  | cons c ds ih =>
    -- the value so far is at most the whole value, so the cap is not reached
    have hv : v < 10000 := by
      rw [Nat.ofDigitChars_eq_ofDigitChars_zero] at h
      have : v ≤ 10 ^ (c :: ds).length * v := Nat.le_mul_of_pos_left v (Nat.pow_pos (by decide))
      omega
    rw [Nat.ofDigitChars_cons] at h ⊢
    rw [List.foldl_cons, if_pos hv, ← ih (by simpa [Nat.mul_comm] using h)]
    simp [Nat.mul_comm]

end Read

namespace Numeral

open Read

/-- The mantissa ends at the `e` of an exponent. -/
theorem mantissaDigits_exponentChars (e : Option (Bool × List Char)) (v : ℕ)
    (frac : Option ℕ) (saw us : Bool) :
    mantissaDigits false (exponentChars e) v frac saw us =
      (v, frac, saw, us, exponentChars e) := by
  cases e with
  | none => rfl
  | some e => cases frac <;> simp [exponentChars, mantissaDigits, lower, isDigit]

theorem mantissaDigits_chars {n : Numeral} (hn : n.WellFormed) :
    mantissaDigits false n.chars 0 none false false =
      (n.mantissa, n.fraction.map List.length, true, false, exponentChars n.exponent) := by
  obtain ⟨⟨hw0, hw⟩, hf, -⟩ := hn
  unfold chars mantissa
  cases hfr : n.fraction with
  | none =>
    rw [fractionChars, List.append_nil, mantissaDigits_digits hw, mantissaDigits_exponentChars]
    simp [hw0]
  | some fs =>
    obtain ⟨-, hfd⟩ := hf fs (by simp [hfr])
    rw [fractionChars, List.append_assoc, mantissaDigits_digits hw, List.cons_append,
      Option.map_none, mantissaDigits_point, mantissaDigits_digits hfd,
      mantissaDigits_exponentChars]
    simp [hw0, Nat.ofDigitChars_append]

theorem exponentPart_signed (negative : Bool) {ds : List Char} (hds : IsDigits ds)
    (hcap : Nat.ofDigitChars 10 ds 0 < 10000) :
    exponentPart ((if negative then '-' else '+') :: ds) =
      some (exponentValue (some (negative, ds)), false, []) := by
  obtain ⟨hne, hd⟩ := hds
  obtain ⟨c, r, rfl⟩ := List.exists_cons_of_ne_nil hne
  have hall : ∀ x ∈ c :: r, decide (isDigit x = true ∨ x = '_') = true := by
    intro x hx; simp [hd x hx]
  have hus : (c :: r).contains '_' = false := by
    rw [List.contains_eq_any_beq, List.any_eq_false]
    intro x hx
    simpa using (ne_of_isDigit (hd x hx) rfl).symm
  cases negative <;> simp only [exponentPart, Bool.false_eq_true, if_false, if_true] <;>
    rw [if_pos (hd c (by simp)), List.takeWhile_eq_self_iff.2 hall,
      List.dropWhile_eq_nil_iff.2 hall, List.filter_eq_self.2 hd, foldl_capped hcap, hus] <;>
    rfl

/-- Every character of a numeral's text is a digit, a point, an `e` or a sign. -/
theorem mem_chars {n : Numeral} (hn : n.WellFormed) {x : Char} (hx : x ∈ n.chars) :
    isDigit x = true ∨ x = '.' ∨ x = 'e' ∨ x = '+' ∨ x = '-' := by
  obtain ⟨⟨-, hw⟩, hf, he⟩ := hn
  simp only [chars, List.mem_append] at hx
  rcases hx with (hx | hx) | hx
  · exact Or.inl (hw x hx)
  · cases hfr : n.fraction with
    | none => simp [hfr, fractionChars] at hx
    | some fs =>
      simp only [hfr, fractionChars, List.mem_cons] at hx
      rcases hx with rfl | hx
      · simp
      · exact Or.inl ((hf fs (by simp [hfr])).2 x hx)
  · cases hex : n.exponent with
    | none => simp [hex, exponentChars] at hx
    | some e =>
      obtain ⟨negative, ds⟩ := e
      simp only [hex, exponentChars, List.mem_cons] at hx
      rcases hx with rfl | rfl | hx
      · simp
      · cases negative <;> simp
      · exact Or.inl ((he (negative, ds) hex).1.2 x hx)

/-- A numeral, with a minus sign or none, is read exactly: its sign, its digits and the
power of ten they are scaled by. -/
theorem exactValue?_chars (negative : Bool) {n : Numeral} (hn : n.WellFormed) :
    exactValue? ((if negative then ['-'] else []) ++ n.chars) =
      some (negative, n.mantissa, n.scale, false) := by
  have hm := mantissaDigits_chars hn
  obtain ⟨c, ws, hcw⟩ := List.exists_cons_of_ne_nil hn.whole.1
  have hc : isDigit c = true := hn.whole.2 c (by simp [hcw])
  have hlx : ∀ x ∈ n.chars, lower x ≠ 'x' := by
    intro x hx
    rcases mem_chars hn hx with h | rfl | rfl | rfl | rfl
    · rw [lower_of_isDigit h]; exact ne_of_isDigit h rfl
    all_goals decide
  obtain ⟨t, ht⟩ : ∃ t, n.chars = c :: t :=
    ⟨ws ++ (fractionChars n.fraction ++ exponentChars n.exponent), by simp [chars, hcw]⟩
  have h1 : c ≠ '+' := ne_of_isDigit hc rfl
  have h2 : c ≠ '-' := ne_of_isDigit hc rfl
  rw [ht] at hm hlx
  unfold exactValue?
  rw [ht]
  have hexp : ∀ neg ds, n.exponent = some (neg, ds) →
      exponentPart ((if neg then '-' else '+') :: ds) =
        some (exponentValue (some (neg, ds)), false, []) :=
    fun neg ds h => exponentPart_signed neg (hn.exponent _ h).1 (hn.exponent _ h).2
  have hfrac : ((n.fraction.map List.length).getD 0 : ℤ) = ((n.fraction.getD []).length : ℤ) := by
    cases n.fraction <;> rfl
  have hle : lower 'e' = 'e' := by decide
  -- A text starting with `0x` is hexadecimal; a numeral's second character is never an `x`.
  obtain rfl | hc0 := eq_or_ne c '0'
  · cases negative <;> rcases t with _ | ⟨x, _ | ⟨r, rest⟩⟩ <;> simp [hm, hlx] <;>
      rcases hex : n.exponent with _ | ⟨neg, ds⟩ <;>
      simp [exponentChars, hex, scale, exponentValue, hfrac, hexp, hle]
  · cases negative <;> rcases t with _ | ⟨x, _ | ⟨r, rest⟩⟩ <;> simp [h1, h2, hc0, hm] <;>
      rcases hex : n.exponent with _ | ⟨neg, ds⟩ <;>
      simp [exponentChars, hex, scale, exponentValue, hfrac, hexp, hle]

/-- A numeral is no spelling of infinity or not-a-number. -/
theorem special_chars (negative : Bool) {n : Numeral} (hn : n.WellFormed) :
    special ((if negative then ['-'] else []) ++ n.chars) = none := by
  obtain ⟨c, ws, hcw⟩ := List.exists_cons_of_ne_nil hn.whole.1
  have hc : isDigit c = true := hn.whole.2 c (by simp [hcw])
  obtain ⟨t, ht⟩ : ∃ t, n.chars = c :: t :=
    ⟨ws ++ (fractionChars n.fraction ++ exponentChars n.exponent), by simp [chars, hcw]⟩
  have h1 : c ≠ '+' := ne_of_isDigit hc rfl
  have h2 : c ≠ '-' := ne_of_isDigit hc rfl
  have hi : c ≠ 'i' := ne_of_isDigit hc rfl
  have hn' : c ≠ 'n' := ne_of_isDigit hc rfl
  rw [ht]
  cases negative <;>
    simp [special, h1, h2, commonPrefixIgnoringCase, lower_of_isDigit hc, hi, hn']

/-- A numeral, with a minus sign or none, reads as its digits scaled by its exponent,
rounded to the nearest binary64, unless that is out of range. -/
theorem parseFloat_chars (negative : Bool) {n : Numeral} (hn : n.WellFormed)
    (hfin : isInfinite (ofDecimal negative n.mantissa n.scale) = false) :
    parseFloat (String.ofList ((if negative then ['-'] else []) ++ n.chars)) =
      .ok (ofDecimal negative n.mantissa n.scale) := by
  simp [parseFloat, special_chars negative hn, exactValue?_chars negative hn, hfin]

/-! ## The numeral a value is printed as -/

/-- The numeral the general style writes for the digits `0.d1...dn * 10^point` of a
finite value's magnitude: no digits is zero; a decimal exponent below -4 or from 6 on is
written in scientific form; otherwise the digits are written positionally, with `.0` after a
whole number. -/
def ofDigits (ds : List Char) (point : ℤ) : Numeral :=
  if ds.isEmpty then ⟨['0'], some ['0'], none⟩
  else if point - 1 < -4 ∨ point - 1 ≥ 6 then
    let digits := Nat.toDigits 10 (point - 1).natAbs
    ⟨ds.take 1, if ds.length = 1 then none else some (ds.drop 1),
      some (decide (point - 1 < 0), FloatText.zeros (2 - digits.length) ++ digits)⟩
  else if point ≤ 0 then ⟨['0'], some (FloatText.zeros (-point).toNat ++ ds), none⟩
  else if ds.length ≤ point.toNat then
    ⟨ds ++ FloatText.zeros (point.toNat - ds.length), some ['0'], none⟩
  else ⟨ds.take point.toNat, some (ds.drop point.toNat), none⟩

/-- The general style's body for digits, with `.0` added where it has no point, exponent
or special spelling, is the text of the numeral `ofDigits`. -/
theorem general_chars {ds : List Char} (point : ℤ) (hds : ∀ c ∈ ds, isDigit c = true) :
    let body := if (!ds.isEmpty) = true ∧ (point - 1 < -4 ∨ point - 1 ≥ 6) then
      FloatText.scientific FloatStyle.general ds point else FloatText.positional ds point
    (if body.any (fun c => decide (c = '.' ∨ c = 'e' ∨ c = 'E' ∨ c = 'I' ∨ c = 'N')) then body
      else body ++ ['.', '0']) = (ofDigits ds point).chars := by
  intro body
  rcases ds with _ | ⟨d, rest⟩
  · simp [body, ofDigits, FloatText.positional, chars, fractionChars, exponentChars]
  by_cases hsci : point - 1 < -4 ∨ point - 1 ≥ 6
  · have hb : body = FloatText.scientific FloatStyle.general (d :: rest) point :=
      if_pos ⟨rfl, hsci⟩
    have hmark : (FloatText.scientific FloatStyle.general (d :: rest) point).any
        (fun c => decide (c = '.' ∨ c = 'e' ∨ c = 'E' ∨ c = 'I' ∨ c = 'N')) = true := by
      simp [FloatText.scientific]
    rw [hb, if_pos hmark]
    simp only [ofDigits, List.isEmpty_cons, Bool.false_eq_true, if_false, if_pos hsci]
    -- the sign of the exponent decides its sign character; both widths are two digits
    rcases rest with _ | ⟨d', rest⟩ <;> by_cases hneg : point - 1 < 0 <;>
      simp only [FloatText.scientific, FloatStyle.general, List.isEmpty_cons, Bool.false_eq_true,
        if_false, hneg, if_true, decide_true, decide_false, chars, fractionChars, exponentChars] <;>
      simp
  have hb : body = FloatText.positional (d :: rest) point := if_neg (fun h => hsci h.2)
  rw [hb]
  by_cases hp : point ≤ 0
  · simp only [ofDigits, List.isEmpty_cons, Bool.false_eq_true, if_false, if_neg hsci, if_pos hp]
    simp [FloatText.positional, hp, chars, fractionChars, exponentChars]
  by_cases hlen : (d :: rest).length ≤ point.toNat
  · -- a whole number has no point yet: `.0` is added
    have hnone : ((d :: rest) ++ FloatText.zeros (point.toNat - (d :: rest).length)).any
        (fun c => decide (c = '.' ∨ c = 'e' ∨ c = 'E' ∨ c = 'I' ∨ c = 'N')) = false := by
      rw [List.any_eq_false]
      intro c hc
      rcases List.mem_append.1 hc with hc | hc
      · simpa using not_floatMark_of_isDigit (hds c hc)
      · rw [FloatText.mem_zeros hc]; decide
    simp only [FloatText.positional, List.isEmpty_cons, Bool.false_eq_true, if_false, if_neg hp,
      ge_iff_le, if_pos hlen, hnone]
    simp only [ofDigits, List.isEmpty_cons, Bool.false_eq_true, if_false, if_neg hsci, if_neg hp,
      if_pos hlen, chars, fractionChars, exponentChars]
    simp
  · have hsome : (List.take point.toNat (d :: rest) ++ ['.'] ++
        List.drop point.toNat (d :: rest)).any
        (fun c => decide (c = '.' ∨ c = 'e' ∨ c = 'E' ∨ c = 'I' ∨ c = 'N')) = true := by
      simp
    simp only [FloatText.positional, List.isEmpty_cons, Bool.false_eq_true, if_false, if_neg hp,
      ge_iff_le, if_neg hlen, hsome, if_true]
    simp only [ofDigits, List.isEmpty_cons, Bool.false_eq_true, if_false, if_neg hsci, if_neg hp,
      if_neg hlen, chars, fractionChars, exponentChars]
    simp

/-- The numeral of a value's digits is well formed when its decimal exponent is small
enough to be read back whole. -/
theorem wellFormed_ofDigits {ds : List Char} {point : ℤ} (hds : ∀ c ∈ ds, isDigit c = true)
    (hpoint : (point - 1).natAbs < 10000) : (ofDigits ds point).WellFormed := by
  have hzero : IsDigits ['0'] := ⟨by simp, by simp [isDigit]⟩
  -- the exponent of the scientific form: zeros, then the digits of its magnitude
  have hexp : IsDigits (FloatText.zeros (2 - (Nat.toDigits 10 (point - 1).natAbs).length) ++
        Nat.toDigits 10 (point - 1).natAbs) ∧
      Nat.ofDigitChars 10 (FloatText.zeros (2 - (Nat.toDigits 10 (point - 1).natAbs).length) ++
        Nat.toDigits 10 (point - 1).natAbs) 0 < 10000 := by
    refine ⟨⟨by simp, fun c hc => ?_⟩, ?_⟩
    · rcases List.mem_append.1 hc with hc | hc
      · exact isDigit_of_mem_zeros hc
      · exact isDigit_of_isDigit (Nat.isDigit_of_mem_toDigits (by decide) (by decide) hc)
    · simpa [ofDigitChars_zeros_append, Nat.ofDigitChars_ten_toDigits] using hpoint
  unfold ofDigits
  split_ifs with hE hsci hone hp hlen
  · exact ⟨hzero, by simpa using hzero, by simp⟩
  all_goals have hne : ds ≠ [] := by simpa using hE
  · -- scientific with one digit
    exact ⟨⟨by simpa using hne, fun c hc => hds c (List.mem_of_mem_take hc)⟩, by simp,
      by simpa using hexp⟩
  · -- scientific: one whole digit, the others as fraction
    have : 1 ≤ ds.length := List.length_pos_iff.2 hne
    refine ⟨⟨by simpa using hne, fun c hc => hds c (List.mem_of_mem_take hc)⟩, ?_,
      by simpa using hexp⟩
    simp only [Option.mem_def, Option.some.injEq, forall_eq']
    exact ⟨by rw [ne_eq, List.drop_eq_nil_iff]; omega,
      fun c hc => hds c (List.mem_of_mem_drop hc)⟩
  · -- below one: a zero, then the point, zeros and the digits
    refine ⟨hzero, ?_, by simp⟩
    simp only [Option.mem_def, Option.some.injEq, forall_eq']
    refine ⟨by simp [hne], fun c hc => ?_⟩
    rcases List.mem_append.1 hc with hc | hc
    · exact isDigit_of_mem_zeros hc
    · exact hds c hc
  · -- a whole number: the digits, zeros and `.0`
    refine ⟨⟨by simp [hne], fun c hc => ?_⟩, by simpa using hzero, by simp⟩
    rcases List.mem_append.1 hc with hc | hc
    · exact hds c hc
    · exact isDigit_of_mem_zeros hc
  · -- the point falls inside the digits
    refine ⟨⟨?_, fun c hc => hds c (List.mem_of_mem_take hc)⟩, ?_, by simp⟩
    · simp only [ne_eq, List.take_eq_nil_iff, not_or]
      exact ⟨by omega, hne⟩
    · simp only [Option.mem_def, Option.some.injEq, forall_eq']
      exact ⟨by rw [ne_eq, List.drop_eq_nil_iff]; omega,
        fun c hc => hds c (List.mem_of_mem_drop hc)⟩

theorem exponentValue_natAbs (e : ℤ) (k : ℕ) :
    exponentValue (some (decide (e < 0), FloatText.zeros k ++ Nat.toDigits 10 e.natAbs)) = e := by
  simp only [exponentValue, ofDigitChars_zeros_append, Nat.ofDigitChars_ten_toDigits,
    decide_eq_true_eq]
  split_ifs <;> omega

/-- The numeral of a value's digits has the value `0.d1...dn * 10^point`. -/
theorem value_ofDigits {ds : List Char} (point : ℤ) (hne : ds ≠ []) :
    ((ofDigits ds point).mantissa : ℚ) * 10 ^ (ofDigits ds point).scale =
      Nat.ofDigitChars 10 ds 0 * 10 ^ (point - ds.length) := by
  have hlen : 1 ≤ ds.length := List.length_pos_iff.2 hne
  unfold ofDigits
  split_ifs with hE hsci hone hp hlen
  · simp_all
  · -- scientific with one digit: the exponent is the point less one
    have hds : ds.take 1 = ds := List.take_of_length_le (by omega)
    simp only [mantissa, scale, Option.getD_none, List.append_nil, hds, exponentValue_natAbs,
      List.length_nil, Nat.cast_zero, sub_zero, hone, Nat.cast_one]
  · -- scientific: the exponent less the fraction digits
    simp only [mantissa, scale, Option.getD_some, List.take_append_drop, exponentValue_natAbs,
      List.length_drop]
    congr 2
    omega
  · -- below one: leading zeros add nothing
    simp only [mantissa, scale, Option.getD_some, exponentValue, List.length_append]
    rw [show ['0'] ++ (FloatText.zeros (-point).toNat ++ ds) =
        FloatText.zeros ((-point).toNat + 1) ++ ds by
      simp [FloatText.zeros, List.replicate_succ], ofDigitChars_zeros_append]
    congr 2
    simp [FloatText.zeros]
    omega
  · -- a whole number: trailing zeros and the `.0` scale the digits
    simp only [mantissa, scale, Option.getD_some, exponentValue, List.length_singleton]
    rw [List.append_assoc, show FloatText.zeros (point.toNat - ds.length) ++ ['0'] =
      FloatText.zeros (point.toNat - ds.length + 1) by
        simp [FloatText.zeros, List.replicate_succ'],
      ofDigitChars_append_zeros]
    have hk : point - ds.length = ((point.toNat - ds.length : ℕ) : ℤ) := by omega
    rw [hk, zpow_natCast]
    push_cast
    rw [pow_succ, zpow_neg_one]
    field_simp
  · -- the point inside the digits
    simp only [mantissa, scale, Option.getD_some, exponentValue, List.take_append_drop,
      List.length_drop]
    congr 2
    omega

end Numeral

theorem Decimal.isDigit_of_mem_ofFloat {x : Float} {c : Char}
    (h : c ∈ (Decimal.ofFloat x).digits) : Read.isDigit c = true := by
  unfold Decimal.ofFloat Decimal.digitsOf at h
  simp only at h
  split_ifs at h
  · simp at h
  · simp at h
  · exact Read.isDigit_of_isDigit (Nat.isDigit_of_mem_toDigits (by decide) (by decide) h)

open Numeral in
/-- The text of a finite value is its sign and the numeral of its shortest digits. -/
theorem floatText_toList {x : Float} (hx : isFinite x = true) :
    (Query.Literal.floatText x).toList =
      (if (parts x).negative then ['-'] else []) ++
        (ofDigits (Decimal.ofFloat x).digits (Decimal.ofFloat x).point).chars := by
  have hnan : isNaN x = false := by simp_all [isNaN, isFinite]
  have hinf : isInfinite x = false := by simp_all [isInfinite, isFinite]
  have hds := fun c => @Decimal.isDigit_of_mem_ofFloat x c
  simp only [Query.Literal.floatText, FloatStyle.render, hnan, hinf, Bool.false_eq_true, if_false]
  generalize Decimal.ofFloat x = d at hds ⊢
  obtain ⟨ds, point⟩ := d
  have hbelow : FloatStyle.general.scientificBelow = -4 := rfl
  have hfrom : FloatStyle.general.scientificFrom = 6 := rfl
  rw [hbelow, hfrom, ← general_chars point hds]
  generalize (if (!ds.isEmpty) = true ∧ (point - 1 < -4 ∨ point - 1 ≥ 6) then
      FloatText.scientific FloatStyle.general ds point else FloatText.positional ds point) = body
  -- the sign holds none of the marks, so `.0` is added exactly when the body lacks them
  simp only [String.any, String.contains_prop_eq, String.toList_ofList, List.any_append]
  by_cases h : ∃ c ∈ body, c = '.' ∨ c = 'e' ∨ c = 'E' ∨ c = 'I' ∨ c = 'N' <;>
    cases (parts x).negative <;> simp [h, String.toList_append]

/-! ## Reading a printed value back -/

namespace Decimal

open Binary64

/-- A decimal `k * 10^e` that reads as a finite positive value has digits, and the power of
ten of its leading digit lies between `-1075` and `1024`. -/
theorem Within.point_bounds {m : ℕ} {q : ℤ} {k : ℕ} {e : ℤ} (hm : 0 < m)
    (hm53 : m < 9007199254740992) (hq1 : -1074 ≤ q) (hq2 : q ≤ 971)
    (hx : Within m q (k * 10 ^ e)) :
    0 < k ∧ -1075 < e + (Nat.toDigits 10 k).length ∧ e + (Nat.toDigits 10 k).length ≤ 1024 := by
  -- the value lies between `2^(q-1)` and `2^1024`
  have hlo : (2 : ℚ) ^ (q - 1) ≤ k * 10 ^ e := by
    have hlo2 : (2 : ℚ) ≤ ((interval m q).2.1 : ℕ) := by
      rw [interval_lower]; exact_mod_cast (by split <;> omega)
    calc (2 : ℚ) ^ (q - 1) = 2 * 2 ^ (q - 2) := by
          rw [show q - 1 = (q - 2) + 1 by ring, zpow_add_one₀ (by norm_num)]; ring
      _ ≤ ((interval m q).2.1 : ℚ) * 2 ^ (q - 2) := by gcongr
      _ ≤ _ := hx.lower
  have hhi : (k : ℚ) * 10 ^ e < 2 ^ (1024 : ℤ) := by
    have h1 : ((4 * m + 2 : ℕ) : ℚ) < 2 ^ (55 : ℤ) := by
      rw [zpow_ofNat]; exact_mod_cast (by omega : 4 * m + 2 < 2 ^ 55)
    calc (k : ℚ) * 10 ^ e ≤ ((4 * m + 2 : ℕ) : ℚ) * 2 ^ (q - 2) := by
          simpa using hx.upper
      _ < 2 ^ (55 : ℤ) * 2 ^ (q - 2) := by gcongr
      _ = 2 ^ (55 + (q - 2)) := (zpow_add₀ (by norm_num) _ _).symm
      _ ≤ 2 ^ (1024 : ℤ) := zpow_le_zpow_right₀ (by norm_num) (by omega)
  have hk : 0 < k := by
    by_contra h
    have : (2 : ℚ) ^ (q - 1) ≤ 0 := by simpa [Nat.eq_zero_of_not_pos h] using hlo
    exact absurd this (not_le.2 (by positivity))
  -- `k` has `len` digits
  set len := (Nat.toDigits 10 k).length
  have hk2 : k < 10 ^ len :=
    (Nat.length_toDigits_le_iff (by decide) Nat.length_toDigits_pos).1 le_rfl
  have hk1 : 10 ^ (len - 1) ≤ k := by
    by_contra h
    rcases Nat.eq_zero_or_pos (len - 1) with h0 | h0
    · rw [h0] at h; omega
    · have := (Nat.length_toDigits_le_iff (n := k) (b := 10) (by decide) h0).2 (by omega)
      omega
  have hlen : 0 < len := Nat.length_toDigits_pos
  refine ⟨hk, ?_, ?_⟩
  · -- below: `10^(e+len)` exceeds the value, which is at least `2^-1075 ≥ 10^-1075`
    have hup : (k : ℚ) * 10 ^ e < 10 ^ (e + len) := by
      rw [zpow_add₀ (by norm_num), zpow_natCast, mul_comm ((10 : ℚ) ^ e)]
      gcongr
      exact_mod_cast hk2
    have h2 : (2 : ℚ) ^ (-1075 : ℤ) ≤ 2 ^ (q - 1) := zpow_le_zpow_right₀ (by norm_num) (by omega)
    have h3 : (10 : ℚ) ^ (-1075 : ℤ) ≤ 2 ^ (-1075 : ℤ) := by
      rw [zpow_neg, zpow_neg, inv_le_inv₀ (by positivity) (by positivity)]
      exact zpow_le_zpow_left₀ (by norm_num) (by norm_num) (by norm_num)
    have : (10 : ℚ) ^ (-1075 : ℤ) < 10 ^ (e + len) :=
      calc (10 : ℚ) ^ (-1075 : ℤ) ≤ 2 ^ (-1075 : ℤ) := h3
        _ ≤ 2 ^ (q - 1) := h2
        _ ≤ k * 10 ^ e := hlo
        _ < 10 ^ (e + len) := hup
    exact (zpow_lt_zpow_iff_right₀ (by norm_num : (1 : ℚ) < 10)).1 this
  · -- above: `10^(e+len-1)` is at most the value, which is below `2^1024 ≤ 10^1024`
    have hdown : (10 : ℚ) ^ (e + len - 1) ≤ k * 10 ^ e := by
      rw [show e + (len : ℤ) - 1 = ((len - 1 : ℕ) : ℤ) + e by omega, zpow_add₀ (by norm_num),
        zpow_natCast]
      gcongr
      exact_mod_cast hk1
    have h3 : (2 : ℚ) ^ (1024 : ℤ) ≤ 10 ^ (1024 : ℤ) :=
      zpow_le_zpow_left₀ (by norm_num) (by norm_num) (by norm_num)
    have : (10 : ℚ) ^ (e + len - 1) < 10 ^ (1024 : ℤ) :=
      calc (10 : ℚ) ^ (e + len - 1) ≤ k * 10 ^ e := hdown
        _ < 2 ^ (1024 : ℤ) := hhi
        _ ≤ 10 ^ (1024 : ℤ) := h3
    have := (zpow_lt_zpow_iff_right₀ (by norm_num : (1 : ℚ) < 10)).1 this
    omega

end Decimal

namespace Binary64

open Decimal

/-- Reading a decimal `M * 10^E` that lies in a value's rounding interval gives the value. -/
theorem ofDecimal_of_within (negative : Bool) {M : ℕ} {E : ℤ} {p : Parts}
    (hexp : p.exponent < 2047) (hfrac : p.fraction < 4503599627370496)
    (hpos : 0 < (significand p).1)
    (hx : Within (significand p).1 (significand p).2 (M * 10 ^ E)) :
    ofDecimal negative M E = ofParts ⟨negative, p.exponent, p.fraction⟩ := by
  unfold ofDecimal
  split_ifs with hE
  · obtain ⟨n, rfl⟩ := Int.eq_ofNat_of_zero_le hE
    refine ofRatio_of_within negative (by decide) hexp hfrac hpos ?_
    convert hx using 1
    simp [Nat.pow_eq]
  · obtain ⟨n, hn⟩ : ∃ n : ℕ, E = -(n : ℤ) := ⟨(-E).toNat, by omega⟩
    subst hn
    refine ofRatio_of_within negative (by rw [Nat.pow_eq]; positivity) hexp hfrac hpos ?_
    convert hx using 1
    simp [Nat.pow_eq, zpow_neg, div_eq_mul_inv]

theorem ofDecimal_zero (negative : Bool) (E : ℤ) : ofDecimal negative 0 E = zero negative := by
  unfold ofDecimal
  split_ifs <;> simp [ofRatio_zero]

end Binary64

/-! ### The digits of a finite value -/

/-- The shortest digits of a finite value: none for zero; otherwise the shortest digits of
its significand, which lie in its rounding interval, with the decimal point between `-1075`
and `1024`. -/
theorem Decimal.ofFloat_cases {x : Float} (hx : isFinite x = true) :
    ((significand (parts x)).1 = 0 ∧ Decimal.ofFloat x = ⟨[], 0⟩) ∨
      (0 < (significand (parts x)).1 ∧ ∃ s : Scientific,
        Decimal.Within (significand (parts x)).1 (significand (parts x)).2
          ((s.digits : ℚ) * 10 ^ s.exponent) ∧
        Decimal.ofFloat x =
          ⟨Nat.toDigits 10 s.digits, s.exponent + (Nat.toDigits 10 s.digits).length⟩ ∧
        -1075 < s.exponent + (Nat.toDigits 10 s.digits).length ∧
        s.exponent + (Nat.toDigits 10 s.digits).length ≤ 1024) := by
  have hexp : (parts x).exponent < 2047 := by
    have : (parts x).exponent < 2048 := Nat.mod_lt _ (by decide)
    simp only [isFinite, ne_eq, decide_eq_true_eq] at hx
    omega
  have hfrac : (parts x).fraction < 4503599627370496 := Nat.mod_lt _ (by decide)
  obtain ⟨hm53, hq1, hq2, -, -⟩ := significand_cases (parts x) hexp hfrac
  by_cases hm : (significand (parts x)).1 = 0
  · exact Or.inl ⟨hm, by simp [Decimal.ofFloat, hm]⟩
  · -- the shortest digits lie in the rounding interval of `x`
    have hW := Decimal.shortest_within (Nat.pos_of_ne_zero hm) hm53 hq1 hq2
    generalize hs : Decimal.shortest (significand (parts x)).1 (significand (parts x)).2 = s
      at hW
    obtain ⟨hk, hlo, hhi⟩ :=
      Decimal.Within.point_bounds (Nat.pos_of_ne_zero hm) hm53 hq1 hq2 hW
    refine Or.inr ⟨Nat.pos_of_ne_zero hm, s, hW, ?_, hlo, hhi⟩
    simp [Decimal.ofFloat, hm, Decimal.digitsOf, hs, hk.ne']

/-- The numeral of a finite value's digits is well formed. -/
theorem wellFormed_ofFloat {x : Float} (hx : isFinite x = true) :
    (Numeral.ofDigits (Decimal.ofFloat x).digits (Decimal.ofFloat x).point).WellFormed := by
  rcases Decimal.ofFloat_cases hx with ⟨-, hd⟩ | ⟨-, s, -, hd, hlo, hhi⟩
  · rw [hd]
    exact Numeral.wellFormed_ofDigits (by simp) (by decide)
  · rw [hd]
    exact Numeral.wellFormed_ofDigits (fun c hc => Read.isDigit_of_isDigit
      (Nat.isDigit_of_mem_toDigits (by decide) (by decide) hc)) (by zify; rw [abs_lt]; omega)

open Binary64 Numeral in
/-- A finite value's text reads back as the value itself. -/
theorem parseFloat_floatText {x : Float} (hx : isFinite x = true) :
    Read.parseFloat (Query.Literal.floatText x) = .ok x := by
  have hexp : (parts x).exponent < 2047 := by
    have : (parts x).exponent < 2048 := Nat.mod_lt _ (by decide)
    simp only [isFinite, ne_eq, decide_eq_true_eq] at hx
    omega
  have hfrac : (parts x).fraction < 4503599627370496 := Nat.mod_lt _ (by decide)
  have hinf : isInfinite x = false := by simp_all [isInfinite, isFinite]
  rw [← String.ofList_toList (s := Query.Literal.floatText x), floatText_toList hx]
  -- the numeral is well formed and reads as a decimal that rounds to `x`
  suffices h : ofDecimal (parts x).negative
      (ofDigits (Decimal.ofFloat x).digits (Decimal.ofFloat x).point).mantissa
      (ofDigits (Decimal.ofFloat x).digits (Decimal.ofFloat x).point).scale = x by
    rw [parseFloat_chars _ (wellFormed_ofFloat hx) (by rw [h]; exact hinf), h]
  rcases Decimal.ofFloat_cases hx with ⟨hm, hd⟩ | ⟨hm, s, hW, hd, -, -⟩
  · -- zero: no digits, written `0.0`
    obtain ⟨-, -, -, hsub, -⟩ := significand_cases (parts x) hexp hfrac
    obtain ⟨-, he, hf⟩ := hsub (by omega)
    rw [hd]
    have hzero : (ofDigits [] 0).mantissa = 0 := by decide
    rw [hzero, ofDecimal_zero, zero]
    conv_rhs => rw [← ofParts_parts x]
    show _ = ofParts ⟨(parts x).negative, (parts x).exponent, (parts x).fraction⟩
    rw [he, hf, hm]
  · -- otherwise the shortest digits, which lie in the rounding interval of `x`
    rw [hd]
    have hval := value_ofDigits (s.exponent + (Nat.toDigits 10 s.digits).length)
      (Nat.toDigits_ne_nil (n := s.digits) (b := 10))
    rw [Nat.ofDigitChars_ten_toDigits, add_sub_cancel_right] at hval
    rw [ofDecimal_of_within _ hexp hfrac hm (hval ▸ hW)]
    exact ofParts_parts x

end EdgeQuery
