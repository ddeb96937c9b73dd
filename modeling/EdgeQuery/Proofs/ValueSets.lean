import EdgeQuery.Proofs.EvalSimulation
/-! # Multi-valued fields behave as sets

A field holds any number of values, and every comparison, function and boolean position
reads them as a set: whether some value satisfies a test, whether there is any value.
So two contexts that give each field the same values, in any order and with any repeats,
give the same outcome: the same `matched` and the same `state`.

Arithmetic is the exception. An arithmetic expression takes every combination of the
numbers its fields read as, but each operator keeps only the first 1024 results, in the
order of the values. When an expression has more combinations than that, the order and
the repeats of the values decide which results survive, and with them the outcome
(`value_order_decides_arithmetic`). When no arithmetic expression of the filter has more
than 1024 combinations, in either context, no result is cut and the outcome is the same
(`evaluate_of_sameValues`).

The proof runs the two evaluations side by side (`Related`), with the trace relation
`SamePartial`: both evaluations resolve the same fields in the same order, since a field
is missing in one context exactly when it is missing in the other. -/

namespace EdgeQuery.Eval

/-! ## Lists with the same members -/

section Members

variable {α : Type} {xs ys : List α}

theorem isEmpty_eq_of_mem_iff (h : ∀ x, x ∈ xs ↔ x ∈ ys) : xs.isEmpty = ys.isEmpty := by
  cases xs with
  | nil =>
    cases ys with
    | nil => rfl
    | cons y _ => exact absurd ((h y).2 List.mem_cons_self) List.not_mem_nil
  | cons x _ =>
    cases ys with
    | nil => exact absurd ((h x).1 List.mem_cons_self) List.not_mem_nil
    | cons _ _ => rfl

theorem any_eq_of_mem_iff (h : ∀ x, x ∈ xs ↔ x ∈ ys) (p : α → Bool) : xs.any p = ys.any p := by
  rw [Bool.eq_iff_iff, List.any_eq_true, List.any_eq_true]
  exact ⟨fun ⟨x, hx, hp⟩ => ⟨x, (h x).1 hx, hp⟩, fun ⟨x, hx, hp⟩ => ⟨x, (h x).2 hx, hp⟩⟩

end Members

/-! ## Contexts with the same values -/

/-- Two contexts that give every field the same values, in any order and with any repeats,
and carry the same term-frequency lists. -/
structure Context.SameValues (c c' : Context) : Prop where
  mem : ∀ field v, v ∈ c.values field ↔ v ∈ c'.values field
  offsets : c.offsets = c'.offsets

/-- Two resolutions of a field in contexts with the same values: both unresolved, or values
with the same members. -/
def Resolution.Alike : Resolution → Resolution → Prop
  | .values vs, .values ws => ∀ v, v ∈ vs ↔ v ∈ ws
  | .unresolved, .unresolved => True
  | _, _ => False

/-- Alike resolutions are both unresolved, or both values with the same members. -/
theorem Resolution.Alike.cases {r r' : Resolution} (h : r.Alike r') :
    (r = .unresolved ∧ r' = .unresolved) ∨
      ∃ vs ws, r = .values vs ∧ r' = .values ws ∧ ∀ v, v ∈ vs ↔ v ∈ ws := by
  cases r with
  | unresolved =>
    cases r' with
    | unresolved => exact Or.inl ⟨rfl, rfl⟩
    | values _ => exact absurd h id
  | values vs =>
    cases r' with
    | unresolved => exact absurd h id
    | values ws => exact Or.inr ⟨vs, ws, rfl, rfl, h⟩

section SameValues

variable {C C' : Context} {o : Options}

theorem Context.SameValues.missing (h : C.SameValues C') (field : Bytes) :
    (⟨C, o⟩ : Scope).missing field = (⟨C', o⟩ : Scope).missing field := by
  simp only [Scope.missing, isEmpty_eq_of_mem_iff (h.mem field)]

theorem Context.SameValues.lookup (h : C.SameValues C') (field : Bytes) :
    ((⟨C, o⟩ : Scope).lookup field).Alike ((⟨C', o⟩ : Scope).lookup field) := by
  unfold Scope.lookup
  rw [h.missing field]
  split
  · -- on the partial path both read the same fallback
    cases o.fallback.bind (· field) with
    | some vs => exact fun _ => Iff.rfl
    | none => trivial
  · exact h.mem field

/-- Resolving a field in two contexts with the same values gives alike resolutions and
records the field in both or in neither. -/
theorem Context.SameValues.resolve (h : C.SameValues C') (field : Bytes) :
    Related SamePartial Resolution.Alike ((⟨C, o⟩ : Scope).resolve field)
      ((⟨C', o⟩ : Scope).resolve field) := by
  intro t u hq
  rw [Scope.resolve_run, Scope.resolve_run, h.missing field]
  exact ⟨h.lookup field, hq.record _ field⟩

end SameValues

/-! ## Arithmetic -/

/-- How many numbers an arithmetic expression takes before any cut: one for a number, the
values of a field that read as numbers (none when the field cannot be resolved), and the
product of the two sides for an operator. -/
def Calc.combinations (s : Scope) : Calc → Nat
  | .num _ => 1
  | .field n =>
    match s.lookup n with
    | .values vs => (vs.filterMap fun v => toNum? v.normalized).length
    | .unresolved => 0
  | .op _ l r => l.combinations s * r.combinations s

/-- The numbers of a field are those of its lookup, and reading them records the field on
the partial path. -/
theorem Scope.numbers_field_run (s : Scope) (n : Bytes) (t : Trace) :
    (s.numbers (.field n)).run t =
      (match s.lookup n with
        | .unresolved => none
        | .values vs => some (vs.filterMap fun v => toNum? v.normalized),
       if s.missing n then { t with partialFields := t.partialFields ++ [n] } else t) := by
  simp only [Scope.numbers, StateT.run_bind, Scope.resolve_run]
  cases s.lookup n <;> rfl

/-- Every combination of two lists of numbers under an operator, in order. -/
theorem length_combine (o : Query.ArithOp) (xs ys : List Float) :
    (xs.flatMap fun x => ys.map fun y => applyArith o x y).length = xs.length * ys.length := by
  induction xs with
  | nil => simp
  | cons x xs ih => simp [List.flatMap_cons, ih, Nat.succ_mul, Nat.add_comm]

theorem isEmpty_combine (o : Query.ArithOp) (xs ys : List Float) :
    (xs.flatMap fun x => ys.map fun y => applyArith o x y).isEmpty = (xs.isEmpty || ys.isEmpty) := by
  cases xs <;> cases ys <;> simp

theorem mem_combine_iff_of_mem_iff {o : Query.ArithOp} {xs xs' ys ys' : List Float}
    (hx : ∀ x, x ∈ xs ↔ x ∈ xs') (hy : ∀ y, y ∈ ys ↔ y ∈ ys') (z : Float) :
    z ∈ (xs.flatMap fun x => ys.map fun y => applyArith o x y) ↔
      z ∈ (xs'.flatMap fun x => ys'.map fun y => applyArith o x y) := by
  simp only [List.mem_flatMap, List.mem_map, hx, hy]

/-- What is known of the numbers an arithmetic expression takes in two contexts with the
same values, where it has `k` and `k'` combinations: both are defined or neither, both are
empty or neither, each has at most its combinations and exactly them when they are at most
1024, and then the two have the same members. -/
structure NumbersAlike (k k' : Nat) (a b : Option (List Float)) : Prop where
  defined : a.isSome = b.isSome
  empty : ∀ xs ys, a = some xs → b = some ys → xs.isEmpty = ys.isEmpty
  left : ∀ xs, a = some xs → xs.length ≤ k ∧ (k ≤ 1024 → xs.length = k)
  right : ∀ ys, b = some ys → ys.length ≤ k' ∧ (k' ≤ 1024 → ys.length = k')
  members : k ≤ 1024 → k' ≤ 1024 → ∀ xs ys, a = some xs → b = some ys → ∀ x, x ∈ xs ↔ x ∈ ys

theorem NumbersAlike.none (k k' : Nat) : NumbersAlike k k' none none :=
  ⟨rfl, by simp, by simp, by simp, by simp⟩

/-- Alike results are both undefined or both lists. -/
theorem NumbersAlike.cases {k k' : Nat} {a b : Option (List Float)} (h : NumbersAlike k k' a b) :
    (a = .none ∧ b = .none) ∨ ∃ xs ys, a = some xs ∧ b = some ys := by
  have hd := h.defined
  cases a with
  | none =>
    cases b with
    | none => exact Or.inl ⟨rfl, rfl⟩
    | some _ => simp at hd
  | some xs =>
    cases b with
    | none => simp at hd
    | some ys => exact Or.inr ⟨xs, ys, rfl, rfl⟩

/-- Below the cut, whether some number passes a test is the same on both sides. -/
theorem NumbersAlike.any_eq {k k' : Nat} {xs ys : List Float}
    (h : NumbersAlike k k' (some xs) (some ys)) (hk : k ≤ 1024) (hk' : k' ≤ 1024)
    (p : Float → Bool) : xs.any p = ys.any p :=
  any_eq_of_mem_iff (h.members hk hk' xs ys rfl rfl) p

/-- The first 1024 combinations of a list with `k` numbers and one with `j`: at most `k * j`
of them, and all of them when `k * j` is at most 1024. -/
theorem length_take_combine {o : Query.ArithOp} {xs ys : List Float} {k j : Nat}
    (hx : xs.length ≤ k ∧ (k ≤ 1024 → xs.length = k))
    (hy : ys.length ≤ j ∧ (j ≤ 1024 → ys.length = j)) :
    ((xs.flatMap fun x => ys.map fun y => applyArith o x y).take 1024).length ≤ k * j ∧
      (k * j ≤ 1024 → ((xs.flatMap fun x => ys.map fun y => applyArith o x y).take 1024).length =
        k * j) := by
  rw [List.length_take, length_combine]
  have hprod : xs.length * ys.length ≤ k * j := Nat.mul_le_mul hx.1 hy.1
  refine ⟨Nat.le_trans (Nat.min_le_right _ _) hprod, fun hkj => ?_⟩
  -- below the cut each side has all its combinations, unless the other side has none
  rcases Nat.eq_zero_or_pos k with hk | hk
  · have : xs.length = 0 := by omega
    simp [this, hk]
  rcases Nat.eq_zero_or_pos j with hj | hj
  · have : ys.length = 0 := by omega
    simp [this, hj]
  have hk' : k ≤ 1024 := Nat.le_trans (Nat.le_mul_of_pos_right k hj) hkj
  have hj' : j ≤ 1024 := Nat.le_trans (Nat.le_mul_of_pos_left j hk) hkj
  rw [hx.2 hk', hy.2 hj']
  omega

/-- The first 1024 combinations are empty exactly when one side is. -/
theorem isEmpty_take_combine (o : Query.ArithOp) (xs ys : List Float) :
    ((xs.flatMap fun x => ys.map fun y => applyArith o x y).take 1024).isEmpty =
      (xs.isEmpty || ys.isEmpty) := by
  rw [← isEmpty_combine o xs ys]
  cases (xs.flatMap fun x => ys.map fun y => applyArith o x y) <;> simp

/-- Combining two alike results under an operator gives alike results. -/
theorem NumbersAlike.combine {kl kl' kr kr' : Nat} {xs xs' ys ys' : List Float}
    (hl : NumbersAlike kl kl' (some xs) (some xs')) (hr : NumbersAlike kr kr' (some ys) (some ys'))
    (o : Query.ArithOp) :
    NumbersAlike (kl * kr) (kl' * kr')
      (some ((xs.flatMap fun x => ys.map fun y => applyArith o x y).take 1024))
      (some ((xs'.flatMap fun x => ys'.map fun y => applyArith o x y).take 1024)) := by
  have hxe := hl.empty xs xs' rfl rfl
  have hye := hr.empty ys ys' rfl rfl
  refine ⟨rfl, ?_, ?_, ?_, ?_⟩
  · rintro _ _ ⟨⟩ ⟨⟩
    rw [isEmpty_take_combine, isEmpty_take_combine, hxe, hye]
  · rintro _ ⟨⟩
    exact length_take_combine (hl.left xs rfl) (hr.left ys rfl)
  · rintro _ ⟨⟩
    exact length_take_combine (hl.right xs' rfl) (hr.right ys' rfl)
  · rintro hcap hcap' _ _ ⟨⟩ ⟨⟩ z
    -- an empty side leaves nothing on both sides; otherwise nothing is cut
    by_cases hempty : (xs.isEmpty || ys.isEmpty) = true
    · have hempty' : (xs'.isEmpty || ys'.isEmpty) = true := by rw [← hxe, ← hye]; exact hempty
      have h1 := isEmpty_take_combine o xs ys
      have h2 := isEmpty_take_combine o xs' ys'
      rw [hempty, List.isEmpty_iff] at h1
      rw [hempty', List.isEmpty_iff] at h2
      rw [h1, h2]
    · have hxs : 0 < xs.length := List.length_pos_iff.2 fun h => hempty (by simp [h])
      have hys : 0 < ys.length := List.length_pos_iff.2 fun h => hempty (by simp [h])
      have hxs' : 0 < xs'.length := List.length_pos_iff.2 fun h => hempty (by rw [hxe]; simp [h])
      have hys' : 0 < ys'.length := List.length_pos_iff.2 fun h => hempty (by rw [hye]; simp [h])
      have hkl : 0 < kl := Nat.lt_of_lt_of_le hxs (hl.left xs rfl).1
      have hkr : 0 < kr := Nat.lt_of_lt_of_le hys (hr.left ys rfl).1
      have hkl' : 0 < kl' := Nat.lt_of_lt_of_le hxs' (hl.right xs' rfl).1
      have hkr' : 0 < kr' := Nat.lt_of_lt_of_le hys' (hr.right ys' rfl).1
      -- each side is below the cut, so both results hold every combination
      have hcl : kl ≤ 1024 := Nat.le_trans (Nat.le_mul_of_pos_right kl hkr) hcap
      have hcr : kr ≤ 1024 := Nat.le_trans (Nat.le_mul_of_pos_left kr hkl) hcap
      have hcl' : kl' ≤ 1024 := Nat.le_trans (Nat.le_mul_of_pos_right kl' hkr') hcap'
      have hcr' : kr' ≤ 1024 := Nat.le_trans (Nat.le_mul_of_pos_left kr' hkl') hcap'
      have hlen : (xs.flatMap fun x => ys.map fun y => applyArith o x y).length ≤ 1024 := by
        rw [length_combine, (hl.left xs rfl).2 hcl, (hr.left ys rfl).2 hcr]
        exact hcap
      have hlen' : (xs'.flatMap fun x => ys'.map fun y => applyArith o x y).length ≤ 1024 := by
        rw [length_combine, (hl.right xs' rfl).2 hcl', (hr.right ys' rfl).2 hcr']
        exact hcap'
      rw [List.take_of_length_le hlen, List.take_of_length_le hlen']
      exact mem_combine_iff_of_mem_iff (hl.members hcl hcl' xs xs' rfl rfl)
        (hr.members hcr hcr' ys ys' rfl rfl) z

section SameValues

variable {C C' : Context} {o : Options}

/-- An arithmetic expression takes alike numbers in two contexts with the same values. -/
theorem Context.SameValues.numbers (h : C.SameValues C') (c : Calc) :
    Related SamePartial
      (NumbersAlike (c.combinations ⟨C, o⟩) (c.combinations ⟨C', o⟩))
      ((⟨C, o⟩ : Scope).numbers c) ((⟨C', o⟩ : Scope).numbers c) := by
  induction c with
  | num x => exact Related.pure ⟨rfl, by simp, by simp [Calc.combinations], by simp [Calc.combinations], by simp⟩
  | field n =>
    intro t u hq
    rw [Scope.numbers_field_run, Scope.numbers_field_run, h.missing n]
    refine ⟨?_, hq.record _ n⟩
    simp only [Calc.combinations]
    rcases (h.lookup (o := o) n).cases with ⟨hr, hr'⟩ | ⟨vs, ws, hr, hr', hvs⟩
    · rw [hr, hr']
      exact NumbersAlike.none 0 0
    · rw [hr, hr']
      have hmem : ∀ x, x ∈ vs.filterMap (fun v => toNum? v.normalized) ↔
          x ∈ ws.filterMap (fun v => toNum? v.normalized) := by
        intro x
        simp only [List.mem_filterMap, hvs]
      exact ⟨rfl, fun _ _ h1 h2 => by cases h1; cases h2; exact isEmpty_eq_of_mem_iff hmem,
        fun _ h1 => by cases h1; simp, fun _ h2 => by cases h2; simp,
        fun _ _ _ _ h1 h2 => by cases h1; cases h2; exact hmem⟩
  | op op l r ihl ihr =>
    simp only [Scope.numbers]
    refine Related.bind ihl fun a a' hl => Related.bind ihr fun b b' hr => ?_
    -- an unresolved side leaves both unresolved; otherwise both combine
    obtain ⟨rfl, rfl⟩ | ⟨xs, xs', rfl, rfl⟩ := hl.cases
    · exact Related.pure (NumbersAlike.none _ _)
    obtain ⟨rfl, rfl⟩ | ⟨ys, ys', rfl, rfl⟩ := hr.cases
    · exact Related.pure (NumbersAlike.none _ _)
    exact Related.pure (hl.combine hr op)

end SameValues

/-! ## Comparisons -/

/-- A comparison of a field reads its values as a set. -/
theorem Test.fieldTruth_eq_of_mem_iff (t : Test) (arith : Arithmetic) {vs ws : List Value}
    (h : ∀ v, v ∈ vs ↔ v ∈ ws) : t.fieldTruth arith vs = t.fieldTruth arith ws := by
  unfold Test.fieldTruth
  simp only [isEmpty_eq_of_mem_iff h, any_eq_of_mem_iff h]

/-- Alike resolutions give a comparison the same truth. -/
theorem Resolution.Alike.lookupTruth {r r' : Resolution} (h : r.Alike r') (t : Test)
    (arith : Arithmetic) : t.lookupTruth arith r = t.lookupTruth arith r' := by
  rcases h.cases with ⟨rfl, rfl⟩ | ⟨vs, ws, rfl, rfl, hvs⟩
  · rfl
  · exact t.fieldTruth_eq_of_mem_iff arith hvs

section SameValues

variable {C C' : Context} {o : Options}

theorem Context.SameValues.evalField (h : C.SameValues C') (t : Test) (field : Bytes) :
    Related SamePartial Eq (t.evalField ⟨C, o⟩ field) (t.evalField ⟨C', o⟩ field) := by
  intro u u' hq
  obtain ⟨hv, hp⟩ := t.evalField_run ⟨C, o⟩ field u
  obtain ⟨hv', hp'⟩ := t.evalField_run ⟨C', o⟩ field u'
  obtain ⟨-, hq'⟩ := h.resolve field u u' hq
  refine ⟨?_, ?_⟩
  · rw [hv, hv']
    exact (h.lookup field).lookupTruth t o.arithmetic
  · unfold SamePartial
    rw [hp, hp']
    exact hq'

/-- A comparison of arithmetic below the cut in both contexts has the same truth in both. -/
theorem Context.SameValues.evalCalc (h : C.SameValues C') (t : Test) (c : Calc)
    (hk : c.combinations ⟨C, o⟩ ≤ 1024) (hk' : c.combinations ⟨C', o⟩ ≤ 1024) :
    Related SamePartial Eq (t.evalCalc ⟨C, o⟩ c) (t.evalCalc ⟨C', o⟩ c) := by
  unfold Test.evalCalc
  refine Related.bind (h.numbers c) fun a a' ha => ?_
  obtain ⟨rfl, rfl⟩ | ⟨xs, ys, rfl, rfl⟩ := ha.cases
  · exact Related.pure rfl
  · simp only [ha.any_eq hk hk']
    split <;> exact Related.pure rfl

end SameValues

/-! ## Built-in functions -/

section SameValues

variable {C C' : Context} {o : Options}

theorem Context.SameValues.evalIsNull (h : C.SameValues C') (fs : List Bytes) :
    Related SamePartial Eq (Builtin.evalIsNull ⟨C, o⟩ fs) (Builtin.evalIsNull ⟨C', o⟩ fs) := by
  induction fs with
  | nil => exact Related.pure rfl
  | cons f fs ih =>
    rw [Builtin.evalIsNull, Builtin.evalIsNull]
    refine Related.bind (h.resolve f) fun r r' hr => ?_
    rcases hr.cases with ⟨rfl, rfl⟩ | ⟨vs, ws, rfl, rfl, hvs⟩
    · exact ih
    -- a field has a value in one context exactly when it has one in the other
    · have hempty := isEmpty_eq_of_mem_iff hvs
      cases vs <;> cases ws
      · exact ih
      · simp at hempty
      · simp at hempty
      · exact Related.pure rfl

theorem Context.SameValues.evalIsNotNull (h : C.SameValues C') (fs : List Bytes) :
    Related SamePartial Eq (Builtin.evalIsNotNull ⟨C, o⟩ fs)
      (Builtin.evalIsNotNull ⟨C', o⟩ fs) := by
  induction fs with
  | nil => exact Related.pure rfl
  | cons f fs ih =>
    rw [Builtin.evalIsNotNull, Builtin.evalIsNotNull]
    refine Related.bind (h.resolve f) fun r r' hr => ?_
    rcases hr.cases with ⟨rfl, rfl⟩ | ⟨vs, ws, rfl, rfl, hvs⟩
    · exact Related.pure rfl
    · have hempty := isEmpty_eq_of_mem_iff hvs
      cases vs <;> cases ws
      · exact ih
      · simp at hempty
      · simp at hempty
      · exact Related.pure rfl

theorem Context.SameValues.evalIncludeText (h : C.SameValues C') (text : Bytes)
    (unresolved : Bool) (fs : List Bytes) :
    Related SamePartial Eq (Builtin.evalIncludeText ⟨C, o⟩ text unresolved fs)
      (Builtin.evalIncludeText ⟨C', o⟩ text unresolved fs) := by
  induction fs generalizing unresolved with
  | nil => exact Related.pure rfl
  | cons f fs ih =>
    rw [Builtin.evalIncludeText, Builtin.evalIncludeText]
    refine Related.bind (h.resolve f) fun r r' hr => ?_
    rcases hr.cases with ⟨rfl, rfl⟩ | ⟨vs, ws, rfl, rfl, hvs⟩
    · exact ih true
    -- a value with the text is found in one context exactly when in the other
    · have hfound : (vs.find? (·.text == text)).isSome = (ws.find? (·.text == text)).isSome := by
        rw [Bool.eq_iff_iff, List.find?_isSome, List.find?_isSome]
        simp only [hvs]
      dsimp only
      cases hv : vs.find? (·.text == text) <;> cases hw : ws.find? (·.text == text)
      · exact ih unresolved
      · simp [hv, hw] at hfound
      · simp [hv, hw] at hfound
      · exact Related.bind (Scope.hit_related _ _ f f _ _) fun _ _ _ => Related.pure rfl

theorem Context.SameValues.frequencies (h : C.SameValues C') (field : Bytes) :
    Related SamePartial Eq ((⟨C, o⟩ : Scope).frequencies field)
      ((⟨C', o⟩ : Scope).frequencies field) := by
  intro t u hq
  have hlist : C.frequencies? field = C'.frequencies? field := by
    simp only [Context.frequencies?, h.offsets]
  rw [Scope.frequencies_run, Scope.frequencies_run]
  dsimp only
  rw [hlist]
  cases C'.frequencies? field with
  | some f => exact ⟨rfl, hq⟩
  | none =>
    cases o.incomplete.contains field
    · exact ⟨rfl, hq⟩
    · exact ⟨rfl, congrArg (· ++ [field]) hq⟩

theorem Context.SameValues.evalPhrases (h : C.SameValues C') (field : Bytes)
    (hits : Frequencies → List (Bytes × Int × Int)) :
    Related SamePartial Eq (Builtin.evalPhrases ⟨C, o⟩ field hits)
      (Builtin.evalPhrases ⟨C', o⟩ field hits) := by
  unfold Builtin.evalPhrases
  refine Related.bind (h.frequencies field) fun a a' ha => ?_
  subst ha
  rcases a with _ | _ | f
  · exact Related.pure rfl
  · exact Related.pure rfl
  -- recording phrase positions leaves the incomplete fields alone
  · exact fun _ _ hq => ⟨rfl, hq⟩

theorem Context.SameValues.builtin (h : C.SameValues C') (b : Builtin) :
    Related SamePartial Eq (b.eval ⟨C, o⟩) (b.eval ⟨C', o⟩) := by
  cases b with
  | isNull fs => exact h.evalIsNull fs
  | isNotNull fs => exact h.evalIsNotNull fs
  | includeText fs text => exact h.evalIncludeText text false fs
  | phrase field terms => exact h.evalPhrases field _
  | within field window terms => exact h.evalPhrases field _
  | option => exact Related.pure rfl

end SameValues

/-! ## Compiled filters -/

/-- The arithmetic expression a comparison reads, if it reads one. -/
def Target.calcs : Target → List Calc
  | .calc c => [c]
  | .field _ => []

mutual

/-- The arithmetic expressions a compiled filter evaluates, in order. -/
def Condition.calcs : Condition → List Calc
  | .calc c => [c]
  | .test t => t.target.calcs
  | .not c => c.calcs
  | .and cs => Condition.calcsAll cs
  | .or cs => Condition.calcsAll cs
  | .unknown | .const _ | .field _ | .builtin _ => []

/-- The arithmetic expressions of a list of compiled filters, in order. -/
def Condition.calcsAll : List Condition → List Calc
  | [] => []
  | c :: cs => c.calcs ++ Condition.calcsAll cs

end

section SameValues

variable {C C' : Context} {o : Options}

theorem Context.SameValues.test (h : C.SameValues C') (t : Test)
    (hk : ∀ c ∈ t.target.calcs, c.combinations ⟨C, o⟩ ≤ 1024 ∧ c.combinations ⟨C', o⟩ ≤ 1024) :
    Related SamePartial Eq (t.eval ⟨C, o⟩) (t.eval ⟨C', o⟩) := by
  unfold Test.eval
  split
  next c ht =>
    obtain ⟨hc, hc'⟩ := hk c (by simp [ht, Target.calcs])
    exact h.evalCalc t c hc hc'
  next f _ => exact h.evalField t f

mutual

/-- A compiled filter whose arithmetic stays below the cut evaluates alike in two contexts
with the same values. The induction follows the evaluator: one case per kind of condition,
and the junctions term by term. -/
theorem Context.SameValues.eval (h : C.SameValues C') : (cond : Condition) →
    (∀ c ∈ cond.calcs, c.combinations ⟨C, o⟩ ≤ 1024 ∧ c.combinations ⟨C', o⟩ ≤ 1024) →
    Related SamePartial Eq (cond.eval ⟨C, o⟩) (cond.eval ⟨C', o⟩)
  | .unknown, _ => Related.pure rfl
  | .const _, _ => Related.pure rfl
  | .field n, _ => by
    rw [Condition.eval, Condition.eval]
    refine Related.bind (h.resolve n) fun r r' hr => ?_
    rcases hr.cases with ⟨rfl, rfl⟩ | ⟨vs, ws, rfl, rfl, hvs⟩
    · exact Related.pure rfl
    · exact Related.pure (by rw [isEmpty_eq_of_mem_iff hvs])
  | .calc c, hk => by
    rw [Condition.eval, Condition.eval]
    obtain ⟨hc, hc'⟩ := hk c (by simp [Condition.calcs])
    refine Related.bind (h.numbers c) fun a a' ha => ?_
    obtain ⟨rfl, rfl⟩ | ⟨xs, ys, rfl, rfl⟩ := ha.cases
    · exact Related.pure rfl
    · exact Related.pure (by rw [ha.any_eq hc hc'])
  | .test t, hk => by
    rw [Condition.eval, Condition.eval]
    exact h.test t hk
  | .builtin b, _ => by
    rw [Condition.eval, Condition.eval]
    exact h.builtin b
  | .not c, hk => by
    rw [Condition.eval, Condition.eval]
    exact (h.eval c hk).map fun _ _ hab => congrArg Truth.not hab
  | .and cs, hk => by
    rw [Condition.eval, Condition.eval]
    exact h.evalAnd .yes cs hk
  | .or cs, hk => by
    rw [Condition.eval, Condition.eval]
    exact h.evalOr .no cs hk

theorem Context.SameValues.evalAnd (h : C.SameValues C') (acc : Truth) : (cs : List Condition) →
    (∀ c ∈ Condition.calcsAll cs, c.combinations ⟨C, o⟩ ≤ 1024 ∧ c.combinations ⟨C', o⟩ ≤ 1024) →
    Related SamePartial Eq (Condition.evalAnd ⟨C, o⟩ acc cs) (Condition.evalAnd ⟨C', o⟩ acc cs)
  | [], _ => Related.pure rfl
  | c :: cs, hk => by
    rw [Condition.evalAnd, Condition.evalAnd]
    refine Related.bind (h.eval c fun x hx => hk x (List.mem_append_left _ hx)) fun a b hab => ?_
    subst hab
    split
    · exact Related.pure rfl
    · exact h.evalAnd (acc.andStep a) cs fun x hx => hk x (List.mem_append_right _ hx)

theorem Context.SameValues.evalOr (h : C.SameValues C') (acc : Truth) : (cs : List Condition) →
    (∀ c ∈ Condition.calcsAll cs, c.combinations ⟨C, o⟩ ≤ 1024 ∧ c.combinations ⟨C', o⟩ ≤ 1024) →
    Related SamePartial Eq (Condition.evalOr ⟨C, o⟩ acc cs) (Condition.evalOr ⟨C', o⟩ acc cs)
  | [], _ => Related.pure rfl
  | c :: cs, hk => by
    rw [Condition.evalOr, Condition.evalOr]
    refine Related.bind (h.eval c fun x hx => hk x (List.mem_append_left _ hx)) fun a b hab => ?_
    subst hab
    split
    · exact Related.pure rfl
    · exact h.evalOr (acc.orStep a) cs fun x hx => hk x (List.mem_append_right _ hx)

end

end SameValues

/-- Multi-valued fields behave as sets: two contexts that give every field the same values,
in any order and with any repeats, give a compiled filter the same `matched` and `state`,
as long as each arithmetic expression of the filter has at most 1024 combinations in both. -/
theorem evaluate_of_sameValues (ev : Evaluation) {C C' : Context} (h : C.SameValues C')
    (hcap : ∀ c ∈ ev.condition.calcs,
      c.combinations ⟨C, ev.options⟩ ≤ 1024 ∧ c.combinations ⟨C', ev.options⟩ ≤ 1024)
    (doc doc' : Option Document) :
    (ev.evaluate C doc).1.matched = (ev.evaluate C' doc').1.matched ∧
      (ev.evaluate C doc).1.state = (ev.evaluate C' doc').1.state :=
  Evaluation.outcome_eq_of_related (h.eval ev.condition hcap) doc doc'

/-! ## Reordering the values of one field -/

/-- Changing the values of one field leaves the other fields alone. -/
theorem Context.values_update (c : Context) (field : Bytes) (f : List Value → List Value)
    (n : Bytes) :
    (c.update field f).values n = if n = field then f (c.values field) else c.values n := by
  unfold Context.update Context.values
  split
  next hany =>
    -- the names stay, so the entry found is the one found before, changed when it is `field`
    have hkeep : ((fun e : Bytes × List Value => e.1 == n) ∘
        fun (m, vs) => if m == field then (m, f vs) else (m, vs)) = (·.1 == n) := by
      funext ⟨m, vs⟩
      by_cases hm : m = field <;> simp [hm]
    simp only [List.find?_map, hkeep]
    by_cases hn : n = field
    · subst hn
      cases hfind : c.fields.find? (·.1 == n) with
      | none =>
        obtain ⟨e, he, hname⟩ := List.any_eq_true.1 hany
        exact absurd hname (List.find?_eq_none.1 hfind e he)
      | some e =>
        have hname : e.1 = n := by simpa using List.find?_some hfind
        simp [hname]
    · cases hfind : c.fields.find? (·.1 == n) with
      | none => simp [hn]
      | some e =>
        have hname : e.1 = n := by simpa using List.find?_some hfind
        simp [hname, hn]
  next hnone =>
    -- the field is new: it is found after every other entry, and had no values
    have habsent : c.fields.find? (·.1 == field) = none := by
      rw [List.find?_eq_none]
      intro e he hname
      exact hnone (List.any_eq_true.2 ⟨e, he, hname⟩)
    by_cases hn : n = field
    · subst hn
      simp [List.find?_append, habsent]
    · simp [List.find?_append, hn, Ne.symm hn]

/-- Replacing the values of a field by a list with the same members, such as a permutation
of them or the same values with repeats, keeps the values of every field. -/
theorem Context.sameValues_set (c : Context) (field : Bytes) (vs : List Value)
    (h : ∀ v, v ∈ vs ↔ v ∈ c.values field) : c.SameValues (c.set field vs) where
  mem n v := by
    rw [Context.set, Context.values_update]
    split
    next hn =>
      subst hn
      exact (h v).symm
    next => exact Iff.rfl
  offsets := by
    unfold Context.set Context.update
    split <;> rfl

/-- `A + 0` over a field `A` that holds two values, then the same values reversed with one
repeated. -/
theorem evaluate_reversed_repeated_values :
    let A := Bytes.ofString "A"
    let zero := Value.ofBytes [Bytes.ofChar '0']
    let one := Value.ofBytes [Bytes.ofChar '1']
    let ctx : Context := { fields := [(A, [zero, one])] }
    let ev : Evaluation := ⟨.arith .add (.field "A") (.lit (.int 0)),
      .calc (.op .add (.field A) (.num (Binary64.ofDecimal false 0 0))), {}⟩
    (ev.evaluate ctx none).1.matched = (ev.evaluate (ctx.set A [one, zero, one]) none).1.matched ∧
      (ev.evaluate ctx none).1.state = (ev.evaluate (ctx.set A [one, zero, one]) none).1.state := by
  intro A zero one ctx ev
  have hvalues : ctx.values A = [zero, one] := by simp [ctx, Context.values]
  have hsame : ctx.SameValues (ctx.set A [one, zero, one]) := by
    apply Context.sameValues_set
    intro v
    rw [hvalues]
    simp only [List.mem_cons, List.not_mem_nil, or_false]
    constructor
    · rintro (h | h | h) <;> simp [h]
    · rintro (h | h) <;> simp [h]
  have hcap : ∀ c ∈ ev.condition.calcs, c.combinations ⟨ctx, ev.options⟩ ≤ 1024 ∧
      c.combinations ⟨ctx.set A [one, zero, one], ev.options⟩ ≤ 1024 := by
    intro c hc
    simp only [ev, Condition.calcs, List.mem_singleton] at hc
    subst hc
    simp only [ev, ctx, Calc.combinations, Scope.lookup, Scope.missing, Context.set,
      Context.values_update, hvalues]
    simp
    -- at most one number per value
    constructor <;> exact Nat.le_trans (List.length_filterMap_le _ _) (by simp)
  exact evaluate_of_sameValues ev hsame hcap none none

/-! ## Where the order of values matters -/

/-- A field and a number combined in a boolean position, over a context that holds only that
field: the filter matches when one of the first 1024 results is a nonzero number. -/
theorem Evaluation.matches?_calc_field_num (e : Query.Expr) (o : Query.ArithOp) (A : Bytes)
    (y : Float) (vs : List Value) :
    (⟨e, .calc (.op o (.field A) (.num y)), {}⟩ : Evaluation).matches? { fields := [(A, vs)] } =
      (((vs.filterMap fun v => toNum? v.normalized).map fun x => applyArith o x y).take 1024).any
        fun x => !(x == 0) && !Binary64.isNaN x := by
  have hlookup : (⟨{ fields := [(A, vs)] }, {}⟩ : Scope).lookup A = .values vs := by
    simp [Scope.lookup, Scope.missing, Context.values]
  have hmissing : (⟨{ fields := [(A, vs)] }, {}⟩ : Scope).missing A = false := by
    simp [Scope.missing]
  simp only [Evaluation.matches?, Evaluation.evaluate_matched, Evaluation.run, Condition.eval,
    Scope.numbers, run_bind, Scope.resolve_run, run_pure, hlookup, hmissing, Truth.holds_ofBool]
  simp only [List.map_cons, List.map_nil, ← List.map_eq_flatMap]

/-- Past 1024 combinations the order of a field's values decides arithmetic: `A + 0` in a
boolean position, over 1024 zeros and a one, matches when the one comes first and not when
it comes last. -/
theorem value_order_decides_arithmetic :
    let zero := Value.ofBytes [Bytes.ofChar '0']
    let one := Value.ofBytes [Bytes.ofChar '1']
    let matches? (vs : List Value) : Except Report Bool :=
      (fun ev => ev.matches? { fields := [(Bytes.ofString "A", vs)] }) <$>
        Evaluation.compile (.arith .add (.field "A") (.lit (.int 0)))
    (List.replicate 1024 zero ++ [one]).Perm (one :: List.replicate 1024 zero) ∧
      matches? (one :: List.replicate 1024 zero) = .ok true ∧
      matches? (List.replicate 1024 zero ++ [one]) = .ok false := by
  intro zero one matches?
  have hcompile : Evaluation.compile (.arith .add (.field "A") (.lit (.int 0))) =
      .ok ⟨.arith .add (.field "A") (.lit (.int 0)),
        .calc (.op .add (.field (Bytes.ofString "A")) (.num (Binary64.ofDecimal false 0 0))), {}⟩ :=
    rfl
  -- the two values read as the numbers 0 and 1
  have hzero : toNum? zero.normalized = some (Binary64.ofDecimal false 0 0) := by
    simp only [zero, Value.ofBytes, toNum?, Bytes.trimSpace, Utf8.charsAt, List.drop_nil]
    rfl
  have hone : toNum? one.normalized = some (Binary64.ofDecimal false 1 0) := by
    simp only [one, Value.ofBytes, toNum?, Bytes.trimSpace, Utf8.charsAt, List.drop_nil]
    rfl
  have hzeros := List.filterMap_replicate_of_some (f := fun v : Value => toNum? v.normalized)
    (n := 1024) hzero
  have hfirst := List.filterMap_cons_some (f := fun v : Value => toNum? v.normalized)
    (l := List.replicate 1024 zero) hone
  -- `0 + 0` is zero, `1 + 0` is not, and neither is not-a-number
  have hsum0 : (!(applyArith .add (Binary64.ofDecimal false 0 0) (Binary64.ofDecimal false 0 0) == 0) &&
      !Binary64.isNaN (applyArith .add (Binary64.ofDecimal false 0 0)
        (Binary64.ofDecimal false 0 0))) = false := by
    decide
  have hsum1 : (!(applyArith .add (Binary64.ofDecimal false 1 0) (Binary64.ofDecimal false 0 0) == 0) &&
      !Binary64.isNaN (applyArith .add (Binary64.ofDecimal false 1 0)
        (Binary64.ofDecimal false 0 0))) = true := by
    decide
  refine ⟨List.perm_append_singleton one _, ?_, ?_⟩
  · simp only [matches?, hcompile, Functor.map, Except.map, Evaluation.matches?_calc_field_num]
    rw [hfirst, hzeros, List.map_cons, List.take_succ_cons, List.any_cons, hsum1, Bool.true_or]
  · -- the one is the 1025th result, and the cut drops it
    simp only [matches?, hcompile, Functor.map, Except.map, Evaluation.matches?_calc_field_num]
    rw [List.filterMap_append, hzeros, List.map_append, List.map_replicate,
      List.take_left' List.length_replicate, List.any_replicate, if_neg (by decide), hsum0]

end EdgeQuery.Eval
