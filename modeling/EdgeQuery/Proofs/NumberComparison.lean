import Mathlib
import EdgeQuery.Proofs.ValueSets
import EdgeQuery.Proofs.CompileParens
/-! # Comparing numbers

A comparison with a numeric literal reads each value of its field as a number, or takes the
numbers its arithmetic computes, and orders them against the literal with `floatOrder`.
That order is the IEEE-754 order of binary64 numbers, except that a comparison involving
not-a-number counts as equal (`floatOrder_eq`). A number that is not not-a-number therefore
compares with a literal exactly as IEEE-754 says (`comparison_follows_ieee`), while
not-a-number equals every literal (`nan_equals_number`).

The negated operators `!=` and `!~` compile from the same operands as `==` and `=~`
(`Test.ofComparison_twin`). Over a field, `!=` holds when no value equals the literal and
`!~` when no value matches: the negation of `==` and `=~` in every case, an unresolved field
included. Over arithmetic, `!=` uses IEEE-754 equality while `==` uses `floatOrder`, so the
two agree as long as no number is not-a-number (`negated_comparison_agrees`); `A / 0` is one,
and `A / 0 != 1` and `A / 0 == 1` are then both true (`division_by_zero_negation_disagrees`).

Main statements: `comparison_follows_ieee`, `negated_comparison_agrees`. -/

namespace EdgeQuery.Eval

open Query Float.Model

/-! ## The IEEE-754 order -/

/-- The IEEE-754 order of two numbers: none when either is not a number. -/
def ieeeOrder (x y : Float) : Option Ordering := x.toModel.unpack.compare y.toModel.unpack

theorem unpacked_compare_swap (a b : UnpackedFloat) :
    b.compare a = (a.compare b).map Ordering.swap := by
  rcases a with s | _ | s | ⟨s, m, e, hm⟩ <;> rcases b with t | _ | t | ⟨t, n, f, hn⟩ <;>
    (try cases s) <;> (try cases t) <;>
    simp [UnpackedFloat.compare, Ordering.swap_then, Int.compare_swap, Nat.compare_swap] <;> rfl

theorem unpacked_compare_eq_none_iff (a b : UnpackedFloat) :
    a.compare b = none ↔ a.isNaN ∨ b.isNaN := by
  rcases a with s | _ | s | ⟨s, m, e, hm⟩ <;> rcases b with t | _ | t | ⟨t, n, f, hn⟩ <;>
    (try cases s) <;> (try cases t) <;>
    simp [UnpackedFloat.compare, UnpackedFloat.isNaN]

theorem ieeeOrder_swap (x y : Float) : ieeeOrder y x = (ieeeOrder x y).map Ordering.swap :=
  unpacked_compare_swap _ _

theorem ieeeOrder_eq_none_iff {x y : Float} : ieeeOrder x y = none ↔ x.isNaN ∨ y.isNaN :=
  unpacked_compare_eq_none_iff _ _

theorem lt_iff_ieeeOrder {x y : Float} : x < y ↔ ieeeOrder x y = some .lt := by
  change Float.lt x y = true ↔ _
  simp only [Float.lt, decide_eq_true_eq]
  change (ieeeOrder x y == some .lt) = true ↔ _
  simp

theorem beq_iff_ieeeOrder {x y : Float} : (x == y) = true ↔ ieeeOrder x y = some .eq := by
  show (ieeeOrder x y == some .eq) = true ↔ _
  simp

theorem le_iff_ieeeOrder {x y : Float} :
    x ≤ y ↔ ieeeOrder x y = some .lt ∨ ieeeOrder x y = some .eq := by
  change Float.le x y = true ↔ _
  simp only [Float.le, decide_eq_true_eq]
  change (ieeeOrder x y).any (·.isLE) = true ↔ _
  cases ieeeOrder x y with
  | none => simp
  | some o => cases o <;> simp [Ordering.isLE]

theorem beq_eq_ieeeOrder (x y : Float) : (x == y) = (ieeeOrder x y == some .eq) := rfl

/-- The order of `floatOrder` is the IEEE-754 order, with a not-a-number counted equal to
every number. -/
theorem floatOrder_eq (x y : Float) : floatOrder x y = (ieeeOrder x y).getD .eq := by
  have hswap := ieeeOrder_swap x y
  unfold floatOrder
  simp only [GT.gt, lt_iff_ieeeOrder, hswap]
  cases ieeeOrder x y with
  | none => simp
  | some o => cases o <;> simp [Ordering.swap]

/-- Whether `x op y` holds in IEEE-754 arithmetic; never for the pattern operators. -/
def ieeeHolds (op : CompareOp) (x y : Float) : Bool :=
  match op with
  | .eq => x == y
  | .ne => !(x == y)
  | .lt => decide (x < y)
  | .gt => decide (x > y)
  | .le => decide (x ≤ y)
  | .ge => decide (x ≥ y)
  | .like | .unlike => false

/-- Two numbers, neither of them not-a-number, compare by their IEEE-754 order. -/
theorem ordered_floatOrder {op : CompareOp} (hop : op.isPattern = false) {x y : Float}
    (hx : x.isNaN = false) (hy : y.isNaN = false) :
    ordered op (floatOrder x y) = .ofBool (ieeeHolds op x y) := by
  have hnone : ieeeOrder x y ≠ none := fun h => by
    rcases ieeeOrder_eq_none_iff.1 h with h' | h' <;> simp_all
  obtain ⟨o, ho⟩ := Option.ne_none_iff_exists'.1 hnone
  have hswap : ieeeOrder y x = some o.swap := by rw [ieeeOrder_swap, ho]; rfl
  rw [floatOrder_eq, ho]
  cases op <;> cases o <;>
    simp_all [ordered, ieeeHolds, beq_eq_ieeeOrder, lt_iff_ieeeOrder, le_iff_ieeeOrder, GT.gt, GE.ge,
      Ordering.swap, CompareOp.isPattern] <;> rfl

/-! ## Truth values of comparisons -/

@[simp] theorem Truth.ofBool_eq_yes {b : Bool} : Truth.ofBool b = .yes ↔ b = true := by
  cases b <;> simp [Truth.ofBool]

@[simp] theorem Truth.ofBool_eq_no {b : Bool} : Truth.ofBool b = .no ↔ b = false := by
  cases b <;> simp [Truth.ofBool]

/-- An ordering operator gives a plain truth value. -/
theorem ordered_eq_ofBool {op : CompareOp} (hop : op.isPattern = false) (o : Ordering) :
    ∃ b, ordered op o = .ofBool b := by
  cases op <;> simp [CompareOp.isPattern] at hop <;> exact ⟨_, rfl⟩

/-- Equality with a literal is decided for every value: true or false, never unknown. -/
theorem Arithmetic.compare_eq_ofBool (a : Arithmetic) (v : Value) (lit : Literal) :
    ∃ b, a.compare .eq v lit = .ofBool b := by
  -- each literal kind either orders the two sides or reports a mismatch, which is false
  have hmismatch : ∃ b, mismatch .eq = .ofBool b := ⟨false, rfl⟩
  have hordered : ∀ o, ∃ b, ordered .eq o = .ofBool b := ordered_eq_ofBool rfl
  cases lit with
  | str s => exact hordered _
  | int _ | float _ =>
    dsimp only [Arithmetic.compare]
    split
    · exact hordered _
    · exact hmismatch
  | bool b =>
    dsimp only [Arithmetic.compare]
    split
    · exact ⟨_, rfl⟩
    · exact hmismatch
  | null => exact hmismatch

/-- A value that reads as a number compares with a numeric literal by the order of the two
numbers. -/
theorem Arithmetic.compare_number (a : Arithmetic) (op : CompareOp) {v : Value} {lit : Literal}
    {x want : Float} (hv : toNum? v.normalized = some x) (hlit : lit.toFloat? = some want) :
    a.compare op v lit = ordered op (floatOrder x want) := by
  cases lit <;> simp_all [Arithmetic.compare, Literal.toFloat?]

/-- Not-a-number compares equal to every number. -/
theorem floatOrder_of_isNaN {x : Float} (hx : x.isNaN = true) (y : Float) : floatOrder x y = .eq := by
  rw [floatOrder_eq, ieeeOrder_eq_none_iff.2 (Or.inl hx)]
  rfl

/-! ## Evaluating a comparison -/

/-- The truth of a comparison of arithmetic over the numbers it takes: what `evalCalc`
computes. -/
def Test.calcTruth (t : Test) : Option (List Float) → Truth
  | none => .assumed
  | some ns =>
    let want := (t.literal.toFloat?).getD 0
    if t.op = .ne then .ofBool (!ns.any (· == want))
    else .ofBool (ns.any fun x => ordered t.op (floatOrder x want) = .yes)

theorem Test.evalCalc_fst (t : Test) (s : Scope) (c : Calc) (u : Trace) :
    ((t.evalCalc s c).run u).1 = t.calcTruth ((s.numbers c).run u).1 := by
  simp only [Test.evalCalc, run_bind]
  cases ((s.numbers c).run u).1 with
  | none => rfl
  | some ns =>
    simp only [Test.calcTruth]
    split <;> rfl

/-- A comparison is the `calcTruth` of the numbers of its arithmetic, or the `lookupTruth` of
its field. -/
theorem Test.eval_fst (t : Test) (s : Scope) (u : Trace) :
    ((t.eval s).run u).1 =
      match t.target with
      | .calc c => t.calcTruth ((s.numbers c).run u).1
      | .field f => t.lookupTruth s.options.arithmetic (s.lookup f) := by
  unfold Test.eval
  rcases t.target with f | c
  · exact Test.evalField_fst t s f u
  · exact Test.evalCalc_fst t s c u

/-- A field with one value that reads as a number compares by the order of that number and
the literal. -/
theorem Test.fieldTruth_number (t : Test) (a : Arithmetic) {v : Value} {x want : Float}
    (hop : t.op.isPattern = false) (hv : toNum? v.normalized = some x)
    (hlit : t.literal.toFloat? = some want) :
    t.fieldTruth a [v] = ordered t.op (floatOrder x want) := by
  obtain ⟨target, op, lit, pattern⟩ := t
  simp only at hop hlit ⊢
  have hcmp : ∀ op, a.compare op v lit = ordered op (floatOrder x want) :=
    fun op => a.compare_number op hv hlit
  cases lit with
  | str _ | bool _ | null => simp [Literal.toFloat?] at hlit
  | int _ | float _ =>
    generalize floatOrder x want = o at hcmp
    cases op <;> simp [CompareOp.isPattern] at hop <;> cases o <;>
      simp [Test.fieldTruth, hcmp, ordered, Truth.ofBool]

/-- Arithmetic with one result compares by the order of that number and the literal; `!=`
asks IEEE-754 equality instead. -/
theorem Test.calcTruth_single (t : Test) {x want : Float} (hop : t.op.isPattern = false)
    (hlit : t.literal.toFloat? = some want) :
    t.calcTruth (some [x]) =
      if t.op = .ne then .ofBool !(x == want) else ordered t.op (floatOrder x want) := by
  obtain ⟨b, hb⟩ := ordered_eq_ofBool hop (floatOrder x want)
  simp only [Test.calcTruth, hlit, Option.getD_some, List.any_cons, List.any_nil, Bool.or_false, hb]
  cases b <;> rfl

/-- The operand of a comparison takes the one number `x`: a field with a single value that
reads as `x`, or arithmetic whose only result is `x`. -/
def Test.takesOnly (t : Test) (s : Scope) (u : Trace) (x : Float) : Prop :=
  match t.target with
  | .field f => ∃ v, s.lookup f = .values [v] ∧ toNum? v.normalized = some x
  | .calc c => ((s.numbers c).run u).1 = some [x]

/-- A comparison of one number that is not not-a-number with a numeric literal holds exactly
when it holds in IEEE-754 arithmetic, for a field and for arithmetic alike. -/
theorem comparison_follows_ieee (t : Test) (s : Scope) (u : Trace) {x want : Float}
    (hop : t.op.isPattern = false) (hlit : t.literal.toFloat? = some want) (hx : t.takesOnly s u x)
    (hxn : x.isNaN = false) (hwn : want.isNaN = false) :
    ((t.eval s).run u).1 = .ofBool (ieeeHolds t.op x want) := by
  rw [Test.eval_fst]
  unfold Test.takesOnly at hx
  split
  · next c hc =>
    rw [hc] at hx
    rw [hx, Test.calcTruth_single t hop hlit]
    split
    · next hne => rw [hne]; rfl
    · exact ordered_floatOrder hop hxn hwn
  · next f hf =>
    rw [hf] at hx
    obtain ⟨v, hlookup, hv⟩ := hx
    rw [hlookup, Test.lookupTruth, Test.fieldTruth_number t _ hop hv hlit]
    exact ordered_floatOrder hop hxn hwn

/-- `A < 10` over the one value `4` is true, as in IEEE-754. -/
theorem field_four_below_ten :
    let ctx : Context := { fields := [(Bytes.ofString "A", [Value.ofBytes (Bytes.ofString "4")])] }
    let t : Test := { target := .field (Bytes.ofString "A"), op := .lt, literal := .int 10 }
    ((t.eval ⟨ctx, {}⟩).run {}).1 = .yes := by
  intro ctx t
  have hx : t.takesOnly ⟨ctx, {}⟩ {} (Binary64.ofDecimal false 4 0) :=
    ⟨Value.ofBytes (Bytes.ofString "4"), by simp [ctx, Scope.lookup, Scope.missing, Context.values],
      by decide +kernel⟩
  rw [@comparison_follows_ieee t _ _ _ (Binary64.ofDecimal false 10 0) rfl rfl hx
    (by decide +kernel) (by decide +kernel)]
  decide +kernel

/-- `A == 10` over the one value `NaN`: the value reads as not-a-number, which IEEE-754 makes
equal to no number, and yet the record matches. -/
theorem nan_equals_number :
    let ctx : Context := { fields := [(Bytes.ofString "A", [Value.ofBytes (Bytes.ofString "NaN")])] }
    ∃ ev x, Evaluation.compile (.compare .eq (.field "A") (.lit (.int 10))) {} = .ok ev ∧
      toNum? (Bytes.ofString "NaN") = some x ∧ (∀ y, ieeeHolds .eq x y = false) ∧
      (ev.evaluate ctx none).1.matched = true := by
  intro ctx
  have hnan : Binary64.nan.isNaN = true := by decide +kernel
  refine ⟨_, Binary64.nan, rfl, by decide +kernel, fun y => ?_, by decide +kernel⟩
  -- not-a-number is unordered with every number
  simp [ieeeHolds, beq_eq_ieeeOrder, ieeeOrder_eq_none_iff.2 (Or.inl hnan)]

/-! ## Compiling the negated operators -/

/-- Two operators that check their literal alike accept the same literals. -/
theorem Test.check_toOption_twin {p q : CompareOp} (hpat : p.isPattern = q.isPattern)
    (hord : p.isOrdered = q.isOrdered) (s s' : String) (lit : Literal) :
    (Test.check s' q lit).toOption = (Test.check s p lit).toOption := by
  rw [Test.check_toOption s' s]
  unfold Test.check
  rw [hpat, hord]

theorem Test.ofComparison_twin_of_right {p q : CompareOp} (hpat : p.isPattern = q.isPattern)
    (hord : p.isOrdered = q.isOrdered) {X L : Expr} {v : Literal} (hr : L.deref = .lit v) :
    (Test.ofComparison q X L).toOption =
      (Test.ofComparison p X L).toOption.map fun t => { t with op := q } := by
  unfold Test.ofComparison
  simp only [pure_bind, hr]
  split
  · simp only [toOption_bind]
    rw [Test.check_toOption_twin hpat hord (Expr.compare p X L).render]
    cases (Test.check (Expr.compare p X L).render p v).toOption <;> rfl
  · simp only [toOption_bind]
    cases (Calc.ofExpr _).toOption with
    | none => rfl
    | some c =>
      by_cases hv : v.isNumber = true
      · simp only [Option.bind_some, hv, if_true, toOption_bind]
        rw [Test.check_toOption_twin hpat hord (Expr.compare p X L).render]
        cases (Test.check (Expr.compare p X L).render p v).toOption <;> rfl
      · simp only [Option.bind_some, hv]
        rfl
  · rfl

/-- Two operators that read their operands alike and check their literal alike compile the
same comparisons, to tests that differ only in the operator. -/
theorem Test.ofComparison_twin {p q : CompareOp} (hpat : p.isPattern = q.isPattern)
    (hord : p.isOrdered = q.isOrdered) (hp : p.mirror = p) (hq : q.mirror = q) (X L : Expr) :
    (Test.ofComparison q X L).toOption =
      (Test.ofComparison p X L).toOption.map fun t => { t with op := q } := by
  by_cases hright : ∃ v, L.deref = .lit v
  · obtain ⟨v, hv⟩ := hright
    exact Test.ofComparison_twin_of_right hpat hord hv
  have hr : ∀ v, L.deref ≠ .lit v := fun v h => hright ⟨v, h⟩
  by_cases hswap : ∃ v, X.deref = .lit v ∧ p.isPattern = false
  · -- the literal on the left moves to the right, and neither operator changes
    obtain ⟨v, hv, hop⟩ := hswap
    rw [Test.ofComparison_swap hv hr (hpat ▸ hop), Test.ofComparison_swap hv hr hop, hp, hq]
    exact Test.ofComparison_twin_of_right hpat hord hv
  · have hl (v : Literal) (hv : X.deref = .lit v) : p.isPattern = true := by
      simpa [hv] using hswap
    rw [Test.ofComparison_toOption_eq_none hr hl,
      Test.ofComparison_toOption_eq_none hr fun v hv => hpat ▸ hl v hv]
    rfl

/-- A pattern is matched against a string only. -/
theorem Test.check_pattern_str {op : CompareOp} (hop : op.isPattern = true) {s : String}
    {lit : Literal} {r : Option Pattern.Program} (h : Test.check s op lit = .ok r) :
    ∃ str, lit = .str str := by
  unfold Test.check at h
  rw [if_pos hop] at h
  cases lit with
  | str str => exact ⟨str, rfl⟩
  | _ => simp at h

/-- A pattern match compares a field: arithmetic compares with numbers only. -/
theorem Test.ofComparison_pattern_field {op : CompareOp} (hop : op.isPattern = true) {X L : Expr}
    {t : Test} (ht : Test.ofComparison op X L = .ok t) : ∃ f, t.target = .field f := by
  unfold Test.ofComparison at ht
  simp only [bind, Except.bind, pure, Except.pure] at ht
  split at ht <;> (repeat' split at ht) <;> simp_all
  all_goals
    subst ht
    first
    | exact ⟨_, rfl⟩
    | -- arithmetic would need a number where the pattern needs a string
      obtain ⟨str, rfl⟩ := Test.check_pattern_str hop ‹Test.check _ _ _ = .ok _›
      simp [Literal.isNumber] at *

theorem eq_ok_of_toOption {ε α : Type} {x : Except ε α} {a : α} (h : x.toOption = some a) :
    x = .ok a := by
  cases x <;> simp_all [Except.toOption]

/-- `!=` and `!~` compile from the operands of `==` and `=~`, to the same test with the
negated operator. -/
theorem Test.ofComparison_negate {op : CompareOp} (hop : op = .eq ∨ op = .like) {X L : Expr}
    {t : Test} (ht : Test.ofComparison op X L = .ok t) :
    t.op = op ∧ Test.ofComparison op.negate X L = .ok { t with op := op.negate } := by
  have hmirror : op.mirror = op ∧ op.negate.mirror = op.negate := by
    rcases hop with rfl | rfl <;> exact ⟨rfl, rfl⟩
  have hkind : op.isPattern = op.negate.isPattern ∧ op.isOrdered = op.negate.isOrdered := by
    rcases hop with rfl | rfl <;> exact ⟨rfl, rfl⟩
  -- read as its own twin, the operator shows that the test keeps it
  have hself := Test.ofComparison_twin rfl rfl hmirror.1 hmirror.1 X L
  have htwin := Test.ofComparison_twin hkind.1 hkind.2 hmirror.1 hmirror.2 X L
  rw [ht] at hself htwin
  refine ⟨?_, eq_ok_of_toOption htwin⟩
  have h := congrArg (Option.map Test.op) hself
  simpa [Except.toOption] using h

/-! ## Negated comparisons -/

/-- With a value and none equal to the literal, some value is unequal to it: equality is
never left undecided. -/
theorem any_compare_eq_no (a : Arithmetic) (lit : Literal) {vs : List Value} (hne : vs ≠ [])
    (hyes : (vs.any fun v => a.compare .eq v lit = .yes) = false) :
    (vs.any fun v => a.compare .eq v lit = .no) = true := by
  obtain ⟨v, hv⟩ := List.exists_mem_of_ne_nil vs hne
  obtain ⟨b, hb⟩ := a.compare_eq_ofBool v lit
  have hnot : a.compare .eq v lit ≠ .yes := by
    simp only [List.any_eq_false, decide_eq_true_eq] at hyes
    exact hyes v hv
  cases b with
  | true => exact absurd hb hnot
  | false => exact List.any_eq_true.2 ⟨v, hv, by simp [hb]⟩

/-- Over the values of a field, `!=` and `!~` are the negations of `==` and `=~`. -/
theorem Test.fieldTruth_negate {t : Test} (hop : t.op = .eq ∨ t.op = .like) (a : Arithmetic)
    (vs : List Value) :
    ({ t with op := t.op.negate } : Test).fieldTruth a vs = (t.fieldTruth a vs).not := by
  obtain ⟨target, op, lit, pattern⟩ := t
  simp only at hop ⊢
  rcases hop with rfl | rfl
  · -- `!=` holds when no value equals the literal; `==` is false only when one differs
    cases lit with
    | null => simp [Test.fieldTruth, CompareOp.negate]
    | str _ | int _ | float _ | bool _ =>
      simp only [Test.fieldTruth, CompareOp.negate]
      by_cases he : vs = []
      · subst he
        rfl
      rw [if_neg (by simpa using he)]
      split
      · next hy => simp [hy, Truth.not, Truth.ofBool]
      · next hy =>
        rw [if_pos (any_compare_eq_no a _ he (eq_false_of_ne_true hy))]
        simp [eq_false_of_ne_true hy, Truth.not, Truth.ofBool]
  · cases lit with
    | null => rfl
    | _ => simp [Test.fieldTruth, CompareOp.negate]

theorem Test.lookupTruth_negate {t : Test} (hop : t.op = .eq ∨ t.op = .like) (a : Arithmetic)
    (r : Resolution) :
    ({ t with op := t.op.negate } : Test).lookupTruth a r = (t.lookupTruth a r).not := by
  cases r with
  | unresolved => rfl
  | values vs => exact Test.fieldTruth_negate hop a vs

/-- Over numbers none of which is not-a-number, compared with a literal that is not one either,
`!=` is the negation of `==`. -/
theorem Test.calcTruth_negate {t : Test} (hop : t.op = .eq)
    (hw : (t.literal.toFloat?.getD 0).isNaN = false) {r : Option (List Float)}
    (hns : ∀ ns, r = some ns → ∀ x ∈ ns, x.isNaN = false) :
    ({ t with op := t.op.negate } : Test).calcTruth r = (t.calcTruth r).not := by
  cases r with
  | none => rfl
  | some ns =>
    -- each number is IEEE-equal to the literal exactly when `floatOrder` makes them equal
    have hsame : ∀ x ∈ ns, (x == t.literal.toFloat?.getD 0) =
        decide (ordered .eq (floatOrder x (t.literal.toFloat?.getD 0)) = .yes) := by
      intro x hx
      rw [ordered_floatOrder rfl (hns ns rfl x hx) hw]
      simp [ieeeHolds]
    have hany : (ns.any fun x => x == t.literal.toFloat?.getD 0) =
        ns.any fun x => decide (ordered .eq (floatOrder x (t.literal.toFloat?.getD 0)) = .yes) := by
      rw [Bool.eq_iff_iff, List.any_eq_true, List.any_eq_true]
      constructor
      · rintro ⟨x, hx, h⟩
        exact ⟨x, hx, hsame x hx ▸ h⟩
      · rintro ⟨x, hx, h⟩
        exact ⟨x, hx, (hsame x hx).symm ▸ h⟩
    simp only [Test.calcTruth, hop, CompareOp.negate]
    rw [if_pos trivial, if_neg (by decide), Truth.not_ofBool, hany]

/-- `X != L` and `X !~ L` evaluate to the negations of `X == L` and `X =~ L`, in every scope:
over a field always, over arithmetic when neither the literal nor any number the arithmetic
takes is not-a-number. -/
theorem negated_comparison_agrees {op : CompareOp} (hop : op = .eq ∨ op = .like) {X L : Expr}
    {t : Test} (ht : Test.ofComparison op X L = .ok t) (s : Scope) (u : Trace)
    (hnan : ∀ c, t.target = .calc c → (t.literal.toFloat?.getD 0).isNaN = false ∧
      ∀ ns, ((s.numbers c).run u).1 = some ns → ∀ x ∈ ns, x.isNaN = false) :
    Test.ofComparison op.negate X L = .ok { t with op := op.negate } ∧
      ((({ t with op := op.negate } : Test).eval s).run u).1 = ((t.eval s).run u).1.not := by
  obtain ⟨hto, hneg⟩ := Test.ofComparison_negate hop ht
  refine ⟨hneg, ?_⟩
  rw [Test.eval_fst, Test.eval_fst, ← hto]
  rcases htarget : t.target with f | c
  · exact Test.lookupTruth_negate (hto ▸ hop) _ _
  · -- a pattern compares a field only, so over arithmetic the operator is `==`
    have heq : t.op = .eq := by
      rcases hop with rfl | rfl
      · exact hto
      · obtain ⟨f, hf⟩ := Test.ofComparison_pattern_field rfl ht
        rw [hf] at htarget
        cases htarget
    obtain ⟨hw, hns⟩ := hnan c htarget
    exact Test.calcTruth_negate heq hw hns

/-- `A + 1 != 5` over the value `4` evaluates to the negation of `A + 1 == 5`. -/
theorem sum_negation_agrees :
    let ctx : Context := { fields := [(Bytes.ofString "A", [Value.ofBytes (Bytes.ofString "4")])] }
    let X : Expr := .arith .add (.field "A") (.lit (.int 1))
    let t : Test := { target := .calc (.op .add (.field (Bytes.ofString "A"))
      (.num (Binary64.ofDecimal false 1 0))), op := .eq, literal := .int 5 }
    Test.ofComparison .ne X (.lit (.int 5)) = .ok { t with op := .ne } ∧
      ((({ t with op := .ne } : Test).eval ⟨ctx, {}⟩).run {}).1 = ((t.eval ⟨ctx, {}⟩).run {}).1.not := by
  intro ctx X t
  refine negated_comparison_agrees (Or.inl rfl) (X := X) (L := .lit (.int 5)) rfl ⟨ctx, {}⟩ {} ?_
  intro c hc
  cases hc
  refine ⟨by decide +kernel, fun ns hns x hx => ?_⟩
  -- the one number is `4 + 1`
  have hsum : some ns = some [applyArith .add (Binary64.ofDecimal false 4 0) (Binary64.ofDecimal false 1 0)] := by
    rw [← hns]
    decide +kernel
  rw [Option.some.injEq] at hsum
  subst hsum
  rw [List.mem_singleton.1 hx]
  decide +kernel

/-- `A / 0 != 1` and `A / 0 == 1` over the value `4`: the quotient is not-a-number, which
`floatOrder` makes equal to `1` and IEEE-754 does not, so both comparisons are true. -/
theorem division_by_zero_negation_disagrees :
    let ctx : Context := { fields := [(Bytes.ofString "A", [Value.ofBytes (Bytes.ofString "4")])] }
    let X : Expr := .arith .div (.field "A") (.lit (.int 0))
    ∃ t, Test.ofComparison .eq X (.lit (.int 1)) = .ok t ∧
      Test.ofComparison .ne X (.lit (.int 1)) = .ok { t with op := .ne } ∧
      ((t.eval ⟨ctx, {}⟩).run {}).1 = .yes ∧
      ((({ t with op := .ne } : Test).eval ⟨ctx, {}⟩).run {}).1 = .yes := by
  intro ctx X
  exact ⟨_, rfl, rfl, by decide +kernel, by decide +kernel⟩

end EdgeQuery.Eval
