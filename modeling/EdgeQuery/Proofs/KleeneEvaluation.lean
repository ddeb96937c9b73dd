import EdgeQuery.Proofs.NullCheckEvaluation
import EdgeQuery.Proofs.DnfMeaning
/-! # Evaluation in Kleene's logic

Where no field is declared incomplete nothing is assumed: every field resolves to its
values in the context, so every leaf of a filter (a comparison, a call, a field, a literal,
arithmetic) evaluates to true, false or unknown (`Condition.leaf_ne_assumed`). The
evaluation of the whole filter is then its value in Kleene's strong three-valued logic
(`Expr.kleene`), each leaf taking the value it evaluates to (`Scope.leafValue`). Main
statement: `Condition.eval_kleene`, for every skeleton of junctions, negations and
parentheses over leaves, which is what normalization leaves of a filter.

A conjunction stops at its first false term and folds the others with `Truth.andStep`; on
values that are not assumed, from an accumulator that is not false, the fold is Kleene's
conjunction, and a disjunction is Kleene's disjunction likewise. `KleeneJunction` states
once what a junction needs of its fold, and `KleeneJunction.junction_kleene` runs a
junction over terms whose values are known. -/

namespace EdgeQuery.Query

theorem Expr.kleene_leaf (σ : Expr → Kleene) (slot : Kleene) {x : Expr}
    (hx : x.isConnective = false) : x.kleene σ slot = σ x := by
  cases x with
  | and _ | or _ | not _ | paren _ | hole => simp [Expr.isConnective] at hx
  | _ => rfl

theorem Expr.kleeneAnd_eq_foldr (σ : Expr → Kleene) (slot : Kleene) (ts : List Expr) :
    Expr.kleeneAnd σ slot ts = (ts.map (·.kleene σ slot)).foldr Kleene.and .yes := by
  induction ts with
  | nil => rfl
  | cons t ts ih => rw [Expr.kleeneAnd, ih]; rfl

theorem Expr.kleeneOr_eq_foldr (σ : Expr → Kleene) (slot : Kleene) (ts : List Expr) :
    Expr.kleeneOr σ slot ts = (ts.map (·.kleene σ slot)).foldr Kleene.or .no := by
  induction ts with
  | nil => rfl
  | cons t ts ih => rw [Expr.kleeneOr, ih]; rfl

end EdgeQuery.Query

namespace EdgeQuery.Eval

open Query

/-! ## Truth values as Kleene values -/

namespace Truth

/-- A Kleene value as a truth value. -/
def ofKleene : Kleene → Truth
  | .no => no
  | .unknown => unknown
  | .yes => yes

/-- A truth value as a Kleene value; assumed, which only an unresolved field gives, reads as
unknown. -/
def toKleene : Truth → Kleene
  | no => .no
  | yes => .yes
  | unknown | assumed => .unknown

@[simp] theorem toKleene_ofKleene (k : Kleene) : (ofKleene k).toKleene = k := by
  cases k <;> rfl

theorem ofKleene_toKleene {t : Truth} (ht : t ≠ assumed) : ofKleene t.toKleene = t := by
  cases t with
  | assumed => exact absurd rfl ht
  | unknown | no | yes => rfl

theorem ofKleene_injective : Function.Injective ofKleene := fun a b h => by
  rw [← toKleene_ofKleene a, h, toKleene_ofKleene]

@[simp] theorem not_ofKleene (k : Kleene) : (ofKleene k).not = ofKleene k.not := by
  cases k <;> rfl

@[simp] theorem holds_ofKleene (k : Kleene) : (ofKleene k).holds = true ↔ k = .yes := by
  cases k <;> decide

@[simp] theorem ofBool_ne_assumed (b : Bool) : ofBool b ≠ assumed := by
  cases b <;> decide

end Truth

/-- What a junction that stops at `stop` and folds the other values with `step` needs in
order to compute the Kleene operation `op`: `kstop` stands for `stop` and absorbs every
value, `kunit` is neutral, and on values other than `kstop` the fold is `op` and never
reaches `kstop`. -/
structure KleeneJunction (stop : Truth) (step : Truth → Truth → Truth)
    (op : Kleene → Kleene → Kleene) (kstop kunit : Kleene) : Prop where
  stop_eq : Truth.ofKleene kstop = stop
  step_eq : ∀ a k, a ≠ kstop → k ≠ kstop →
    step (Truth.ofKleene a) (Truth.ofKleene k) = Truth.ofKleene (op a k)
  op_ne : ∀ a k, a ≠ kstop → k ≠ kstop → op a k ≠ kstop
  op_stop : ∀ a, op a kstop = kstop
  stop_op : ∀ a, op kstop a = kstop
  op_unit : ∀ a, op a kunit = a
  assoc : ∀ a b c, op (op a b) c = op a (op b c)

/-- A conjunction is Kleene's conjunction: it stops at false, and true is neutral. -/
theorem Truth.andKleene : KleeneJunction .no Truth.andStep Kleene.and .no .yes where
  stop_eq := rfl
  step_eq a k := by cases a <;> cases k <;> decide
  op_ne a k := by cases a <;> cases k <;> decide
  op_stop a := by cases a <;> rfl
  stop_op _ := rfl
  op_unit := Kleene.and_yes
  assoc := Kleene.and_assoc

/-- A disjunction is Kleene's disjunction: it stops at true, and false is neutral. -/
theorem Truth.orKleene : KleeneJunction .yes Truth.orStep Kleene.or .yes .no where
  stop_eq := rfl
  step_eq a k := by cases a <;> cases k <;> decide
  op_ne a k := by cases a <;> cases k <;> decide
  op_stop a := by cases a <;> rfl
  stop_op _ := rfl
  op_unit := Kleene.or_no
  assoc := Kleene.or_assoc

/-- A compiled filter evaluates to the Kleene value `k` in scope `s`, from every trace. -/
def Yields (s : Scope) (c : Condition) (k : Kleene) : Prop :=
  ∀ t, ((c.eval s).run t).1 = Truth.ofKleene k

namespace KleeneJunction

variable {stop : Truth} {step : Truth → Truth → Truth} {op : Kleene → Kleene → Kleene}
  {kstop kunit : Kleene} (laws : KleeneJunction stop step op kstop kunit) {s : Scope}
include laws

/-- A junction over terms with known Kleene values, from an accumulator short of `kstop`,
gives the accumulator combined with the fold of the values. -/
theorem junction_kleene {cs : List Condition} {ks : List Kleene}
    (h : List.Forall₂ (Yields s) cs ks) :
    ∀ {a : Kleene}, a ≠ kstop → ∀ t,
      ((Condition.junction stop step s (Truth.ofKleene a) cs).run t).1 =
        Truth.ofKleene (op a (ks.foldr op kunit)) := by
  induction h with
  | nil =>
    intro a _ t
    rw [List.foldr_nil, laws.op_unit]
    rfl
  | @cons c k cs ks hck _ ih =>
    intro a ha t
    simp only [Condition.junction, run_bind, hck t, List.foldr_cons]
    by_cases hk : k = kstop
    · -- the term stops the junction, and `kstop` absorbs what the rest would add
      rw [hk, if_pos laws.stop_eq, laws.stop_op, laws.op_stop, laws.stop_eq]
      rfl
    · have hne : Truth.ofKleene k ≠ stop := fun heq =>
        hk (Truth.ofKleene_injective (heq.trans laws.stop_eq.symm))
      rw [if_neg hne, laws.step_eq a k ha hk, ih (laws.op_ne a k ha hk), laws.assoc]

end KleeneJunction

/-! ## Scopes without incomplete fields -/

/-- A scope in which no field is declared incomplete: every field resolves to its values in
the context, and nothing is assumed. -/
def Scope.Complete (s : Scope) : Prop := s.options.incomplete = []

namespace Scope

variable {s : Scope} (hs : s.Complete)
include hs

theorem missing_eq_false (field : Bytes) : s.missing field = false := by
  have hinc : s.options.incomplete = [] := hs
  simp [Scope.missing, hinc]

theorem resolve_run_of_complete (field : Bytes) (t : Trace) :
    (s.resolve field).run t = (.values (s.context.values field), t) := by
  rw [s.resolve_run, Scope.lookup, missing_eq_false hs, if_neg Bool.false_ne_true,
    if_neg Bool.false_ne_true]

/-- Every arithmetic expression takes some numbers: its fields all resolve. -/
theorem numbers_isSome (t : Trace) : (c : Calc) → ((s.numbers c).run t).1.isSome
  | .num _ => rfl
  | .field n => by
    simp only [Scope.numbers, run_bind, resolve_run_of_complete hs]
    rfl
  | .op o l r => by
    obtain ⟨xs, hxs⟩ := Option.isSome_iff_exists.1 (numbers_isSome t l)
    obtain ⟨ys, hys⟩ := Option.isSome_iff_exists.1 (numbers_isSome ((s.numbers l).run t).2 r)
    simp only [Scope.numbers, run_bind, hxs, hys]
    rfl

end Scope

/-- A comparison over the values of a field is never assumed. -/
theorem Test.fieldTruth_ne_assumed (tst : Test) (arith : Arithmetic) (vs : List Value) :
    tst.fieldTruth arith vs ≠ .assumed := by
  unfold Test.fieldTruth
  split
  · exact Truth.ofBool_ne_assumed _
  · exact Truth.ofBool_ne_assumed _
  · decide
  · -- a comparison with a literal: the pattern operators and `!=` give a plain truth value,
    -- the ordered ones false, true or unknown
    dsimp only
    split
    · exact Truth.ofBool_ne_assumed _
    · exact Truth.ofBool_ne_assumed _
    · exact Truth.ofBool_ne_assumed _
    · split_ifs <;> decide

theorem literalTruth_ne_assumed (v : Literal) : literalTruth v ≠ .assumed := by
  cases v with
  | null => decide
  | bool _ | int _ | float _ | str _ => exact Truth.ofBool_ne_assumed _

section Complete

variable {s : Scope} (hs : s.Complete)
include hs

theorem Test.eval_ne_assumed (tst : Test) (t : Trace) : ((tst.eval s).run t).1 ≠ .assumed := by
  unfold Test.eval
  match tst.target with
  | .calc c =>
    obtain ⟨ns, hns⟩ := Option.isSome_iff_exists.1 (s.numbers_isSome hs t c)
    simp only [Test.evalCalc, run_bind, hns]
    split
    · exact Truth.ofBool_ne_assumed _
    · exact Truth.ofBool_ne_assumed _
  | .field f =>
    rw [Test.evalField_fst, Scope.lookup, Scope.missing_eq_false hs, if_neg Bool.false_ne_true]
    exact tst.fieldTruth_ne_assumed _ _

theorem Builtin.evalIsNull_ne_assumed (t : Trace) :
    (fs : List Bytes) → ((Builtin.evalIsNull s fs).run t).1 ≠ .assumed
  | [] => by intro h; cases h
  | f :: fs => by
    simp only [Builtin.evalIsNull, run_bind, Scope.resolve_run_of_complete hs]
    cases s.context.values f with
    | nil => exact Builtin.evalIsNull_ne_assumed t fs
    | cons _ _ => intro h; cases h

theorem Builtin.evalIsNotNull_ne_assumed (t : Trace) :
    (fs : List Bytes) → ((Builtin.evalIsNotNull s fs).run t).1 ≠ .assumed
  | [] => by intro h; cases h
  | f :: fs => by
    simp only [Builtin.evalIsNotNull, run_bind, Scope.resolve_run_of_complete hs]
    cases s.context.values f with
    | nil => exact Builtin.evalIsNotNull_ne_assumed t fs
    | cons _ _ => intro h; cases h

/-- `filter:includeText` is assumed only after an unresolved field, which a complete scope
never has. -/
theorem Builtin.evalIncludeText_ne_assumed (text : Bytes) :
    (fs : List Bytes) → ∀ t, ((Builtin.evalIncludeText s text false fs).run t).1 ≠ .assumed
  | [] => fun _ h => by cases h
  | f :: fs => fun t => by
    simp only [Builtin.evalIncludeText, run_bind, Scope.resolve_run_of_complete hs]
    cases (s.context.values f).find? (·.text == text) with
    | some v => intro h; cases h
    | none => exact Builtin.evalIncludeText_ne_assumed text fs t

theorem Builtin.eval_ne_assumed (b : Builtin) (t : Trace) : ((b.eval s).run t).1 ≠ .assumed := by
  have hphrases : ∀ field hits, ((Builtin.evalPhrases s field hits).run t).1 ≠ .assumed := by
    intro field hits
    have hinc : s.options.incomplete.contains field = false := by
      have hnil : s.options.incomplete = [] := hs
      rw [hnil]
      rfl
    simp only [Builtin.evalPhrases, run_bind, Scope.frequencies_run, hinc, Bool.false_eq_true,
      if_false]
    cases s.context.frequencies? field with
    | some f => exact Truth.ofBool_ne_assumed _
    | none => intro h; cases h
  cases b with
  | isNull fs => exact Builtin.evalIsNull_ne_assumed hs t fs
  | isNotNull fs => exact Builtin.evalIsNotNull_ne_assumed hs t fs
  | includeText fs text => exact Builtin.evalIncludeText_ne_assumed hs text fs t
  | phrase field terms => exact hphrases field _
  | within field window terms => exact hphrases field _
  | option => intro h; cases h

/-- In a complete scope, a leaf of a filter that compiles is true, false or unknown. -/
theorem Condition.leaf_ne_assumed {x : Expr} (hx : x.isConnective = false) {c : Condition}
    (hc : Condition.ofExpr x = .ok c) (t : Trace) : ((c.eval s).run t).1 ≠ .assumed := by
  cases x with
  | field n =>
    cases hc
    simp only [Condition.eval, run_bind, Scope.resolve_run_of_complete hs]
    exact Truth.ofBool_ne_assumed _
  | lit v =>
    cases hc
    exact literalTruth_ne_assumed v
  | compare op l r =>
    obtain ⟨tst, -, rfl⟩ := except_map_eq_ok hc
    exact Test.eval_ne_assumed hs tst t
  | arith op l r =>
    obtain ⟨arith, -, rfl⟩ := except_map_eq_ok hc
    obtain ⟨ns, hns⟩ := Option.isSome_iff_exists.1 (s.numbers_isSome hs t arith)
    simp only [Condition.eval, run_bind, hns]
    exact Truth.ofBool_ne_assumed _
  | call ns name args =>
    simp only [Condition.ofExpr] at hc
    split at hc
    · cases hc
    · cases hc
    · cases hc
      exact Builtin.eval_ne_assumed hs _ t
  | and _ | or _ | not _ | paren _ | hole => simp [Expr.isConnective] at hx

end Complete

/-! ## Filters as Kleene formulas -/

/-- The Kleene value a leaf evaluates to in a scope, from the empty trace; a leaf that does
not compile is unknown. -/
def Scope.leafValue (s : Scope) (x : Expr) : Kleene :=
  match Condition.ofExpr x with
  | .ok c => ((c.eval s).run {}).1.toKleene
  | .error _ => .unknown

theorem Scope.leafValue_of_ok {s : Scope} {x : Expr} {c : Condition}
    (hc : Condition.ofExpr x = .ok c) : s.leafValue x = ((c.eval s).run {}).1.toKleene := by
  rw [Scope.leafValue, hc]

/-- A compiled leaf yields its value in a complete scope: evaluation does not read its trace,
and nothing is assumed. -/
theorem Condition.yields_leaf {s : Scope} (hs : s.Complete) {x : Expr} (hx : x.isConnective = false)
    {c : Condition} (hc : Condition.ofExpr x = .ok c) : Yields s c (s.leafValue x) := by
  intro t
  rw [(Condition.eval_appends s c t).1, Scope.leafValue_of_ok hc,
    Truth.ofKleene_toKleene (Condition.leaf_ne_assumed hs hx hc {})]

/-- Terms that each yield their Kleene value when they compile do so as a list. -/
theorem Condition.forall₂_of_ofExprs {s : Scope} {f : Expr → Kleene} :
    (ts : List Expr) → (∀ t ∈ ts, ∀ {c : Condition}, Condition.ofExpr t = .ok c → Yields s c (f t)) →
    ∀ {cs : List Condition}, Condition.ofExprs ts = .ok cs → List.Forall₂ (Yields s) cs (ts.map f)
  | [], _, cs, h => by
    cases h
    exact .nil
  | t :: ts, hts, cs, h => by
    obtain ⟨c, cs', hc, hcs', rfl⟩ := ofExprs_cons_ok h
    exact .cons (hts t (List.mem_cons_self ..) hc)
      (Condition.forall₂_of_ofExprs ts (fun u hu => hts u (List.mem_cons_of_mem _ hu)) hcs')

/-- In a complete scope, a skeleton of junctions, negations and parentheses over leaves
evaluates to its value in Kleene's logic, its leaves taking the values they evaluate to. -/
theorem Condition.eval_kleene {s : Scope} (hs : s.Complete) {P : Expr → Prop} {e : Expr}
    (h : e.Skeleton P) : ∀ {c : Condition}, Condition.ofExpr e = .ok c →
      ∀ slot, Yields s c (e.kleene s.leafValue slot) := by
  induction h with
  | leaf _ hx =>
    intro c hc slot
    rw [Expr.kleene_leaf _ _ hx]
    exact Condition.yields_leaf hs hx hc
  | @and ts _ _ ih =>
    intro c hc slot t
    obtain ⟨cs, hcs, rfl⟩ := except_map_eq_ok hc
    have hterms := Condition.forall₂_of_ofExprs ts (fun u hu _ hu' => ih u hu hu' slot) hcs
    rw [Expr.kleene, Expr.kleeneAnd_eq_foldr, Condition.eval, Condition.evalAnd_eq_junction,
      ← Kleene.yes_and ((ts.map _).foldr _ _)]
    exact Truth.andKleene.junction_kleene hterms (show Kleene.yes ≠ .no by decide) t
  | @or ts _ _ ih =>
    intro c hc slot t
    obtain ⟨cs, hcs, rfl⟩ := except_map_eq_ok hc
    have hterms := Condition.forall₂_of_ofExprs ts (fun u hu _ hu' => ih u hu hu' slot) hcs
    rw [Expr.kleene, Expr.kleeneOr_eq_foldr, Condition.eval, Condition.evalOr_eq_junction,
      ← Kleene.no_or ((ts.map _).foldr _ _)]
    exact Truth.orKleene.junction_kleene hterms (show Kleene.no ≠ .yes by decide) t
  | @not u _ ih =>
    intro c hc slot t
    obtain ⟨c', hc', rfl⟩ := except_map_eq_ok hc
    simp only [Condition.eval, run_map, ih hc' slot.not t, Truth.not_ofKleene, Expr.kleene]
  | paren _ ih =>
    intro c hc slot
    exact ih hc slot

end EdgeQuery.Eval
