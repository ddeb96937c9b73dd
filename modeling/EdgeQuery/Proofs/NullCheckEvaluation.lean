import EdgeQuery.Proofs.ResidualRoundTrip
import EdgeQuery.Proofs.PartialEvaluation
/-! # Normalizing a filter and its evaluation

Normalization (`Expr.normalize`) flattens a filter and replaces its null checks by
comparisons with `null`. Flattening keeps the whole evaluation (`flatten_compilesAlike`); the
null checks do not quite:

* `filter:isNull(A, B)` skips a field that cannot be resolved (declared incomplete, without
  values, and without values from the fallback) and is true when no field has a value, while
  `A == null && B == null` is *assumed* there;
* `filter:isNotNull(A, B)` stops at an unresolved field with *assumed*, while
  `!(A == null) || !(B == null)` goes on and may find a value in `B`.

Assumed and true both match, so the two forms part only under a negation, and only where a
null check meets an unresolved field: `!filter:isNull(A)` with `A` unresolved does not match,
while `!(A == null)` does. The main theorem, `evaluate_normalize_agrees`, says that this is all:
for every filter that compiles, its normal form compiles, every outcome has the same
completeness, and the outcomes match alike whenever no null check of the filter reads an
unresolved field.

The proof runs the two evaluations side by side (`Agrees`). Both record the same
completeness, and they give the same truth value until a null check meets an unresolved
field, which each side has then recorded as incomplete; from there on the truth values may
differ, but the completeness cannot, since evaluation only appends to its trace (`Appends`).
The null checks are compared with their comparisons field by field
(`isNull_agrees_conjunction`, `isNotNull_agrees_disjunction`); a call lists each field once,
its comparisons once per mention, and a repeated comparison changes nothing
(`junction_eraseDups`). The comparisons are then lifted through negations, parentheses and
junctions (`expands_expandNulls`), the splicing of a junction into its parent keeps the
evaluation (`JunctionLaws.splice_termsAlike`), and flattening keeps which null checks the
filter has (`Expr.checksUnresolved_flatten`). -/

namespace EdgeQuery.Eval

open Query

variable {α β : Type}

/-! ## Evaluation only appends to its trace -/

/-- A step that never reads its trace: from every trace it gives the result it gives from the
empty one, and appends to the incomplete fields what it records from the empty one. -/
def Appends (x : EvalM α) : Prop :=
  ∀ t, (x.run t).1 = (x.run {}).1 ∧
    (x.run t).2.partialFields = t.partialFields ++ (x.run {}).2.partialFields

namespace Appends

theorem pure (a : α) : Appends (Pure.pure a : EvalM α) :=
  fun _ => ⟨rfl, (List.append_nil _).symm⟩

theorem bind {x : EvalM α} {f : α → EvalM β} (hx : Appends x) (hf : ∀ a, Appends (f a)) :
    Appends (x >>= f) := by
  intro t
  rw [run_bind, run_bind, (hx t).1]
  obtain ⟨h1, h2⟩ := hf (x.run {}).1 (x.run t).2
  obtain ⟨h1', h2'⟩ := hf (x.run {}).1 (x.run {}).2
  refine ⟨h1.trans h1'.symm, ?_⟩
  rw [h2, h2', (hx t).2, List.append_assoc]

theorem map {x : EvalM α} (f : α → β) (hx : Appends x) : Appends (f <$> x) := by
  intro t
  rw [run_map, run_map]
  exact ⟨congrArg f (hx t).1, (hx t).2⟩

end Appends

section Primitives

variable (s : Scope)

theorem Scope.resolve_appends (field : Bytes) : Appends (s.resolve field) := by
  intro t
  rw [s.resolve_run, s.resolve_run]
  refine ⟨rfl, ?_⟩
  cases s.missing field <;> simp

theorem Scope.hit_appends (field : Bytes) (v : Value) : Appends (s.hit field v) := fun t =>
  ⟨rfl, by rw [s.hit_partialFields, s.hit_partialFields]; exact (List.append_nil _).symm⟩

theorem Scope.frequencies_appends (field : Bytes) : Appends (s.frequencies field) := by
  intro t
  rw [s.frequencies_run, s.frequencies_run]
  cases s.context.frequencies? field with
  | some f => exact ⟨rfl, (List.append_nil _).symm⟩
  | none => cases s.options.incomplete.contains field <;> exact ⟨rfl, by simp⟩

theorem Scope.numbers_appends : (c : Calc) → Appends (s.numbers c)
  | .num _ => Appends.pure _
  | .field n => by
    rw [Scope.numbers]
    exact (s.resolve_appends n).bind fun r => by cases r <;> exact Appends.pure _
  | .op _ l r => by
    rw [Scope.numbers]
    refine (Scope.numbers_appends l).bind fun a => (Scope.numbers_appends r).bind fun b => ?_
    cases a <;> cases b <;> exact Appends.pure _

theorem Test.evalField_appends (t : Test) (field : Bytes) : Appends (t.evalField s field) := by
  intro u
  obtain ⟨h1, h2⟩ := t.evalField_run s field u
  obtain ⟨h1', h2'⟩ := t.evalField_run s field {}
  refine ⟨h1.trans h1'.symm, ?_⟩
  rw [h2, h2']
  exact ((s.resolve_appends field) u).2

theorem Test.eval_appends (t : Test) : Appends (t.eval s) := by
  unfold Test.eval
  split
  · unfold Test.evalCalc
    exact (s.numbers_appends _).bind fun a => by
      cases a
      · exact Appends.pure _
      · dsimp only
        split <;> exact Appends.pure _
  · exact t.evalField_appends s _

theorem Builtin.evalIsNull_appends : (fs : List Bytes) → Appends (Builtin.evalIsNull s fs)
  | [] => Appends.pure _
  | f :: fs => by
    rw [Builtin.evalIsNull]
    refine (s.resolve_appends f).bind fun r => ?_
    cases r with
    | values vs =>
      cases vs with
      | nil => exact Builtin.evalIsNull_appends fs
      | cons _ _ => exact Appends.pure _
    | unresolved => exact Builtin.evalIsNull_appends fs

theorem Builtin.evalIsNotNull_appends : (fs : List Bytes) → Appends (Builtin.evalIsNotNull s fs)
  | [] => Appends.pure _
  | f :: fs => by
    rw [Builtin.evalIsNotNull]
    refine (s.resolve_appends f).bind fun r => ?_
    cases r with
    | values vs =>
      cases vs with
      | nil => exact Builtin.evalIsNotNull_appends fs
      | cons _ _ => exact Appends.pure _
    | unresolved => exact Appends.pure _

theorem Builtin.evalIncludeText_appends (text : Bytes) :
    (unresolved : Bool) → (fs : List Bytes) → Appends (Builtin.evalIncludeText s text unresolved fs)
  | _, [] => Appends.pure _
  | unresolved, f :: fs => by
    rw [Builtin.evalIncludeText]
    refine (s.resolve_appends f).bind fun r => ?_
    cases r with
    | values vs =>
      dsimp only
      cases vs.find? (·.text == text) with
      | some v => exact (s.hit_appends f v).bind fun _ => Appends.pure _
      | none => exact Builtin.evalIncludeText_appends text unresolved fs
    | unresolved => exact Builtin.evalIncludeText_appends text true fs

theorem Builtin.eval_appends (b : Builtin) : Appends (b.eval s) := by
  have hphrases : ∀ field hits, Appends (Builtin.evalPhrases s field hits) := by
    intro field hits
    unfold Builtin.evalPhrases
    refine (s.frequencies_appends field).bind fun a => ?_
    rcases a with _ | _ | f
    · exact Appends.pure _
    · exact Appends.pure _
    -- recording phrase positions leaves the incomplete fields alone
    · exact fun _ => ⟨rfl, (List.append_nil _).symm⟩
  cases b with
  | isNull fs => exact Builtin.evalIsNull_appends s fs
  | isNotNull fs => exact Builtin.evalIsNotNull_appends s fs
  | includeText fs text => exact Builtin.evalIncludeText_appends s text false fs
  | phrase field terms => exact hphrases field _
  | within field window terms => exact hphrases field _
  | option => exact Appends.pure _

mutual

/-- Evaluating a compiled filter never reads the trace and only appends to it. -/
theorem Condition.eval_appends : (c : Condition) → Appends (c.eval s)
  | .unknown => Appends.pure _
  | .const _ => Appends.pure _
  | .field n => by
    rw [Condition.eval]
    exact (s.resolve_appends n).bind fun r => by cases r <;> exact Appends.pure _
  | .calc c => by
    rw [Condition.eval]
    exact (s.numbers_appends c).bind fun a => by cases a <;> exact Appends.pure _
  | .test t => by
    rw [Condition.eval]
    exact t.eval_appends s
  | .builtin b => by
    rw [Condition.eval]
    exact b.eval_appends s
  | .not c => by
    rw [Condition.eval]
    exact (Condition.eval_appends c).map _
  | .and cs => by
    rw [Condition.eval]
    exact Condition.evalAnd_appends .yes cs
  | .or cs => by
    rw [Condition.eval]
    exact Condition.evalOr_appends .no cs

theorem Condition.evalAnd_appends (acc : Truth) : (cs : List Condition) →
    Appends (Condition.evalAnd s acc cs)
  | [] => Appends.pure _
  | c :: cs => by
    rw [Condition.evalAnd]
    refine (Condition.eval_appends c).bind fun a => ?_
    split
    · exact Appends.pure _
    · exact Condition.evalAnd_appends (acc.andStep a) cs

theorem Condition.evalOr_appends (acc : Truth) : (cs : List Condition) →
    Appends (Condition.evalOr s acc cs)
  | [] => Appends.pure _
  | c :: cs => by
    rw [Condition.evalOr]
    refine (Condition.eval_appends c).bind fun a => ?_
    split
    · exact Appends.pure _
    · exact Condition.evalOr_appends (acc.orStep a) cs

end

theorem Condition.junction_appends (stop : Truth) (step : Truth → Truth → Truth) (acc : Truth)
    (cs : List Condition) : Appends (Condition.junction stop step s acc cs) := by
  induction cs generalizing acc with
  | nil => exact Appends.pure _
  | cons c cs ih =>
    rw [Condition.junction]
    refine (c.eval_appends s).bind fun a => ?_
    split
    · exact Appends.pure _
    · exact ih _

end Primitives

/-! ## Evaluations that agree until a null check meets an unresolved field -/

/-- Two traces with the same completeness: both or neither recorded an incomplete field. -/
def SameState (t u : Trace) : Prop := t.partialFields = [] ↔ u.partialFields = []

/-- Both traces recorded an incomplete field. -/
def BothPartial (t u : Trace) : Prop := t.partialFields ≠ [] ∧ u.partialFields ≠ []

/-- Two results agree up to `D`: the same completeness, and the same truth value unless `D`
holds and both recorded an incomplete field. -/
def RunsAgree (D : Prop) (r r' : Truth × Trace) : Prop :=
  SameState r.2 r'.2 ∧ (r.1 = r'.1 ∨ D ∧ BothPartial r.2 r'.2)

/-- Two evaluations agree up to `D` when run from any two traces of the same completeness. -/
def Agrees (D : Prop) (x y : EvalM Truth) : Prop :=
  ∀ t u, SameState t u → RunsAgree D (x.run t) (y.run u)

theorem SameState.refl (t : Trace) : SameState t t := Iff.rfl

/-- Appending the same fields to both traces keeps their completeness alike. -/
theorem SameState.append {t u t' u' : Trace} (h : SameState t u) (l : List Bytes)
    (ht : t'.partialFields = t.partialFields ++ l) (hu : u'.partialFields = u.partialFields ++ l) :
    SameState t' u' := by
  unfold SameState at h ⊢
  rw [ht, hu, List.append_eq_nil_iff, List.append_eq_nil_iff, h]

theorem BothPartial.sameState {t u : Trace} (h : BothPartial t u) : SameState t u :=
  ⟨fun ht => absurd ht h.1, fun hu => absurd hu h.2⟩

/-- Once both traces are partial, any further steps leave them partial. -/
theorem BothPartial.appends {t u : Trace} (h : BothPartial t u) {x y : EvalM α}
    (hx : Appends x) (hy : Appends y) : BothPartial (x.run t).2 (y.run u).2 := by
  rw [BothPartial, (hx t).2, (hy u).2]
  exact ⟨fun he => h.1 (List.append_eq_nil_iff.1 he).1, fun he => h.2 (List.append_eq_nil_iff.1 he).1⟩

namespace RunsAgree

variable {D D' : Prop} {r r' r'' : Truth × Trace}

theorem of_bothPartial (hD : D) (h : BothPartial r.2 r'.2) : RunsAgree D r r' :=
  ⟨h.sameState, .inr ⟨hD, h⟩⟩

theorem symm (h : RunsAgree D r r') : RunsAgree D r' r :=
  ⟨h.1.symm, h.2.imp Eq.symm fun ⟨hD, h1, h2⟩ => ⟨hD, h2, h1⟩⟩

/-- Agreement chains; a divergence of either step is a divergence of the chain, and both
ends are partial there, since each step keeps the completeness. -/
theorem trans (h : RunsAgree D r r') (h' : RunsAgree D' r' r'') : RunsAgree (D ∨ D') r r'' := by
  refine ⟨h.1.trans h'.1, ?_⟩
  rcases h.2 with heq | ⟨hD, h1, h2⟩
  · rcases h'.2 with heq' | ⟨hD', h1', h2'⟩
    · exact .inl (heq.trans heq')
    · exact .inr ⟨.inr hD', fun he => h1' (h.1.1 he), h2'⟩
  · exact .inr ⟨.inl hD, h1, fun he => h2 (h'.1.2 he)⟩

theorem mono (h : RunsAgree D r r') (hD : D → D') : RunsAgree D' r r' :=
  ⟨h.1, h.2.imp_right fun ⟨hd, hb⟩ => ⟨hD hd, hb⟩⟩

end RunsAgree

namespace Agrees

variable {D D' : Prop} {x y z : EvalM Truth}

theorem refl (hx : Appends x) : Agrees D x x := fun t u htu =>
  ⟨htu.append _ (hx t).2 (hx u).2, .inl ((hx t).1.trans (hx u).1.symm)⟩

theorem symm (h : Agrees D x y) : Agrees D y x := fun t u htu => (h u t htu.symm).symm

theorem trans (h : Agrees D x y) (h' : Agrees D' y z) : Agrees (D ∨ D') x z := fun t u htu =>
  (h t u htu).trans (h' u u (SameState.refl u))

theorem mono (h : Agrees D x y) (hD : D → D') : Agrees D' x y := fun t u htu =>
  (h t u htu).mono hD

/-- Negation keeps agreement: it maps equal truth values to equal ones. -/
theorem not (h : Agrees D x y) : Agrees D (Truth.not <$> x) (Truth.not <$> y) := by
  intro t u htu
  rw [run_map, run_map]
  obtain ⟨hs, hr⟩ := h t u htu
  exact ⟨hs, hr.imp (congrArg Truth.not) id⟩

/-- Junctions of terms that agree in turn agree. A divergence of one term may send the two
junctions on different ways, but both have recorded an incomplete field by then. -/
theorem junction {stop : Truth} {step : Truth → Truth → Truth} {s : Scope}
    {cs ds : List Condition} (h : List.Forall₂ (fun c d => Agrees D (c.eval s) (d.eval s)) cs ds)
    (acc : Truth) :
    Agrees D (Condition.junction stop step s acc cs) (Condition.junction stop step s acc ds) := by
  induction h generalizing acc with
  | nil => exact refl (Appends.pure acc)
  | @cons c d cs ds hcd _ ih =>
    have hnext : ∀ (es : List Condition) (a : Truth),
        Appends (if a = stop then Pure.pure stop else Condition.junction stop step s (step acc a) es) := by
      intro es a
      split
      · exact Appends.pure _
      · exact Condition.junction_appends s stop step _ es
    intro t u htu
    rw [Condition.junction, Condition.junction, run_bind, run_bind]
    obtain ⟨hs, heq | ⟨hD, hboth⟩⟩ := hcd t u htu
    · rw [heq]
      split
      · exact ⟨hs, .inl rfl⟩
      · exact ih _ _ _ hs
    · exact .of_bothPartial hD (hboth.appends (hnext cs _) (hnext ds _))

end Agrees

/-! ## Null checks against their comparisons -/

/-- Whether a field cannot be resolved: it is declared incomplete, the context has no value
for it, and the fallback supplies none. -/
def Scope.unresolved (s : Scope) (field : Bytes) : Bool :=
  s.missing field && (s.options.fallback.bind (· field)).isNone

theorem Scope.lookup_eq_unresolved (s : Scope) (field : Bytes) :
    s.lookup field = .unresolved ↔ s.unresolved field = true := by
  unfold Scope.lookup Scope.unresolved
  cases s.missing field <;> cases s.options.fallback.bind (· field) <;> simp

theorem Scope.missing_of_unresolved {s : Scope} {field : Bytes} (h : s.unresolved field = true) :
    s.missing field = true := by
  unfold Scope.unresolved at h
  exact (Bool.and_eq_true_iff.1 h).1

theorem Scope.resolve_partialFields (s : Scope) (field : Bytes) (t : Trace) :
    ((s.resolve field).run t).2.partialFields =
      t.partialFields ++ (if s.missing field then [field] else []) := by
  rw [s.resolve_run]
  cases s.missing field <;> simp

/-- A field that is recorded leaves the trace partial. -/
theorem partialFields_ne_nil_of_missing {s : Scope} {field : Bytes} {t t' : Trace}
    (h : t'.partialFields = t.partialFields ++ (if s.missing field then [field] else []))
    (hm : s.missing field = true) : t'.partialFields ≠ [] := by
  rw [h, hm, if_pos rfl]
  exact List.append_ne_nil_of_right_ne_nil _ (List.cons_ne_nil _ _)

/-- `name == null`, compiled. -/
def nullTest (name : String) : Condition :=
  .test { target := .field (Bytes.ofString name), op := .eq, literal := .null }

/-- What `name == null` makes of what resolving the field found. -/
def nullTruth : Resolution → Truth
  | .unresolved => .assumed
  | .values vs => .ofBool vs.isEmpty

theorem nullTest_run (s : Scope) (name : String) (t : Trace) :
    (((nullTest name).eval s).run t).1 = nullTruth (s.lookup (Bytes.ofString name)) ∧
      (((nullTest name).eval s).run t).2.partialFields = t.partialFields ++
        (if s.missing (Bytes.ofString name) then [Bytes.ofString name] else []) := by
  have h := Test.evalField_run
    { target := .field (Bytes.ofString name), op := .eq, literal := .null } s (Bytes.ofString name) t
  refine ⟨h.1.trans ?_, h.2.trans (s.resolve_partialFields _ t)⟩
  cases s.lookup (Bytes.ofString name) <;> rfl

section Walks

variable (s : Scope)

/-- One field of a walk: resolving it for a null check and comparing it with `null` record
it alike, and leave both sides partial when it cannot be resolved. -/
theorem resolve_nullTest_step (n : String) {t u : Trace} (htu : SameState t u) :
    SameState ((s.resolve (Bytes.ofString n)).run t).2 (((nullTest n).eval s).run u).2 ∧
      (s.unresolved (Bytes.ofString n) = true →
        BothPartial ((s.resolve (Bytes.ofString n)).run t).2 (((nullTest n).eval s).run u).2) := by
  have hp := s.resolve_partialFields (Bytes.ofString n) t
  have hq := (nullTest_run s n u).2
  refine ⟨htu.append _ hp hq, fun hu => ?_⟩
  have hm := Scope.missing_of_unresolved hu
  exact ⟨partialFields_ne_nil_of_missing hp hm, partialFields_ne_nil_of_missing hq hm⟩

/-- `filter:isNull` over some fields against the conjunction of their comparisons with
`null`: the same truth value, unless a field is unresolved, which the check skips and the
comparison assumes. -/
theorem isNull_agrees_conjunction {D : Prop} : (L : List String) →
    (∀ n ∈ L, s.unresolved (Bytes.ofString n) = true → D) →
    Agrees D (Builtin.evalIsNull s (L.map Bytes.ofString))
      (Condition.junction .no Truth.andStep s .yes (L.map nullTest))
  | [], _ => Agrees.refl (Appends.pure _)
  | n :: L, hD => by
    intro t u htu
    obtain ⟨hs, hb⟩ := resolve_nullTest_step s n htu
    have hl : ((s.resolve (Bytes.ofString n)).run t).1 = s.lookup (Bytes.ofString n) := by
      rw [s.resolve_run]
    rw [List.map_cons, List.map_cons, Builtin.evalIsNull, Condition.junction, run_bind, run_bind,
      hl, (nullTest_run s n u).1]
    cases hlk : s.lookup (Bytes.ofString n) with
    | values vs =>
      cases vs with
      | nil =>
        exact isNull_agrees_conjunction L (fun m hm => hD m (List.mem_cons_of_mem _ hm)) _ _ hs
      | cons v vs => exact ⟨hs, .inl rfl⟩
    | unresolved =>
      -- the check goes on past the field, the conjunction is assumed from here
      have hu := (s.lookup_eq_unresolved _).1 hlk
      exact .of_bothPartial (hD n List.mem_cons_self hu)
        ((hb hu).appends (Builtin.evalIsNull_appends s _) (Condition.junction_appends s _ _ _ _))

/-- `filter:isNotNull` over some fields against the disjunction of their negated comparisons
with `null`: the same truth value, unless a field is unresolved, where the check stops with
assumed and the disjunction goes on. -/
theorem isNotNull_agrees_disjunction {D : Prop} : (L : List String) →
    (∀ n ∈ L, s.unresolved (Bytes.ofString n) = true → D) →
    Agrees D (Builtin.evalIsNotNull s (L.map Bytes.ofString))
      (Condition.junction .yes Truth.orStep s .no (L.map fun n => .not (nullTest n)))
  | [], _ => Agrees.refl (Appends.pure _)
  | n :: L, hD => by
    intro t u htu
    obtain ⟨hs, hb⟩ := resolve_nullTest_step s n htu
    have hl : ((s.resolve (Bytes.ofString n)).run t).1 = s.lookup (Bytes.ofString n) := by
      rw [s.resolve_run]
    rw [List.map_cons, List.map_cons, Builtin.evalIsNotNull, Condition.junction, run_bind,
      run_bind, hl, Condition.eval, run_map, (nullTest_run s n u).1]
    cases hlk : s.lookup (Bytes.ofString n) with
    | values vs =>
      cases vs with
      | nil =>
        exact isNotNull_agrees_disjunction L (fun m hm => hD m (List.mem_cons_of_mem _ hm)) _ _ hs
      | cons v vs => exact ⟨hs, .inl rfl⟩
    | unresolved =>
      -- the check stops with assumed, the disjunction goes on
      have hu := (s.lookup_eq_unresolved _).1 hlk
      exact .of_bothPartial (hD n List.mem_cons_self hu)
        ((hb hu).appends (Appends.pure _) (Condition.junction_appends s _ _ _ _))

/-! ### Fields mentioned more than once

A call lists each of its fields once, while the expansion writes a comparison for every
mention. A repeated comparison gives the value the first one gave, which the junction has
taken in already, and records its field only where the first one recorded it. -/

section Repeats

variable {stop : Truth} {step : Truth → Truth → Truth} {term : String → Condition}
  {τ : String → Truth}
  (hterm : ∀ n t, (((term n).eval s).run t).1 = τ n ∧
    (((term n).eval s).run t).2.partialFields = t.partialFields ++
      (if s.missing (Bytes.ofString n) then [Bytes.ofString n] else []))
include hterm

/-- Leaving out the later mentions of a field `n` whose value the accumulator has taken in
changes neither the truth value nor the completeness. -/
theorem junction_filter_repeats
    (habsorb : ∀ a x y, x ≠ stop → y ≠ stop → step a y = a → step (step a x) y = step a x)
    (n : String) (hn : τ n ≠ stop) : (L : List String) → ∀ (acc : Truth) (t u : Trace),
      SameState t u → step acc (τ n) = acc →
      (s.missing (Bytes.ofString n) = true → BothPartial t u) →
      RunsAgree False
        ((Condition.junction stop step s acc ((L.filter fun m => !m == n).map term)).run t)
        ((Condition.junction stop step s acc (L.map term)).run u)
  | [], acc, t, u, htu, _, _ => ⟨htu, .inl rfl⟩
  | m :: L, acc, t, u, htu, hacc, hmiss => by
    by_cases hmn : m = n
    · -- a later mention: the right side evaluates it and goes on as before
      subst hmn
      obtain ⟨h1, h2⟩ := hterm m u
      rw [List.filter_cons_of_neg (by simp), List.map_cons, Condition.junction,
        run_bind, h1, if_neg hn, hacc]
      have hb : s.missing (Bytes.ofString m) = true → BothPartial t (((term m).eval s).run u).2 :=
        fun hm => ⟨(hmiss hm).1, partialFields_ne_nil_of_missing h2 hm⟩
      refine junction_filter_repeats habsorb m hn L acc t _ ?_ hacc hb
      cases hm : s.missing (Bytes.ofString m)
      · rw [hm, if_neg (by simp)] at h2
        exact htu.append [] (List.append_nil _).symm h2
      · exact (hb hm).sameState
    · obtain ⟨h1, h2⟩ := hterm m t
      obtain ⟨h1', h2'⟩ := hterm m u
      have hs := htu.append _ h2 h2'
      rw [List.filter_cons_of_pos (by simpa using hmn), List.map_cons, List.map_cons,
        Condition.junction, Condition.junction, run_bind, run_bind, h1, h1']
      by_cases hstop : τ m = stop
      · rw [if_pos hstop, if_pos hstop]
        exact ⟨hs, .inl rfl⟩
      · rw [if_neg hstop, if_neg hstop]
        refine junction_filter_repeats habsorb n hn L _ _ _ hs (habsorb _ _ _ hstop hn hacc)
          fun hm => ?_
        have hb := hmiss hm
        rw [BothPartial, h2, h2']
        exact ⟨fun he => hb.1 (List.append_eq_nil_iff.1 he).1,
          fun he => hb.2 (List.append_eq_nil_iff.1 he).1⟩

/-- A junction over the mentions of some fields evaluates as the junction over the fields,
each once. -/
theorem junction_eraseDups (hidem : ∀ a x, x ≠ stop → step (step a x) x = step a x)
    (habsorb : ∀ a x y, x ≠ stop → y ≠ stop → step a y = a → step (step a x) y = step a x)
    (L : List String) (acc : Truth) :
    Agrees False (Condition.junction stop step s acc (L.eraseDups.map term))
      (Condition.junction stop step s acc (L.map term)) := by
  -- on the length: the first field is kept, and its later mentions are left out
  induction hk : L.length using Nat.strong_induction_on generalizing L acc with
  | _ k ih =>
    intro t u htu
    cases L with
    | nil => exact ⟨htu, .inl rfl⟩
    | cons n L =>
      obtain ⟨h1, h2⟩ := hterm n t
      obtain ⟨h1', h2'⟩ := hterm n u
      have hs := htu.append _ h2 h2'
      rw [List.eraseDups_cons, List.map_cons, List.map_cons, Condition.junction,
        Condition.junction, run_bind, run_bind, h1, h1']
      by_cases hstop : τ n = stop
      · rw [if_pos hstop, if_pos hstop]
        exact ⟨hs, .inl rfl⟩
      rw [if_neg hstop, if_neg hstop]
      have hshorter : (L.filter fun b => !b == n).length < k := by
        have := List.length_filter_le (fun b => !b == n) L
        simp only [List.length_cons] at hk
        omega
      have hfirst := ih _ hshorter _ (step acc (τ n)) rfl _ _ hs
      have hrest := junction_filter_repeats s hterm habsorb n hstop L (step acc (τ n)) _ _
        (SameState.refl _) (hidem _ _ hstop)
        fun hm => ⟨partialFields_ne_nil_of_missing h2' hm, partialFields_ne_nil_of_missing h2' hm⟩
      exact (hfirst.trans hrest).mono fun h => h.elim id id

end Repeats

/-- A conjunction that takes in a value again is unchanged. -/
theorem Truth.andStep_idem (a x : Truth) : (a.andStep x).andStep x = a.andStep x := by
  cases a <;> cases x <;> rfl

theorem Truth.orStep_idem (a x : Truth) : (a.orStep x).orStep x = a.orStep x := by
  cases a <;> cases x <;> rfl

/-- A value a conjunction has taken in stays taken in after further terms that are not
false. -/
theorem Truth.andStep_absorb (a x y : Truth) (hx : x ≠ .no) (h : a.andStep y = a) :
    (a.andStep x).andStep y = a.andStep x := by
  cases a <;> cases x <;> cases y <;> simp_all [Truth.andStep]

theorem Truth.orStep_absorb (a x y : Truth) (hx : x ≠ .yes) (h : a.orStep y = a) :
    (a.orStep x).orStep y = a.orStep x := by
  cases a <;> cases x <;> cases y <;> simp_all [Truth.orStep]

/-- `filter:isNull` of some fields, each listed once, against the conjunction of the
comparisons of every mention. -/
theorem isNull_agrees (names : List String) :
    Agrees (∃ n ∈ names, s.unresolved (Bytes.ofString n) = true)
      (Condition.junction .no Truth.andStep s .yes (names.map nullTest))
      (Builtin.evalIsNull s (names.eraseDups.map Bytes.ofString)) := by
  have hrepeats := junction_eraseDups s (nullTest_run s) (fun a x _ => Truth.andStep_idem a x)
    (fun a x y hx _ h => Truth.andStep_absorb a x y hx h) names .yes
  have hwalk := isNull_agrees_conjunction (D := ∃ n ∈ names, s.unresolved (Bytes.ofString n) = true)
    s names.eraseDups fun n hn hu => ⟨n, List.mem_eraseDups.1 hn, hu⟩
  exact (hrepeats.symm.trans hwalk.symm).mono fun h => h.elim False.elim id

/-- `filter:isNotNull` of some fields, each listed once, against the disjunction of the
negated comparisons of every mention. -/
theorem isNotNull_agrees (names : List String) :
    Agrees (∃ n ∈ names, s.unresolved (Bytes.ofString n) = true)
      (Condition.junction .yes Truth.orStep s .no (names.map fun n => .not (nullTest n)))
      (Builtin.evalIsNotNull s (names.eraseDups.map Bytes.ofString)) := by
  have hterm : ∀ n t, ((((Condition.not (nullTest n)).eval s).run t).1 =
      (nullTruth (s.lookup (Bytes.ofString n))).not ∧
      (((Condition.not (nullTest n)).eval s).run t).2.partialFields = t.partialFields ++
        (if s.missing (Bytes.ofString n) then [Bytes.ofString n] else [])) := by
    intro n t
    rw [Condition.eval, run_map]
    exact ⟨congrArg Truth.not (nullTest_run s n t).1, (nullTest_run s n t).2⟩
  have hrepeats := junction_eraseDups s hterm (fun a x _ => Truth.orStep_idem a x)
    (fun a x y hx _ h => Truth.orStep_absorb a x y hx h) names .no
  have hwalk := isNotNull_agrees_disjunction
    (D := ∃ n ∈ names, s.unresolved (Bytes.ofString n) = true)
    s names.eraseDups fun n hn hu => ⟨n, List.mem_eraseDups.1 hn, hu⟩
  exact (hrepeats.symm.trans hwalk.symm).mono fun h => h.elim False.elim id

end Walks

/-- The fields a null check lists are its mentions, each once, in order of first mention. -/
theorem distinctNames_eq_eraseDups (names : List String) : distinctNames names = names.eraseDups := by
  have hfold : ∀ (L acc : List String),
      L.foldl (fun acc n => if acc.contains n then acc else acc ++ [n]) acc =
        acc ++ (L.removeAll acc).eraseDups := by
    intro L
    induction L with
    | nil => simp
    | cons x L ih =>
      intro acc
      rw [List.foldl_cons]
      by_cases hx : acc.contains x = true
      · have hmem : x ∈ acc := by simpa using hx
        rw [if_pos hx, ih]
        simp [List.removeAll, hmem]
      · rw [if_neg hx, ih, List.append_assoc]
        simp only [List.removeAll, List.filter_cons, List.elem_eq_contains, hx, Bool.not_false,
          if_true, List.eraseDups_cons, List.filter_filter, List.singleton_append,
          List.contains_append, List.contains_cons, List.contains_nil, Bool.or_false,
          Bool.not_or, Bool.and_comm]
  rw [distinctNames, hfold, List.nil_append]
  simp [List.removeAll]

end EdgeQuery.Eval

/-! ## Null checks that name an unresolved field -/

namespace EdgeQuery.Query.Expr

mutual

/-- Whether a null check in the boolean skeleton of a filter names a field that the scope
cannot resolve. -/
def checksUnresolved (s : Eval.Scope) : Expr → Bool
  | call ns name args =>
    (nullCheck? ns name).isSome && (fieldsAll args).any fun n => s.unresolved (Bytes.ofString n)
  | not t => checksUnresolved s t
  | paren t => checksUnresolved s t
  | and ts => checksUnresolvedAll s ts
  | or ts => checksUnresolvedAll s ts
  | _ => false

/-- Whether a null check in the skeleton of one of the terms names an unresolved field. -/
def checksUnresolvedAll (s : Eval.Scope) : List Expr → Bool
  | [] => false
  | t :: ts => checksUnresolved s t || checksUnresolvedAll s ts

end

section Checks

variable (s : Eval.Scope)

theorem checksUnresolvedAll_append (A B : List Expr) :
    checksUnresolvedAll s (A ++ B) = (checksUnresolvedAll s A || checksUnresolvedAll s B) := by
  induction A with
  | nil => simp [checksUnresolvedAll]
  | cons t A ih => simp [checksUnresolvedAll, ih, Bool.or_assoc]

theorem checksUnresolvedAll_andPieces (x : Expr) :
    checksUnresolvedAll s x.andPieces = x.checksUnresolved s := by
  cases x <;> simp [andPieces, checksUnresolved, checksUnresolvedAll]

theorem checksUnresolvedAll_orPieces (x : Expr) :
    checksUnresolvedAll s x.orPieces = x.checksUnresolved s := by
  cases x <;> simp [orPieces, checksUnresolved, checksUnresolvedAll]

theorem checksUnresolved_junction {mk : List Expr → Expr}
    (hmk : ∀ L, (mk L).checksUnresolved s = checksUnresolvedAll s L) (L : List Expr) :
    (junction mk L).checksUnresolved s = checksUnresolvedAll s L := by
  match L with
  | [u] => simp [junction, checksUnresolvedAll]
  | [] => exact hmk []
  | _ :: _ :: _ => exact hmk _

mutual

/-- Flattening keeps which null checks a filter has: it moves and regroups the terms of its
skeleton, and no call changes. -/
theorem checksUnresolved_flatten : (e : Expr) → e.flatten.checksUnresolved s = e.checksUnresolved s
  | .paren t => by
    by_cases ht : t = .hole
    · subst ht
      rfl
    · rw [flatten_paren ht, checksUnresolved_flatten t]
      rfl
  | .not t => by
    by_cases ht : t = .hole
    · subst ht
      rfl
    · rw [flatten_not ht]
      exact checksUnresolved_flatten t
  | .and ts => by
    rw [flatten, checksUnresolved_junction s fun _ => rfl, checksUnresolvedAll_flattenAnd ts]
    rfl
  | .or ts => by
    rw [flatten, checksUnresolved_junction s fun _ => rfl, checksUnresolvedAll_flattenOr ts]
    rfl
  | .field _ | .lit _ | .compare .. | .arith .. | .call .. | .hole => rfl

theorem checksUnresolvedAll_flattenAnd : (ts : List Expr) →
    checksUnresolvedAll s (flattenAnd ts) = checksUnresolvedAll s ts
  | [] => rfl
  | t :: ts => by
    rw [flattenAnd, checksUnresolvedAll_append, checksUnresolvedAll_andPieces,
      checksUnresolved_flatten t, checksUnresolvedAll_flattenAnd ts]
    rfl

theorem checksUnresolvedAll_flattenOr : (ts : List Expr) →
    checksUnresolvedAll s (flattenOr ts) = checksUnresolvedAll s ts
  | [] => rfl
  | t :: ts => by
    rw [flattenOr, checksUnresolvedAll_append, checksUnresolvedAll_orPieces,
      checksUnresolved_flatten t, checksUnresolvedAll_flattenOr ts]
    rfl

end

end Checks

end EdgeQuery.Query.Expr

namespace EdgeQuery.Eval

open Query

/-! ## Splicing a junction into its parent -/

/-- Compilation looks through parentheses. -/
theorem Condition.ofExpr_deref : (e : Expr) → Condition.ofExpr e.deref = Condition.ofExpr e
  | .paren t => by
    match t with
    | .hole => rfl
    | .paren u =>
      rw [Expr.deref]
      exact Condition.ofExpr_deref (.paren u)
    | .field _ | .lit _ | .compare .. | .arith .. | .and _ | .or _ | .not _ | .call .. => rfl
  | .field _ | .lit _ | .compare .. | .arith .. | .and _ | .or _ | .not _ | .call .. | .hole => rfl

namespace JunctionLaws

variable {stop unit : Truth} {step : Truth → Truth → Truth} (laws : JunctionLaws stop unit step)
  {cmk : List Condition → Condition}
  (heval : ∀ s cs, (cmk cs).eval s = Condition.junction stop step s unit cs)
  {pieces : Expr → List Expr}
  (hpieces : ∀ e, Condition.ofExprs (pieces e) = (fun c => [c]) <$> Condition.ofExpr e ∨
    Condition.ofExpr e = cmk <$> Condition.ofExprs (pieces e))
include laws heval hpieces

/-- Taking into a junction the terms of the junctions of its kind among its terms, looked at
through their parentheses, keeps its evaluation. -/
theorem splice_termsAlike : (L : List Expr) →
    TermsAlike stop step (Condition.ofExprs (L.flatMap fun t => pieces t.deref))
      (Condition.ofExprs L)
  | [] => TermsAlike.refl _
  | t :: L => by
    rw [List.flatMap_cons]
    exact laws.termsAlike_cons heval (hpieces t.deref)
      (by rw [Condition.ofExpr_deref]; exact CompilesAlike.refl _) (splice_termsAlike L)

/-- The kept terms of a junction, spliced when one of them spread, evaluate as the kept
terms do. -/
theorem spliced_termsAlike {rs : List (Expr × Bool)} {cs' : List Condition}
    (hof : Condition.ofExprs (rs.map Prod.fst) = .ok cs') :
    TermsAlike stop step (Condition.ofExprs (if rs.any Prod.snd = true then
      (rs.map Prod.fst).flatMap (fun t => pieces t.deref) else rs.map Prod.fst)) (.ok cs') := by
  split
  · rw [← hof]
    exact laws.splice_termsAlike heval hpieces _
  · rw [hof]
    exact TermsAlike.refl _

end JunctionLaws

/-! ## The expansion, node by node -/

/-- What the expansion of the null checks makes of a filter `x` that compiles to `c`: a kept
tree that compiles to a filter agreeing with `c` in every scope, up to the null checks of `x`
that name an unresolved field; a tree flagged for splicing gives its parent some terms. -/
def Expands (x : Expr) (c : Condition) : Expansion → Prop
  | .removed => False
  | .kept y spread => (spread = true → y.deref.andPieces ≠ [] ∧ y.deref.orPieces ≠ []) ∧
      ∃ c', Condition.ofExpr y = .ok c' ∧
        ∀ s, Agrees (x.checksUnresolved s = true) (c'.eval s) (c.eval s)

/-- A junction that took in terms of a spread term still has terms. -/
theorem spliced_ne_nil {pieces : Expr → List Expr} {rs : List (Expr × Bool)}
    (hspread : ∀ r ∈ rs, r.2 = true → pieces r.1.deref ≠ []) (hrs : rs ≠ []) :
    (if rs.any Prod.snd = true then (rs.map Prod.fst).flatMap (fun t => pieces t.deref)
      else rs.map Prod.fst) ≠ [] := by
  split
  · rename_i hany
    obtain ⟨r, hr, hsnd⟩ := List.any_eq_true.1 hany
    intro hnil
    rw [List.flatMap_eq_nil_iff] at hnil
    exact hspread r hr hsnd (hnil r.1 (List.mem_map_of_mem hr))
  · simpa using hrs

theorem Expands.unchanged {x : Expr} {c : Condition} (hc : Condition.ofExpr x = .ok c) :
    Expands x c (.kept x false) :=
  ⟨fun h => absurd h Bool.false_ne_true, c, hc, fun s => Agrees.refl (c.eval_appends s)⟩

theorem except_map_eq_ok {ε : Type} {f : α → β} {x : Except ε α} {b : β}
    (h : f <$> x = .ok b) : ∃ a, x = .ok a ∧ b = f a := by
  cases x with
  | error e => cases h
  | ok a => exact ⟨a, rfl, (Except.ok.inj h).symm⟩

theorem ofExprs_map_isNullOf (names : List String) :
    Condition.ofExprs (names.map Expr.isNullOf) = .ok (names.map nullTest) := by
  induction names with
  | nil => rfl
  | cons n names ih =>
    rw [List.map_cons, Condition.ofExprs, ih]
    rfl

theorem ofExprs_map_not_isNullOf (names : List String) :
    Condition.ofExprs (names.map fun n => Expr.not (Expr.isNullOf n)) =
      .ok (names.map fun n => .not (nullTest n)) := by
  induction names with
  | nil => rfl
  | cons n names ih =>
    rw [List.map_cons, Condition.ofExprs, ih]
    rfl

/-- A null check that compiles names some field, and compiles to the built-in over its
fields, each once. -/
theorem ofExpr_nullCheck {ns name : String} {args : List Expr} {present : Bool} {c : Condition}
    (hn : Expr.nullCheck? ns name = some present)
    (hc : Condition.ofExpr (.call ns name args) = .ok c) :
    Expr.fieldsAll args ≠ [] ∧
      c = .builtin ((if present then Builtin.isNotNull else Builtin.isNull)
        ((Expr.fieldsAll args).eraseDups.map Bytes.ofString)) := by
  have hcall : ns = "filter" ∧ name = if present then "isNotNull" else "isNull" := by
    unfold Expr.nullCheck? Expr.filterNamespace at hn
    split_ifs at hn with hns hnull hnot <;> cases hn
    · exact ⟨hns, hnull⟩
    · exact ⟨hns, hnot⟩
  obtain ⟨rfl, rfl⟩ := hcall
  -- both checks read their fields alike, and fail without one
  cases present <;>
  · simp only [Condition.ofExpr, Expr.qualifiedName, Builtin.ofCall?] at hc
    cases hids : (Expr.fieldsAll args).isEmpty
    · simp only [hids] at hc
      cases hc
      exact ⟨by simpa using hids, by simp [distinctNames_eq_eraseDups]⟩
    · simp [hids] at hc

/-- A null check is replaced by comparisons that compile and agree with it, up to the fields
it names that the scope cannot resolve. -/
theorem expands_call (ns name : String) (args : List Expr) {c : Condition}
    (hc : Condition.ofExpr (.call ns name args) = .ok c) :
    Expands (.call ns name args) c (Expr.expandNulls (.call ns name args)) := by
  rw [Expr.expandNulls]
  cases hn : Expr.nullCheck? ns name with
  | none => exact Expands.unchanged hc
  | some present =>
    obtain ⟨hne, rfl⟩ := ofExpr_nullCheck hn hc
    have hD : ∀ s, (∃ n ∈ Expr.fieldsAll args, s.unresolved (Bytes.ofString n) = true) →
        (Expr.call ns name args).checksUnresolved s = true := by
      intro s ⟨n, hn', hu⟩
      simp only [Expr.checksUnresolved, hn, Option.isSome_some, Bool.true_and, List.any_eq_true]
      exact ⟨n, hn', hu⟩
    dsimp only
    generalize Expr.fieldsAll args = names at hne hD
    match names, hne with
    | [n], _ =>
      refine ⟨fun h => absurd h Bool.false_ne_true, ?_⟩
      cases present
      · refine ⟨nullTest n, rfl, fun s => ?_⟩
        have h := isNull_agrees s [n]
        simp only [List.map_cons, List.map_nil] at h
        rw [Truth.andLaws.junction_singleton] at h
        exact h.mono (hD s)
      · refine ⟨.not (nullTest n), rfl, fun s => ?_⟩
        have h := isNotNull_agrees s [n]
        simp only [List.map_cons, List.map_nil] at h
        rw [Truth.orLaws.junction_singleton] at h
        exact h.mono (hD s)
    | a :: b :: rest, _ =>
      -- a junction of two or more comparisons, which its parent takes in
      have hpieces : ∀ y : Expr, y.deref = y → y.andPieces ≠ [] → y.orPieces ≠ [] →
          y.deref.andPieces ≠ [] ∧ y.deref.orPieces ≠ [] := fun y hy ha ho => by
        rw [hy]
        exact ⟨ha, ho⟩
      cases present
      · have hcf : Expr.checkFields false (a :: b :: rest) =
            some (.and ((a :: b :: rest).map Expr.isNullOf), true) := rfl
        rw [hcf]
        refine ⟨fun _ => hpieces _ rfl (by simp [Expr.andPieces]) (by simp [Expr.orPieces]),
          .and ((a :: b :: rest).map nullTest), ?_, fun s => ?_⟩
        · rw [Condition.ofExpr, ofExprs_map_isNullOf]
          rfl
        · rw [Condition.eval_and]
          exact (isNull_agrees s _).mono (hD s)
      · have hcf : Expr.checkFields true (a :: b :: rest) =
            some (.or ((a :: b :: rest).map fun n => .not (Expr.isNullOf n)), true) := rfl
        rw [hcf]
        refine ⟨fun _ => hpieces _ rfl (by simp [Expr.andPieces]) (by simp [Expr.orPieces]),
          .or ((a :: b :: rest).map fun n => .not (nullTest n)), ?_, fun s => ?_⟩
        · rw [Condition.ofExpr, ofExprs_map_not_isNullOf]
          rfl
        · rw [Condition.eval_or]
          exact (isNotNull_agrees s _).mono (hD s)

/-- A negation goes around what its term becomes. -/
theorem Expands.not {t : Expr} {c : Condition} {r : Expansion} (h : Expands t c r) :
    Expands (.not t) (.not c) (r.around .not) := by
  cases r with
  | removed => exact h.elim
  | kept y spread =>
    obtain ⟨_, c', hc', hag⟩ := h
    refine ⟨fun _ => ⟨by simp [Expr.deref, Expr.andPieces], by simp [Expr.deref, Expr.orPieces]⟩,
      .not c', by rw [Condition.ofExpr, hc']; rfl, fun s => ?_⟩
    rw [Condition.eval, Condition.eval]
    exact (hag s).not

theorem Expr.deref_paren {y : Expr} (hy : y ≠ .hole) : (Expr.paren y).deref = y.deref := by
  cases y with
  | hole => exact absurd rfl hy
  | _ => rfl

/-- Parentheses go around what their content becomes; compilation looks through them. -/
theorem Expands.paren {t : Expr} {c : Condition} {r : Expansion} (h : Expands t c r) :
    Expands (.paren t) c (r.around .paren) := by
  cases r with
  | removed => exact h.elim
  | kept y spread =>
    obtain ⟨hsp, c', hc', hag⟩ := h
    refine ⟨fun hs => ?_, c', hc', hag⟩
    by_cases hy : y = .hole
    · subst hy
      exact ⟨by simp [Expr.deref, Expr.andPieces], by simp [Expr.deref, Expr.orPieces]⟩
    · rw [Expr.deref_paren hy]
      exact hsp hs

theorem ofExprs_cons_ok {t : Expr} {ts : List Expr} {cs : List Condition}
    (h : Condition.ofExprs (t :: ts) = .ok cs) :
    ∃ c cs', Condition.ofExpr t = .ok c ∧ Condition.ofExprs ts = .ok cs' ∧ cs = c :: cs' := by
  rw [Condition.ofExprs] at h
  cases hc : Condition.ofExpr t with
  | error a => rw [hc] at h; cases h
  | ok c =>
    cases hcs : Condition.ofExprs ts with
    | error a => rw [hc, hcs] at h; cases h
    | ok cs' =>
      rw [hc, hcs] at h
      cases h
      exact ⟨c, cs', rfl, rfl, rfl⟩

namespace JunctionLaws

variable {stop unit : Truth} {step : Truth → Truth → Truth} (laws : JunctionLaws stop unit step)
  {cmk : List Condition → Condition}
  (heval : ∀ s cs, (cmk cs).eval s = Condition.junction stop step s unit cs)
  {mk : List Expr → Expr} (hmk : ∀ L, Condition.ofExpr (mk L) = cmk <$> Condition.ofExprs L)
  (hchecks : ∀ s L, (mk L).checksUnresolved s = Expr.checksUnresolvedAll s L)
include laws heval hmk hchecks

/-- A junction keeps its terms' expansions, spliced or not; it keeps some when it had some,
and the kept junction agrees with the original one term by term. -/
theorem expands_keptJunction {ts terms : List Expr} {cs cs' : List Condition}
    (hne : ts ≠ [] → terms ≠ [])
    (hsplice : TermsAlike stop step (Condition.ofExprs terms) (.ok cs'))
    (hagree : ∀ s, List.Forall₂
      (fun c' c => Agrees (Expr.checksUnresolvedAll s ts = true) (c'.eval s) (c.eval s)) cs' cs) :
    Expands (mk ts) (cmk cs)
      (if (!ts.isEmpty && terms.isEmpty) = true then .removed else .kept (mk terms) false) := by
  have hkeep : (!ts.isEmpty && terms.isEmpty) = false := by
    cases ts with
    | nil => rfl
    | cons t ts => simpa using hne (List.cons_ne_nil t ts)
  rw [hkeep, if_neg Bool.false_ne_true]
  rcases hsplice.cases with ⟨a, _, hbad⟩ | ⟨ds, cs'', hds, hcs', hsame⟩
  · cases hbad
  cases hcs'
  refine ⟨fun h => absurd h Bool.false_ne_true, cmk ds, by rw [hmk, hds]; rfl, fun s => ?_⟩
  rw [heval, heval, hsame s unit laws.unit_ne, hchecks]
  exact Agrees.junction (hagree s) unit

end JunctionLaws

mutual

/-- Expanding the null checks of a filter that compiles keeps a tree that compiles and agrees
with it, up to the null checks that name an unresolved field. The induction follows the
expansion: a null check becomes its comparisons, negations and parentheses go around what
their term becomes, and junctions take their terms' expansions in turn. -/
theorem expands_expandNulls : (x : Expr) → ∀ {c : Condition}, Condition.ofExpr x = .ok c →
    Expands x c (Expr.expandNulls x)
  | .call ns name args, _, hc => expands_call ns name args hc
  | .not t, c, hc => by
    by_cases ht : t = .hole
    · subst ht
      exact Expands.unchanged hc
    · obtain ⟨ct, hct, rfl⟩ :=
        except_map_eq_ok (show Condition.not <$> Condition.ofExpr t = .ok c from hc)
      rw [Expr.expandNulls_not ht]
      exact (expands_expandNulls t hct).not
  | .paren t, c, hc => by
    by_cases ht : t = .hole
    · subst ht
      exact Expands.unchanged hc
    · rw [Expr.expandNulls_paren ht]
      exact (expands_expandNulls t hc).paren
  | .and ts, c, hc => by
    obtain ⟨cs, hts, rfl⟩ :=
      except_map_eq_ok (show Condition.and <$> Condition.ofExprs ts = .ok c from hc)
    obtain ⟨hlen, hspread, cs', hof, hagree⟩ := expands_expandNullsAll ts hts
    simp only [Expr.expandNulls]
    exact Truth.andLaws.expands_keptJunction Condition.eval_and (fun _ => rfl) (fun _ _ => rfl)
      (fun hne => spliced_ne_nil (fun r hr hs => (hspread r hr hs).1)
        (List.ne_nil_of_length_pos (by rw [hlen]; exact List.length_pos_iff.2 hne)))
      (Truth.andLaws.spliced_termsAlike Condition.eval_and Condition.ofExprs_andPieces hof) hagree
  | .or ts, c, hc => by
    obtain ⟨cs, hts, rfl⟩ :=
      except_map_eq_ok (show Condition.or <$> Condition.ofExprs ts = .ok c from hc)
    obtain ⟨hlen, hspread, cs', hof, hagree⟩ := expands_expandNullsAll ts hts
    simp only [Expr.expandNulls]
    exact Truth.orLaws.expands_keptJunction Condition.eval_or (fun _ => rfl) (fun _ _ => rfl)
      (fun hne => spliced_ne_nil (fun r hr hs => (hspread r hr hs).2)
        (List.ne_nil_of_length_pos (by rw [hlen]; exact List.length_pos_iff.2 hne)))
      (Truth.orLaws.spliced_termsAlike Condition.eval_or Condition.ofExprs_orPieces hof) hagree
  | .field _, _, hc | .lit _, _, hc | .compare .., _, hc | .arith .., _, hc | .hole, _, hc =>
    Expands.unchanged hc

/-- The terms of a junction that compiles are each kept, and agree with the terms in turn. -/
theorem expands_expandNullsAll : (ts : List Expr) → ∀ {cs : List Condition},
    Condition.ofExprs ts = .ok cs →
    (Expr.expandNullsAll ts).length = ts.length ∧
    (∀ r ∈ Expr.expandNullsAll ts, r.2 = true → r.1.deref.andPieces ≠ [] ∧ r.1.deref.orPieces ≠ []) ∧
    ∃ cs', Condition.ofExprs ((Expr.expandNullsAll ts).map Prod.fst) = .ok cs' ∧
      ∀ s, List.Forall₂
        (fun c' c => Agrees (Expr.checksUnresolvedAll s ts = true) (c'.eval s) (c.eval s)) cs' cs
  | [], _, hts => by
    cases hts
    exact ⟨rfl, by simp [Expr.expandNullsAll], [], rfl, fun _ => .nil⟩
  | t :: ts, cs, hts => by
    obtain ⟨ct, cs0, hct, hcs0, rfl⟩ := ofExprs_cons_ok hts
    have ht := expands_expandNulls t hct
    obtain ⟨hlen, hspread, cs', hof, hagree⟩ := expands_expandNullsAll ts hcs0
    cases hx : Expr.expandNulls t with
    | removed =>
      rw [hx] at ht
      exact ht.elim
    | kept y spread =>
      rw [hx] at ht
      obtain ⟨hsp, c', hc', hag⟩ := ht
      rw [Expr.expandNullsAll, hx]
      refine ⟨by simp [hlen], fun r hr hs => ?_, c' :: cs', ?_, fun s => .cons ((hag s).mono ?_)
        ((hagree s).imp fun _ _ h => h.mono ?_)⟩
      · rcases List.mem_cons.1 hr with rfl | hr
        · exact hsp hs
        · exact hspread r hr hs
      · rw [List.map_cons, Condition.ofExprs, hc', hof]
        rfl
      · intro h
        simp [Expr.checksUnresolvedAll, h]
      · intro h
        simp [Expr.checksUnresolvedAll, h]

end

/-! ## Outcomes -/

/-- Evaluations that agree give outcomes with the same completeness, and the same match when
they did not part. -/
theorem Evaluation.outcome_of_agrees (ev' ev : Evaluation) {ctx : Context} {D : Prop}
    (h : Agrees D (ev'.condition.eval ⟨ctx, ev'.options⟩) (ev.condition.eval ⟨ctx, ev.options⟩))
    (doc : Option Document) :
    (ev'.evaluate ctx doc).1.state = (ev.evaluate ctx doc).1.state ∧
      (¬D → (ev'.evaluate ctx doc).1.matched = (ev.evaluate ctx doc).1.matched) := by
  obtain ⟨hs, hr⟩ := h {} {} (SameState.refl _)
  rw [ev'.evaluate_state, ev.evaluate_state, ev'.evaluate_matched, ev.evaluate_matched]
  refine ⟨?_, fun hD => ?_⟩
  · have hempty : (ev'.run ctx).2.partialFields.isEmpty = (ev.run ctx).2.partialFields.isEmpty := by
      rw [Bool.eq_iff_iff, List.isEmpty_iff, List.isEmpty_iff]
      exact hs
    rw [hempty]
  · rcases hr with heq | ⟨hd, _⟩
    · exact congrArg Truth.holds heq
    · exact absurd hd hD

/-- Normalizing a filter keeps which records it matches, except where a null check meets a
field that cannot be resolved. For every filter that compiles, under any options, the normal
form compiles too, and against every context and document its outcome has the same
completeness as the filter's; it matches exactly when the filter does unless a null check of
the filter names a field that is declared incomplete, has no value in the context and none
from the fallback. -/
theorem evaluate_normalize_agrees {e : Expr} {opts : Options} {ev : Evaluation}
    (hev : Evaluation.compile e opts = .ok ev) :
    ∃ ev', Evaluation.compile e.normalize opts = .ok ev' ∧ ∀ ctx doc,
      (ev'.evaluate ctx doc).1.state = (ev.evaluate ctx doc).1.state ∧
      (e.checksUnresolved ⟨ctx, opts⟩ = false →
        (ev'.evaluate ctx doc).1.matched = (ev.evaluate ctx doc).1.matched) := by
  unfold Evaluation.compile at hev
  cases hc : Condition.ofExpr e with
  | error err =>
    rw [hc] at hev
    cases hev
  | ok c =>
    rw [hc] at hev
    cases hev
    -- flattening keeps the evaluation, the expansion keeps it up to the unresolved checks
    rcases (flatten_compilesAlike e).cases with ⟨a, _, hbad⟩ | ⟨c1, c0, hc1, hc0, hsame⟩
    · rw [hc] at hbad
      cases hbad
    rw [hc] at hc0
    cases hc0
    have hexp := expands_expandNulls e.flatten hc1
    cases hx : Expr.expandNulls e.flatten with
    | removed =>
      rw [hx] at hexp
      exact hexp.elim
    | kept y spread =>
      rw [hx] at hexp
      obtain ⟨_, c', hc', hag⟩ := hexp
      have hnorm : e.normalize = y := by
        rw [Expr.normalize, Expr.expandNullChecks, hx]
      refine ⟨⟨e.normalize, c', opts⟩, by rw [Evaluation.compile, hnorm, hc'], fun ctx doc => ?_⟩
      have h := hag ⟨ctx, opts⟩
      rw [hsame, Expr.checksUnresolved_flatten] at h
      obtain ⟨hstate, hmatched⟩ :=
        Evaluation.outcome_of_agrees ⟨e.normalize, c', opts⟩ ⟨e, c, opts⟩ h doc
      exact ⟨hstate, fun hno => hmatched fun hyes => by rw [hno] at hyes; cases hyes⟩

/-- `!filter:isNull(A, B)` with `A` declared incomplete compiles, and its normal form
`!(A == null && B == null)` agrees with it as `evaluate_normalize_agrees` says. -/
theorem normalize_agrees_negated_check :
    ∃ ev, Evaluation.compile (.not (.call "filter" "isNull" [.field "A", .field "B"]))
        { incomplete := [Bytes.ofString "A"] } = .ok ev ∧
      ∃ ev', Evaluation.compile (Expr.normalize (.not (.call "filter" "isNull"
          [.field "A", .field "B"]))) { incomplete := [Bytes.ofString "A"] } = .ok ev' ∧
        ∀ ctx doc, (ev'.evaluate ctx doc).1.state = (ev.evaluate ctx doc).1.state ∧
          ((Expr.not (.call "filter" "isNull" [.field "A", .field "B"])).checksUnresolved
              ⟨ctx, { incomplete := [Bytes.ofString "A"] }⟩ = false →
            (ev'.evaluate ctx doc).1.matched = (ev.evaluate ctx doc).1.matched) :=
  ⟨_, rfl, evaluate_normalize_agrees rfl⟩

/-- Where a null check meets an unresolved field the two forms part: `!filter:isNull(A)` with
`A` declared incomplete and missing from the context does not match, since the check skips
`A` and is true, while its normal form `!(A == null)` matches, the comparison being assumed
and assumed its own negation. -/
theorem negated_isNull_unresolved_diverges :
    ((Evaluation.compile (.not (.call "filter" "isNull" [.field "A"]))
        { incomplete := [Bytes.ofString "A"] }).map fun ev => ev.matches? {}).toOption = some false ∧
      ((Evaluation.compile (Expr.normalize (.not (.call "filter" "isNull" [.field "A"])))
        { incomplete := [Bytes.ofString "A"] }).map fun ev => ev.matches? {}).toOption = some true := by
  decide +kernel

end EdgeQuery.Eval
