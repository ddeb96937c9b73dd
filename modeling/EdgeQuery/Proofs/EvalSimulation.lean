import EdgeQuery.Eval.Evaluate
/-! # Evaluations related step by step

Evaluation threads a `Trace` through a filter, but never reads it: every step only appends
to it. Two evaluations, of the same filter over two contexts or of two filters over one
context, are compared by running them side by side. `Related Q R x y` says that two steps,
started from traces related by `Q`, give results related by `R` and end in traces related
by `Q` again; it composes along `bind`, so a comparison of two evaluations is assembled from
comparisons of their steps.

The trace relation used for the outcome's completeness is `SamePartial`: both traces list
the same incomplete fields. Hits and phrase positions are not compared; only `matched` and
`state` of an outcome are, and those read the truth value and the incomplete fields only.

The primitive steps get their effect stated once: `resolve` returns `Scope.lookup` and
records the field when it takes the partial path (`Scope.missing`); `hitAll` tells whether
some value satisfies its test and records hits only; `frequencies` reads
`Context.frequencies?`. -/

namespace EdgeQuery.Eval

variable {α β γ δ : Type}

/-! ## Running steps -/

theorem run_bind (x : EvalM α) (f : α → EvalM β) (t : Trace) :
    (x >>= f).run t = (f (x.run t).1).run (x.run t).2 := rfl

theorem run_map (x : EvalM α) (f : α → β) (t : Trace) :
    (f <$> x).run t = (f (x.run t).1, (x.run t).2) := rfl

theorem run_pure (a : α) (t : Trace) : (pure a : EvalM α).run t = (a, t) := rfl

/-! ## Related steps -/

/-- Two evaluation steps agree up to `R` under the trace relation `Q`: from traces related
by `Q` they give results related by `R` and traces related by `Q` again. -/
def Related (Q : Trace → Trace → Prop) (R : α → β → Prop) (x : EvalM α) (y : EvalM β) : Prop :=
  ∀ t u, Q t u → R (x.run t).1 (y.run u).1 ∧ Q (x.run t).2 (y.run u).2

/-- Two traces that list the same incomplete fields. -/
def SamePartial (t u : Trace) : Prop := t.partialFields = u.partialFields

/-- Recording a field, or not, on both sides keeps the incomplete fields equal. -/
theorem SamePartial.record {t u : Trace} (h : SamePartial t u) (b : Bool) (field : Bytes) :
    SamePartial (if b then { t with partialFields := t.partialFields ++ [field] } else t)
      (if b then { u with partialFields := u.partialFields ++ [field] } else u) := by
  unfold SamePartial at h ⊢
  cases b <;> simp [h]

namespace Related

variable {Q : Trace → Trace → Prop} {R : α → β → Prop} {S : γ → δ → Prop}

theorem pure {a : α} {b : β} (h : R a b) : Related Q R (Pure.pure a) (Pure.pure b) :=
  fun _ _ hq => ⟨h, hq⟩

theorem bind {x : EvalM α} {y : EvalM β} {f : α → EvalM γ} {g : β → EvalM δ}
    (hx : Related Q R x y) (hf : ∀ a b, R a b → Related Q S (f a) (g b)) :
    Related Q S (x >>= f) (y >>= g) := by
  intro t u hq
  obtain ⟨hr, hq'⟩ := hx t u hq
  exact hf _ _ hr _ _ hq'

theorem map {x : EvalM α} {y : EvalM β} {f : α → γ} {g : β → δ}
    (hx : Related Q R x y) (hf : ∀ a b, R a b → S (f a) (g b)) :
    Related Q S (f <$> x) (g <$> y) := by
  intro t u hq
  obtain ⟨hr, hq'⟩ := hx t u hq
  exact ⟨hf _ _ hr, hq'⟩

/-- Weakening the result relation. -/
theorem mono {x : EvalM α} {y : EvalM β} {R' : α → β → Prop} (hx : Related Q R x y)
    (h : ∀ a b, R a b → R' a b) : Related Q R' x y := by
  intro t u hq
  obtain ⟨hr, hq'⟩ := hx t u hq
  exact ⟨h _ _ hr, hq'⟩

end Related

/-! ## Resolving a field -/

/-- Whether resolving a field takes the partial path: it is declared incomplete and the
context has no value for it. -/
def Scope.missing (s : Scope) (field : Bytes) : Bool :=
  (s.context.values field).isEmpty && s.options.incomplete.contains field

/-- What resolving a field finds: its values in the context, or, on the partial path, the
values the fallback supplies, if it supplies any. -/
def Scope.lookup (s : Scope) (field : Bytes) : Resolution :=
  if s.missing field then
    match s.options.fallback.bind (· field) with
    | some vs => .values vs
    | none => .unresolved
  else .values (s.context.values field)

/-- Resolving a field returns its lookup and records the field on the partial path. -/
theorem Scope.resolve_run (s : Scope) (field : Bytes) (t : Trace) :
    (s.resolve field).run t = (s.lookup field,
      if s.missing field then { t with partialFields := t.partialFields ++ [field] } else t) := by
  have hguard : (!(s.context.values field).isEmpty || !s.options.incomplete.contains field) =
      !s.missing field := by
    simp [Scope.missing, Bool.not_and]
  unfold Scope.resolve Scope.lookup
  dsimp only
  rw [hguard]
  cases s.missing field
  · rfl
  · cases s.options.fallback.bind (· field) <;> rfl

/-! ## Recording hits -/

theorem Scope.hit_partialFields (s : Scope) (field : Bytes) (v : Value) (t : Trace) :
    ((s.hit field v).run t).2.partialFields = t.partialFields := by
  unfold Scope.hit
  split <;> rfl

/-- Recording a hit, in any scope, leaves the incomplete fields alone. -/
theorem Scope.hit_related (s s' : Scope) (field field' : Bytes) (v v' : Value) :
    Related SamePartial Eq (s.hit field v) (s'.hit field' v') := by
  intro t u hq
  refine ⟨rfl, ?_⟩
  unfold SamePartial
  rw [s.hit_partialFields, s'.hit_partialFields]
  exact hq

/-- `hitAll` tells whether some value passes its test, and records nothing but hits. -/
theorem Scope.hitAll_run (s : Scope) (field : Bytes) (p : Value → Bool) (vs : List Value)
    (t : Trace) :
    ((s.hitAll field p vs).run t).1 = vs.any p ∧
      ((s.hitAll field p vs).run t).2.partialFields = t.partialFields := by
  induction vs generalizing t with
  | nil => exact ⟨rfl, rfl⟩
  | cons v vs ih =>
    by_cases hv : p v
    · -- the value is recorded, and the rest are still searched for their hits
      have hrest := ih ((s.hit field v).run t).2
      simp only [Scope.hitAll, hv, if_true, StateT.run_bind, List.any_cons, Bool.true_or]
      exact ⟨rfl, hrest.2.trans (s.hit_partialFields field v t)⟩
    · simp only [Scope.hitAll, hv, Bool.false_eq_true, if_false, List.any_cons, Bool.false_or]
      exact ih t

/-! ## Comparing a field -/

/-- The truth of a comparison over the values its field resolved to: what `evalField`
computes, without the hits it records. -/
def Test.fieldTruth (t : Test) (arith : Arithmetic) (vs : List Value) : Truth :=
  match t.literal, t.op with
  | .null, .eq => .ofBool vs.isEmpty
  | .null, .ne => .ofBool !vs.isEmpty
  | .null, _ => .unknown
  | lit, op =>
    let matches? (v : Value) : Bool :=
      match t.pattern with
      | some p => p.accepts (codePoints v.normalized)
      | none => false
    match op with
    | .like => .ofBool (vs.any matches?)
    | .unlike => .ofBool !(vs.any matches?)
    | .ne => .ofBool !(vs.any fun v => arith.compare .eq v lit = .yes)
    | op =>
      if vs.isEmpty then .no
      else if vs.any (fun v => arith.compare op v lit = .yes) then .yes
      else if vs.any (fun v => arith.compare op v lit = .no) then .no
      else .unknown

/-- The truth of a comparison over what resolving its field found: assumed when the field
cannot be resolved. -/
def Test.lookupTruth (t : Test) (arith : Arithmetic) : Resolution → Truth
  | .unresolved => .assumed
  | .values vs => t.fieldTruth arith vs

/-- A comparison of a field is the `lookupTruth` of the field's lookup; it records what
resolving the field records. -/
theorem Test.evalField_run (t : Test) (s : Scope) (field : Bytes) (u : Trace) :
    ((t.evalField s field).run u).1 = t.lookupTruth s.options.arithmetic (s.lookup field) ∧
      ((t.evalField s field).run u).2.partialFields =
        ((s.resolve field).run u).2.partialFields := by
  simp only [Test.evalField, run_bind, Scope.resolve_run]
  generalize (if s.missing field then { u with partialFields := u.partialFields ++ [field] }
    else u) = u'
  cases s.lookup field with
  | unresolved => exact ⟨rfl, rfl⟩
  | values vs =>
    obtain ⟨target, op, lit, pattern⟩ := t
    have hall := fun p => s.hitAll_run field p vs u'
    cases pattern <;> cases lit <;> cases op <;>
      simp only [Test.lookupTruth, Test.fieldTruth, hall, run_map, run_pure, and_self]
    -- the ordered comparisons: no value at all, or the hits decide
    all_goals
      by_cases he : vs.isEmpty = true
      · rw [if_pos he, if_pos he]
        exact ⟨rfl, rfl⟩
      · rw [if_neg he, if_neg he, run_bind]
        obtain ⟨hfound, hpartial⟩ := hall _
        rw [hfound]
        split <;> (try split) <;> exact ⟨rfl, hpartial⟩

theorem Test.evalField_fst (t : Test) (s : Scope) (field : Bytes) (u : Trace) :
    ((t.evalField s field).run u).1 = t.lookupTruth s.options.arithmetic (s.lookup field) :=
  (t.evalField_run s field u).1

/-! ## Term-frequency lists -/

/-- The term-frequency list a context holds for a field. -/
def Context.frequencies? (c : Context) (field : Bytes) : Option Frequencies :=
  c.offsets.bind (·.frequencies? field)

/-- Looking up a term-frequency list reads it from the context; a missing list of an
incomplete field takes the partial path. -/
theorem Scope.frequencies_run (s : Scope) (field : Bytes) (t : Trace) :
    (s.frequencies field).run t =
      match s.context.frequencies? field with
      | some f => (some (some f), t)
      | none =>
        if s.options.incomplete.contains field then
          (none, { t with partialFields := t.partialFields ++ [field] })
        else (some none, t) := by
  have hlist : ((((s.context.offsets.map (·.lists)).getD []).find? (·.1 == field)).map (·.2)) =
      s.context.frequencies? field := by
    cases h : s.context.offsets <;> simp [Context.frequencies?, OffsetMap.frequencies?, h]
  unfold Scope.frequencies
  dsimp only
  rw [hlist]
  cases s.context.frequencies? field with
  | some f => rfl
  | none => cases s.options.incomplete.contains field <;> rfl

theorem Builtin.recordHits_run (field : Bytes) (hits : List (Bytes × Int × Int)) (t : Trace) :
    ((Builtin.recordHits field hits).run t).1 = .ofBool !hits.isEmpty ∧
      ((Builtin.recordHits field hits).run t).2.partialFields = t.partialFields :=
  ⟨rfl, rfl⟩

/-! ## Outcomes -/

@[simp] theorem Truth.holds_ofBool (b : Bool) : (Truth.ofBool b).holds = b := by
  cases b <;> rfl

/-- The truth value and trace of a compiled filter over a context, from the empty trace. -/
def Evaluation.run (ev : Evaluation) (ctx : Context) : Truth × Trace :=
  (ev.condition.eval ⟨ctx, ev.options⟩).run {}

/-- A record matches when the filter is true or assumed. -/
theorem Evaluation.evaluate_matched (ev : Evaluation) (ctx : Context) (doc : Option Document) :
    (ev.evaluate ctx doc).1.matched = (ev.run ctx).1.holds := by
  unfold Evaluation.evaluate Evaluation.run
  generalize (ev.condition.eval ⟨ctx, ev.options⟩).run {} = r
  obtain ⟨truth, trace⟩ := r
  by_cases h : truth.holds <;> simp [h]

/-- An outcome is partial when the evaluation recorded an incomplete field. -/
theorem Evaluation.evaluate_state (ev : Evaluation) (ctx : Context) (doc : Option Document) :
    (ev.evaluate ctx doc).1.state =
      if (ev.run ctx).2.partialFields.isEmpty then .complete else .incomplete := by
  unfold Evaluation.evaluate Evaluation.run
  generalize (ev.condition.eval ⟨ctx, ev.options⟩).run {} = r
  obtain ⟨truth, trace⟩ := r
  by_cases h : truth.holds <;> simp [h]

/-- Two compiled filters whose evaluations are related with equal results under
`SamePartial` have outcomes with the same `matched` and `state`. -/
theorem Evaluation.outcome_eq_of_related {ev ev' : Evaluation} {ctx ctx' : Context}
    (h : Related SamePartial Eq (ev.condition.eval ⟨ctx, ev.options⟩)
      (ev'.condition.eval ⟨ctx', ev'.options⟩)) (doc doc' : Option Document) :
    (ev.evaluate ctx doc).1.matched = (ev'.evaluate ctx' doc').1.matched ∧
      (ev.evaluate ctx doc).1.state = (ev'.evaluate ctx' doc').1.state := by
  obtain ⟨htruth, hpartial⟩ := h {} {} rfl
  rw [ev.evaluate_matched, ev'.evaluate_matched, ev.evaluate_state, ev'.evaluate_state]
  exact ⟨congrArg Truth.holds htruth, by rw [Evaluation.run, Evaluation.run, hpartial]⟩

end EdgeQuery.Eval
