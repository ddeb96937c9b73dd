import EdgeQuery.Proofs.ValueSets
import EdgeQuery.Proofs.Base64RoundTrip
/-! # Partial evaluation approximates its completions

A context may lack the values of fields declared incomplete. Without a fallback, resolving
such a field finds nothing, and every term over it is *assumed*. A *completion* of the
context (`Context.Completes`) may give values to the incomplete fields that have none, and
term-frequency lists to the incomplete fields that have none; it agrees with the context
on everything else. Over a completion the same filter is evaluated with no field
incomplete.

The partial evaluation approximates every completion in two ways:

* a definite partial result is the result of every completion (`Truth.Approximates`): it
  is true only if every completion is true, false only if every completion is false. So
  when a completion matches, the partial evaluation is not false. `filter:isNull` is left
  out: it reads an unresolved field as empty.
* without negation, the partial evaluation matches whenever a completion does
  (`Truth.Admits`).

With a negation a completion may match while the partial evaluation does not: in
`!(A == 1 && B > 5)`, with `A` unresolved and `B` holding a text, the conjunction is unknown,
because an unknown term outweighs an assumed one, and the negation of unknown is unknown
(`negated_unknown_rejects_completion`). And the partial evaluation reads a term-frequency
list that the context has as it is, so a completion that changed it could decide a phrase
the other way.

Both approximations are proved by running the two evaluations side by side, comparing
results only (`Results`). Every term that is not a conjunction or disjunction relates its
partial and complete results by `Truth.AssumedOr`: assumed, or else the same. A junction
may stop at a different term on each side; the side that goes on is bounded by an
invariant of its accumulator (`Condition.evalAnd_invariant`). -/

namespace EdgeQuery.Eval

/-! ## Comparing results only -/

/-- Two steps whose results are related by `R`, from any traces. -/
abbrev Results {α β : Type} (R : α → β → Prop) (x : EvalM α) (y : EvalM β) : Prop :=
  Related (fun _ _ => True) R x y

namespace Truth

/-- The partial result of a term is assumed, or else the complete one. -/
def AssumedOr (p c : Truth) : Prop := p = .assumed ∨ p = c

/-- A definite partial result is the complete one. -/
def Approximates (p c : Truth) : Prop := (p = .yes → c = .yes) ∧ (p = .no → c = .no)

/-- The partial result is satisfied whenever the complete one is. -/
def Admits (p c : Truth) : Prop := c.holds = true → p.holds = true

theorem AssumedOr.approximates {p c : Truth} (h : AssumedOr p c) : Approximates p c := by
  rcases h with rfl | rfl
  · exact ⟨fun h => absurd h (by decide), fun h => absurd h (by decide)⟩
  · exact ⟨id, id⟩

theorem AssumedOr.admits {p c : Truth} (h : AssumedOr p c) : Admits p c := by
  rcases h with rfl | rfl
  · exact fun _ => rfl
  · exact id

theorem Approximates.refl (t : Truth) : Approximates t t := ⟨id, id⟩

theorem Approximates.not {p c : Truth} (h : Approximates p c) : Approximates p.not c.not := by
  obtain ⟨hyes, hno⟩ := h
  cases p <;> cases c <;> simp_all [Approximates, Truth.not]

/-- Within a conjunction the accumulator is never false: a false term stops it. -/
theorem andStep_ne_no {a : Truth} (x : Truth) (ha : a ≠ .no) : a.andStep x ≠ .no := by
  cases a <;> cases x <;> simp_all [andStep]

/-- Within a disjunction the accumulator is never true: a true term stops it. -/
theorem orStep_ne_yes {a : Truth} (x : Truth) (ha : a ≠ .yes) : a.orStep x ≠ .yes := by
  cases a <;> cases x <;> simp_all [orStep]

theorem andStep_ne_yes {a : Truth} (x : Truth) (ha : a ≠ .yes) : a.andStep x ≠ .yes := by
  cases a <;> cases x <;> simp_all [andStep]

theorem orStep_ne_no {a : Truth} (x : Truth) (ha : a ≠ .no) : a.orStep x ≠ .no := by
  cases a <;> cases x <;> simp_all [orStep]

/-- A term that is neither true nor false leaves a conjunction short of true. -/
theorem andStep_unsettled_ne_yes (a : Truth) {x : Truth} (hx : x ≠ .no) (hx' : x ≠ .yes) :
    a.andStep x ≠ .yes := by
  cases a <;> cases x <;> simp_all [andStep]

/-- A term that is neither true nor false leaves a disjunction short of false. -/
theorem orStep_unsettled_ne_no (a : Truth) {x : Truth} (hx : x ≠ .no) (hx' : x ≠ .yes) :
    a.orStep x ≠ .no := by
  cases a <;> cases x <;> simp_all [orStep]

/-- A conjunction so far is satisfied when both parts are. -/
theorem holds_andStep (a : Truth) {x : Truth} (hx : x ≠ .no) :
    (a.andStep x).holds = (a.holds && x.holds) := by
  cases a <;> cases x <;> simp_all [andStep, holds]

/-- A disjunction so far is satisfied when one part is. -/
theorem holds_orStep (a : Truth) {x : Truth} (hx : x ≠ .yes) :
    (a.orStep x).holds = (a.holds || x.holds) := by
  cases a <;> cases x <;> simp_all [orStep, holds]

theorem Approximates.andStep {a b x y : Truth} (hab : Approximates a b) (hxy : Approximates x y)
    (ha : a ≠ .no) (hx : x ≠ .no) : Approximates (a.andStep x) (b.andStep y) := by
  obtain ⟨hab1, hab2⟩ := hab
  obtain ⟨hxy1, hxy2⟩ := hxy
  cases a <;> cases x <;> simp_all [Approximates, Truth.andStep]

theorem Approximates.orStep {a b x y : Truth} (hab : Approximates a b) (hxy : Approximates x y)
    (ha : a ≠ .yes) (hx : x ≠ .yes) : Approximates (a.orStep x) (b.orStep y) := by
  obtain ⟨hab1, hab2⟩ := hab
  obtain ⟨hxy1, hxy2⟩ := hxy
  cases a <;> cases x <;> simp_all [Approximates, Truth.orStep]

theorem Admits.andStep {a b x y : Truth} (hab : Admits a b) (hxy : Admits x y) (hx : x ≠ .no)
    (hy : y ≠ .no) : Admits (a.andStep x) (b.andStep y) := by
  intro hc
  rw [holds_andStep b hy, Bool.and_eq_true] at hc
  rw [holds_andStep a hx, hab hc.1, hxy hc.2]
  rfl

theorem Admits.orStep {a b x y : Truth} (hab : Admits a b) (hxy : Admits x y) (hx : x ≠ .yes)
    (hy : y ≠ .yes) : Admits (a.orStep x) (b.orStep y) := by
  intro hc
  rw [holds_orStep b hy, Bool.or_eq_true] at hc
  rw [holds_orStep a hx, Bool.or_eq_true]
  exact hc.imp hab hxy

end Truth

/-- Steps without a result are related. -/
theorem Results.unit (x y : EvalM Unit) : Results (fun _ _ => True) x y :=
  fun _ _ _ => ⟨trivial, trivial⟩

/-- A partial result that is assumed is related to any complete one. -/
theorem Results.assumed (y : EvalM Truth) : Results Truth.AssumedOr (pure .assumed) y :=
  fun _ _ _ => ⟨Or.inl rfl, trivial⟩

/-! ## Junctions on one side

What a conjunction or disjunction can still become, whatever its terms give: a property
of the accumulator that the step keeps, and that the value it stops at has. -/

theorem Condition.evalAnd_invariant (P : Truth → Prop) (hno : P .no)
    (hstep : ∀ acc x, P acc → x ≠ .no → P (acc.andStep x)) (s : Scope) :
    ∀ (cs : List Condition) (acc : Truth) (t : Trace), P acc →
      P ((Condition.evalAnd s acc cs).run t).1
  | [], _, _, hacc => hacc
  | c :: cs, acc, t, hacc => by
    rw [Condition.evalAnd, run_bind]
    generalize (c.eval s).run t = r
    obtain ⟨x, t'⟩ := r
    by_cases hx : x = .no
    · rw [if_pos hx]
      exact hno
    · rw [if_neg hx]
      exact Condition.evalAnd_invariant P hno hstep s cs _ t' (hstep acc x hacc hx)

theorem Condition.evalOr_invariant (P : Truth → Prop) (hyes : P .yes)
    (hstep : ∀ acc x, P acc → x ≠ .yes → P (acc.orStep x)) (s : Scope) :
    ∀ (cs : List Condition) (acc : Truth) (t : Trace), P acc →
      P ((Condition.evalOr s acc cs).run t).1
  | [], _, _, hacc => hacc
  | c :: cs, acc, t, hacc => by
    rw [Condition.evalOr, run_bind]
    generalize (c.eval s).run t = r
    obtain ⟨x, t'⟩ := r
    by_cases hx : x = .yes
    · rw [if_pos hx]
      exact hyes
    · rw [if_neg hx]
      exact Condition.evalOr_invariant P hyes hstep s cs _ t' (hstep acc x hacc hx)

/-! ## Completions -/

/-- The options of the same filter compiled without incomplete fields. -/
def Options.withoutIncomplete (o : Options) : Options := { o with incomplete := [] }

/-- `C'` completes `C` for the incomplete fields `I`: it agrees with `C` on the values of
every field except those of `I` that have none in `C`, and on the term-frequency list of
every field except those of `I` that have none in `C`. -/
structure Context.Completes (I : List Bytes) (C C' : Context) : Prop where
  values : ∀ field, ((C.values field).isEmpty && I.contains field) = false →
    C'.values field = C.values field
  lists : ∀ field, ((C.frequencies? field).isNone && I.contains field) = false →
    C'.frequencies? field = C.frequencies? field

/-- Resolutions of a field in a partial evaluation and in a completion: unresolved in the
partial one, or else the same values. -/
def Resolution.AssumedOr : Resolution → Resolution → Prop
  | .unresolved, _ => True
  | .values vs, .values ws => vs = ws
  | .values _, .unresolved => False

theorem Resolution.AssumedOr.cases {r r' : Resolution} (h : r.AssumedOr r') :
    r = .unresolved ∨ ∃ vs, r = .values vs ∧ r' = .values vs := by
  cases r with
  | unresolved => exact Or.inl rfl
  | values vs =>
    cases r' with
    | values ws =>
      simp only [Resolution.AssumedOr] at h
      exact Or.inr ⟨vs, rfl, h ▸ rfl⟩
    | unresolved => exact absurd h id

/-- An option that is none in the partial evaluation, or else the complete one. -/
def NoneOr {β : Type} (a b : Option β) : Prop := a = none ∨ a = b

/-- A partial result that is none is related to any complete one. -/
theorem Results.none {β : Type} (y : EvalM (Option β)) : Results NoneOr (pure none) y :=
  fun _ _ _ => ⟨Or.inl rfl, trivial⟩

section Completion

variable {C C' : Context} {o : Options}

theorem Context.Completes.lookup (h : C.Completes o.incomplete C') (hf : o.fallback = none)
    (field : Bytes) :
    ((⟨C, o⟩ : Scope).lookup field).AssumedOr
      ((⟨C', o.withoutIncomplete⟩ : Scope).lookup field) := by
  -- with no incomplete field, the completion reads its own values
  have hcomplete : (⟨C', o.withoutIncomplete⟩ : Scope).lookup field = .values (C'.values field) := by
    simp [Scope.lookup, Scope.missing, Options.withoutIncomplete]
  rw [hcomplete]
  unfold Scope.lookup
  split
  next => simp [hf, Resolution.AssumedOr]
  next hm =>
    have hagree := h.values field (by simpa [Scope.missing] using hm)
    simp only [Resolution.AssumedOr, hagree]

theorem Context.Completes.resolve (h : C.Completes o.incomplete C') (hf : o.fallback = none)
    (field : Bytes) :
    Results Resolution.AssumedOr ((⟨C, o⟩ : Scope).resolve field)
      ((⟨C', o.withoutIncomplete⟩ : Scope).resolve field) := by
  intro t u _
  rw [Scope.resolve_run, Scope.resolve_run]
  exact ⟨h.lookup hf field, trivial⟩

/-- An arithmetic expression is unresolved in the partial evaluation, or takes the same
numbers in both. -/
theorem Context.Completes.numbers (h : C.Completes o.incomplete C') (hf : o.fallback = none)
    (c : Calc) :
    Results NoneOr ((⟨C, o⟩ : Scope).numbers c) ((⟨C', o.withoutIncomplete⟩ : Scope).numbers c) := by
  induction c with
  | num x => exact Related.pure (Or.inr rfl)
  | field n =>
    simp only [Scope.numbers]
    refine Related.bind (h.resolve hf n) fun r r' hr => ?_
    rcases hr.cases with rfl | ⟨vs, rfl, rfl⟩
    · exact Results.none _
    · exact Related.pure (Or.inr rfl)
  | op op l r ihl ihr =>
    simp only [Scope.numbers]
    refine Related.bind ihl fun a a' ha => Related.bind ihr fun b b' hb => ?_
    rcases ha with rfl | rfl
    · exact Results.none _
    rcases hb with rfl | rfl
    · cases a <;> exact Results.none _
    · cases a <;> cases b <;> exact Related.pure (Or.inr rfl)

/-- A term-frequency list is unresolved in the partial evaluation, or the same in both. -/
theorem Context.Completes.frequencies (h : C.Completes o.incomplete C') (field : Bytes) :
    Results NoneOr ((⟨C, o⟩ : Scope).frequencies field)
      ((⟨C', o.withoutIncomplete⟩ : Scope).frequencies field) := by
  intro t u _
  refine ⟨?_, trivial⟩
  rw [Scope.frequencies_run, Scope.frequencies_run]
  dsimp only
  cases hp : C.frequencies? field with
  | some f =>
    rw [h.lists field (by simp [hp])]
    simp only [hp]
    exact Or.inr rfl
  | none =>
    by_cases hI : o.incomplete.contains field = true
    · simp only [hI, if_true]
      exact Or.inl rfl
    · have hlist : ((C.frequencies? field).isNone && o.incomplete.contains field) = false := by
        simp only [hp, Option.isNone_none, Bool.true_and]
        exact Bool.eq_false_iff.2 hI
      rw [h.lists field hlist]
      simp only [hp, hI, Bool.false_eq_true, if_false, Options.withoutIncomplete,
        List.contains_nil]
      exact Or.inr rfl

/-! ## Terms

A term over a field that the partial evaluation cannot resolve is assumed there; every
other term reads the same values, numbers and lists on both sides. -/

theorem Context.Completes.evalField (h : C.Completes o.incomplete C') (hf : o.fallback = none)
    (t : Test) (field : Bytes) :
    Results Truth.AssumedOr (t.evalField ⟨C, o⟩ field)
      (t.evalField ⟨C', o.withoutIncomplete⟩ field) := by
  intro u u' _
  refine ⟨?_, trivial⟩
  rw [(t.evalField_run _ field u).1, (t.evalField_run _ field u').1]
  rcases (h.lookup hf field).cases with hr | ⟨vs, hr, hr'⟩
  · rw [hr]
    exact Or.inl rfl
  · rw [hr, hr']
    exact Or.inr rfl

theorem Context.Completes.evalCalc (h : C.Completes o.incomplete C') (hf : o.fallback = none)
    (t : Test) (c : Calc) :
    Results Truth.AssumedOr (t.evalCalc ⟨C, o⟩ c) (t.evalCalc ⟨C', o.withoutIncomplete⟩ c) := by
  unfold Test.evalCalc
  refine Related.bind (h.numbers hf c) fun a b hab => ?_
  rcases hab with rfl | rfl
  · exact Results.assumed _
  · cases a with
    | none => exact Related.pure (Or.inr rfl)
    | some ns =>
      dsimp only
      split <;> exact Related.pure (Or.inr rfl)

theorem Context.Completes.test (h : C.Completes o.incomplete C') (hf : o.fallback = none)
    (t : Test) :
    Results Truth.AssumedOr (t.eval ⟨C, o⟩) (t.eval ⟨C', o.withoutIncomplete⟩) := by
  unfold Test.eval
  split
  next c _ => exact h.evalCalc hf t c
  next field _ => exact h.evalField hf t field

theorem Context.Completes.evalIsNotNull (h : C.Completes o.incomplete C') (hf : o.fallback = none)
    (fs : List Bytes) :
    Results Truth.AssumedOr (Builtin.evalIsNotNull ⟨C, o⟩ fs)
      (Builtin.evalIsNotNull ⟨C', o.withoutIncomplete⟩ fs) := by
  induction fs with
  | nil => exact Related.pure (Or.inr rfl)
  | cons f fs ih =>
    rw [Builtin.evalIsNotNull, Builtin.evalIsNotNull]
    refine Related.bind (h.resolve hf f) fun r r' hr => ?_
    rcases hr.cases with rfl | ⟨vs, rfl, rfl⟩
    · exact Results.assumed _
    · cases vs
      · exact ih
      · exact Related.pure (Or.inr rfl)

/-- Once a field was unresolved, `filter:includeText` is true or assumed. -/
theorem Builtin.evalIncludeText_unresolved (s : Scope) (text : Bytes) :
    ∀ (fs : List Bytes) (t : Trace),
      Truth.AssumedOr ((Builtin.evalIncludeText s text true fs).run t).1 .yes
  | [], _ => Or.inl rfl
  | f :: fs, t => by
    rw [Builtin.evalIncludeText, run_bind]
    generalize (s.resolve f).run t = r
    obtain ⟨r, t'⟩ := r
    cases r with
    | unresolved => exact Builtin.evalIncludeText_unresolved s text fs t'
    | values vs =>
      dsimp only
      cases vs.find? (·.text == text) with
      | some v => exact Or.inr rfl
      | none => exact Builtin.evalIncludeText_unresolved s text fs t'

/-- `filter:includeText`, where the partial evaluation may already have met an unresolved
field that the completion resolved. -/
theorem Context.Completes.evalIncludeText (h : C.Completes o.incomplete C')
    (hf : o.fallback = none) (text : Bytes) :
    ∀ (fs : List Bytes) (up uc : Bool), (up = true ∨ up = uc) →
      Results Truth.AssumedOr (Builtin.evalIncludeText ⟨C, o⟩ text up fs)
        (Builtin.evalIncludeText ⟨C', o.withoutIncomplete⟩ text uc fs)
  | [], up, uc, hu => by
    rcases hu with rfl | rfl
    · exact Related.pure (Or.inl rfl)
    · exact Related.pure (Or.inr rfl)
  | f :: fs, up, uc, hu => by
    rw [Builtin.evalIncludeText, Builtin.evalIncludeText]
    refine Related.bind (h.resolve hf f) fun r r' hr => ?_
    rcases hr.cases with rfl | ⟨vs, rfl, rfl⟩
    · -- the partial evaluation notes the unresolved field and goes on; the completion may
      -- find the text in it, and the partial result is then true or assumed
      cases r' with
      | unresolved => exact h.evalIncludeText hf text fs true true (Or.inl rfl)
      | values ws =>
        dsimp only
        cases ws.find? (·.text == text) with
        | some w =>
          intro t u _
          exact ⟨Builtin.evalIncludeText_unresolved _ text fs t, trivial⟩
        | none => exact h.evalIncludeText hf text fs true uc (Or.inl rfl)
    · dsimp only
      cases vs.find? (·.text == text) with
      | some v => exact Related.bind (Results.unit _ _) fun _ _ _ => Related.pure (Or.inr rfl)
      | none => exact h.evalIncludeText hf text fs up uc hu

theorem Context.Completes.evalPhrases (h : C.Completes o.incomplete C') (field : Bytes)
    (hits : Frequencies → List (Bytes × Int × Int)) :
    Results Truth.AssumedOr (Builtin.evalPhrases ⟨C, o⟩ field hits)
      (Builtin.evalPhrases ⟨C', o.withoutIncomplete⟩ field hits) := by
  unfold Builtin.evalPhrases
  refine Related.bind (h.frequencies field) fun a b hab => ?_
  rcases hab with rfl | rfl
  · exact Results.assumed _
  · rcases a with _ | _ | f
    · exact Related.pure (Or.inr rfl)
    · exact Related.pure (Or.inr rfl)
    -- both record the same phrase positions
    · exact fun _ _ _ => ⟨Or.inr rfl, trivial⟩

/-- Whether a built-in function is `filter:isNull`. -/
def Builtin.isIsNull : Builtin → Bool
  | .isNull _ => true
  | _ => false

theorem Context.Completes.builtin (h : C.Completes o.incomplete C') (hf : o.fallback = none)
    (b : Builtin) (hb : b.isIsNull = false) :
    Results Truth.AssumedOr (b.eval ⟨C, o⟩) (b.eval ⟨C', o.withoutIncomplete⟩) := by
  cases b with
  | isNull fs => simp [Builtin.isIsNull] at hb
  | isNotNull fs => exact h.evalIsNotNull hf fs
  | includeText fs text => exact h.evalIncludeText hf text fs false false (Or.inr rfl)
  | phrase field terms => exact h.evalPhrases field _
  | within field window terms => exact h.evalPhrases field _
  | option => exact Related.pure (Or.inr rfl)

theorem Context.Completes.fieldTerm (h : C.Completes o.incomplete C') (hf : o.fallback = none)
    (n : Bytes) :
    Results Truth.AssumedOr ((Condition.field n).eval ⟨C, o⟩)
      ((Condition.field n).eval ⟨C', o.withoutIncomplete⟩) := by
  rw [Condition.eval, Condition.eval]
  refine Related.bind (h.resolve hf n) fun r r' hr => ?_
  rcases hr.cases with rfl | ⟨vs, rfl, rfl⟩
  · exact Results.assumed _
  · exact Related.pure (Or.inr rfl)

theorem Context.Completes.calcTerm (h : C.Completes o.incomplete C') (hf : o.fallback = none)
    (c : Calc) :
    Results Truth.AssumedOr ((Condition.calc c).eval ⟨C, o⟩)
      ((Condition.calc c).eval ⟨C', o.withoutIncomplete⟩) := by
  rw [Condition.eval, Condition.eval]
  refine Related.bind (h.numbers hf c) fun a b hab => ?_
  rcases hab with rfl | rfl
  · exact Results.assumed _
  · cases a <;> exact Related.pure (Or.inr rfl)

/-- `filter:isNull` reads an unresolved field as empty: it may be true where a completion
is false, but it is true whenever the completion is. -/
theorem Context.Completes.evalIsNull (h : C.Completes o.incomplete C') (hf : o.fallback = none)
    (fs : List Bytes) :
    Results Truth.Admits (Builtin.evalIsNull ⟨C, o⟩ fs)
      (Builtin.evalIsNull ⟨C', o.withoutIncomplete⟩ fs) := by
  induction fs with
  | nil => exact Related.pure id
  | cons f fs ih =>
    rw [Builtin.evalIsNull, Builtin.evalIsNull]
    refine Related.bind (h.resolve hf f) fun r r' hr => ?_
    rcases hr.cases with rfl | ⟨vs, rfl, rfl⟩
    · cases r' with
      | unresolved => exact ih
      | values ws =>
        cases ws
        · exact ih
        -- the completion found a value: it is false, which admits anything
        · exact fun _ _ _ => ⟨fun hc => absurd hc Bool.false_ne_true, trivial⟩
    · cases vs
      · exact ih
      · exact Related.pure id

end Completion

/-! ## Filters -/

mutual

/-- Whether some node of a compiled filter passes `p`. -/
def Condition.anyNode (p : Condition → Bool) : Condition → Bool
  | .not c => p (.not c) || c.anyNode p
  | .and cs => p (.and cs) || Condition.anyNodeIn p cs
  | .or cs => p (.or cs) || Condition.anyNodeIn p cs
  | c => p c

/-- Whether some node of a list of compiled filters passes `p`. -/
def Condition.anyNodeIn (p : Condition → Bool) : List Condition → Bool
  | [] => false
  | c :: cs => c.anyNode p || Condition.anyNodeIn p cs

end

/-- Whether a node is a negation. -/
def Condition.isNot : Condition → Bool
  | .not _ => true
  | _ => false

/-- Whether a node calls `filter:isNull`. -/
def Condition.isIsNull : Condition → Bool
  | .builtin b => b.isIsNull
  | _ => false

section Completion

variable {C C' : Context} {o : Options}

mutual

/-- A definite partial result is the result of the completion, for a filter that does not
call `filter:isNull`. One case per kind of condition, and the junctions term by term. -/
theorem Context.Completes.eval_approximates (h : C.Completes o.incomplete C')
    (hf : o.fallback = none) : (cond : Condition) → cond.anyNode Condition.isIsNull = false →
      Results Truth.Approximates (cond.eval ⟨C, o⟩) (cond.eval ⟨C', o.withoutIncomplete⟩)
  | .unknown, _ => Related.pure (.refl _)
  | .const t, _ => Related.pure (.refl t)
  | .field n, _ => (h.fieldTerm hf n).mono fun _ _ => Truth.AssumedOr.approximates
  | .calc c, _ => (h.calcTerm hf c).mono fun _ _ => Truth.AssumedOr.approximates
  | .test t, _ => by
    rw [Condition.eval, Condition.eval]
    exact (h.test hf t).mono fun _ _ => Truth.AssumedOr.approximates
  | .builtin b, hb => by
    rw [Condition.eval, Condition.eval]
    have hb' : b.isIsNull = false := by simpa [Condition.anyNode, Condition.isIsNull] using hb
    exact (h.builtin hf b hb').mono fun _ _ => Truth.AssumedOr.approximates
  | .not c, hn => by
    rw [Condition.eval, Condition.eval]
    have hc : c.anyNode Condition.isIsNull = false := by
      simpa [Condition.anyNode, Condition.isIsNull] using hn
    exact (h.eval_approximates hf c hc).map fun _ _ => Truth.Approximates.not
  | .and cs, hn => by
    rw [Condition.eval, Condition.eval]
    have hcs : Condition.anyNodeIn Condition.isIsNull cs = false := by
      simpa [Condition.anyNode, Condition.isIsNull] using hn
    exact h.evalAnd_approximates hf .yes .yes (.refl _) (by decide) cs hcs
  | .or cs, hn => by
    rw [Condition.eval, Condition.eval]
    have hcs : Condition.anyNodeIn Condition.isIsNull cs = false := by
      simpa [Condition.anyNode, Condition.isIsNull] using hn
    exact h.evalOr_approximates hf .no .no (.refl _) (by decide) cs hcs

theorem Context.Completes.evalAnd_approximates (h : C.Completes o.incomplete C')
    (hf : o.fallback = none) (a b : Truth) (hab : Truth.Approximates a b) (ha : a ≠ .no) :
    (cs : List Condition) → Condition.anyNodeIn Condition.isIsNull cs = false →
      Results Truth.Approximates (Condition.evalAnd ⟨C, o⟩ a cs)
        (Condition.evalAnd ⟨C', o.withoutIncomplete⟩ b cs)
  | [], _ => Related.pure hab
  | c :: cs, hn => by
    simp only [Condition.anyNodeIn, Bool.or_eq_false_iff] at hn
    rw [Condition.evalAnd, Condition.evalAnd]
    refine Related.bind (h.eval_approximates hf c hn.1) fun x y hxy => ?_
    by_cases hx : x = .no
    · -- the partial conjunction stops at a false term, and so does the completion
      rw [if_pos hx, if_pos (hxy.2 hx)]
      exact Related.pure (.refl _)
    rw [if_neg hx]
    by_cases hy : y = .no
    · -- the completion stops at a false term that is not false in the partial evaluation;
      -- the partial conjunction goes on, and cannot become true
      rw [if_pos hy]
      have hxyes : x ≠ .yes := fun hyes => by simpa [hy] using hxy.1 hyes
      intro t u _
      refine ⟨⟨fun hp => absurd hp ?_, fun _ => rfl⟩, trivial⟩
      exact Condition.evalAnd_invariant (· ≠ .yes) (by decide)
        (fun acc z hacc _ => Truth.andStep_ne_yes z hacc) _ cs _ t
        (Truth.andStep_unsettled_ne_yes a hx hxyes)
    rw [if_neg hy]
    exact h.evalAnd_approximates hf _ _ (hab.andStep hxy ha hx) (Truth.andStep_ne_no x ha) cs hn.2

theorem Context.Completes.evalOr_approximates (h : C.Completes o.incomplete C')
    (hf : o.fallback = none) (a b : Truth) (hab : Truth.Approximates a b) (ha : a ≠ .yes) :
    (cs : List Condition) → Condition.anyNodeIn Condition.isIsNull cs = false →
      Results Truth.Approximates (Condition.evalOr ⟨C, o⟩ a cs)
        (Condition.evalOr ⟨C', o.withoutIncomplete⟩ b cs)
  | [], _ => Related.pure hab
  | c :: cs, hn => by
    simp only [Condition.anyNodeIn, Bool.or_eq_false_iff] at hn
    rw [Condition.evalOr, Condition.evalOr]
    refine Related.bind (h.eval_approximates hf c hn.1) fun x y hxy => ?_
    by_cases hx : x = .yes
    · -- the partial disjunction stops at a true term, and so does the completion
      rw [if_pos hx, if_pos (hxy.1 hx)]
      exact Related.pure (.refl _)
    rw [if_neg hx]
    by_cases hy : y = .yes
    · -- the completion stops at a true term that is not true in the partial evaluation;
      -- the partial disjunction goes on, and cannot become false
      rw [if_pos hy]
      have hxno : x ≠ .no := fun hno => by simpa [hy] using hxy.2 hno
      intro t u _
      refine ⟨⟨fun _ => rfl, fun hp => absurd hp ?_⟩, trivial⟩
      exact Condition.evalOr_invariant (· ≠ .no) (by decide)
        (fun acc z hacc _ => Truth.orStep_ne_no z hacc) _ cs _ t
        (Truth.orStep_unsettled_ne_no a hxno hx)
    rw [if_neg hy]
    exact h.evalOr_approximates hf _ _ (hab.orStep hxy ha hx) (Truth.orStep_ne_yes x ha) cs hn.2

end

mutual

/-- The partial evaluation of a filter without negation is satisfied whenever the
completion is. -/
theorem Context.Completes.eval_admits (h : C.Completes o.incomplete C')
    (hf : o.fallback = none) : (cond : Condition) → cond.anyNode Condition.isNot = false →
      Results Truth.Admits (cond.eval ⟨C, o⟩) (cond.eval ⟨C', o.withoutIncomplete⟩)
  | .unknown, _ => Related.pure id
  | .const _, _ => Related.pure id
  | .field n, _ => (h.fieldTerm hf n).mono fun _ _ => Truth.AssumedOr.admits
  | .calc c, _ => (h.calcTerm hf c).mono fun _ _ => Truth.AssumedOr.admits
  | .test t, _ => by
    rw [Condition.eval, Condition.eval]
    exact (h.test hf t).mono fun _ _ => Truth.AssumedOr.admits
  | .builtin b, _ => by
    rw [Condition.eval, Condition.eval]
    cases hb : b.isIsNull
    · exact (h.builtin hf b hb).mono fun _ _ => Truth.AssumedOr.admits
    · cases b <;> simp only [Builtin.isIsNull, reduceCtorEq] at hb
      exact h.evalIsNull hf _
  | .not c, hn => by simp [Condition.anyNode, Condition.isNot] at hn
  | .and cs, hn => by
    rw [Condition.eval, Condition.eval]
    have hcs : Condition.anyNodeIn Condition.isNot cs = false := by
      simpa [Condition.anyNode, Condition.isNot] using hn
    exact h.evalAnd_admits hf .yes .yes id cs hcs
  | .or cs, hn => by
    rw [Condition.eval, Condition.eval]
    have hcs : Condition.anyNodeIn Condition.isNot cs = false := by
      simpa [Condition.anyNode, Condition.isNot] using hn
    exact h.evalOr_admits hf .no .no id cs hcs

theorem Context.Completes.evalAnd_admits (h : C.Completes o.incomplete C')
    (hf : o.fallback = none) (a b : Truth) (hab : Truth.Admits a b) :
    (cs : List Condition) → Condition.anyNodeIn Condition.isNot cs = false →
      Results Truth.Admits (Condition.evalAnd ⟨C, o⟩ a cs)
        (Condition.evalAnd ⟨C', o.withoutIncomplete⟩ b cs)
  | [], _ => Related.pure hab
  | c :: cs, hn => by
    simp only [Condition.anyNodeIn, Bool.or_eq_false_iff] at hn
    rw [Condition.evalAnd, Condition.evalAnd]
    refine Related.bind (h.eval_admits hf c hn.1) fun x y hxy => ?_
    by_cases hy : y = .no
    · -- the completion stops at a false term: it is not satisfied, which admits anything
      rw [if_pos hy]
      exact fun _ _ _ => ⟨fun hc => absurd hc Bool.false_ne_true, trivial⟩
    rw [if_neg hy]
    by_cases hx : x = .no
    · -- the partial conjunction stops at a false term; the complete term is not satisfied
      -- either, and the complete conjunction cannot become satisfied
      rw [if_pos hx]
      have hyholds : y.holds ≠ true := fun hc => by simpa [hx, Truth.holds] using hxy hc
      intro t u _
      refine ⟨fun hc => absurd hc ?_, trivial⟩
      refine Condition.evalAnd_invariant (·.holds ≠ true) (by decide) (fun acc z hacc hz => ?_)
        _ cs _ u ?_
      · rw [Truth.holds_andStep acc hz]
        simp [hacc]
      · rw [Truth.holds_andStep b hy]
        simp [hyholds]
    rw [if_neg hx]
    exact h.evalAnd_admits hf _ _ (hab.andStep hxy hx hy) cs hn.2

theorem Context.Completes.evalOr_admits (h : C.Completes o.incomplete C')
    (hf : o.fallback = none) (a b : Truth) (hab : Truth.Admits a b) :
    (cs : List Condition) → Condition.anyNodeIn Condition.isNot cs = false →
      Results Truth.Admits (Condition.evalOr ⟨C, o⟩ a cs)
        (Condition.evalOr ⟨C', o.withoutIncomplete⟩ b cs)
  | [], _ => Related.pure hab
  | c :: cs, hn => by
    simp only [Condition.anyNodeIn, Bool.or_eq_false_iff] at hn
    rw [Condition.evalOr, Condition.evalOr]
    refine Related.bind (h.eval_admits hf c hn.1) fun x y hxy => ?_
    by_cases hx : x = .yes
    · -- the partial disjunction stops at a true term, which admits anything
      rw [if_pos hx]
      exact fun _ _ _ => ⟨fun _ => rfl, trivial⟩
    rw [if_neg hx]
    by_cases hy : y = .yes
    · -- the completion stops at a true term; the partial term is satisfied, and the partial
      -- disjunction stays satisfied
      rw [if_pos hy]
      have hxholds : x.holds = true := hxy (by rw [hy]; rfl)
      intro t u _
      refine ⟨fun _ => ?_, trivial⟩
      refine Condition.evalOr_invariant (·.holds = true) rfl (fun acc z hacc hz => ?_)
        _ cs _ t ?_
      · rw [Truth.holds_orStep acc hz, hacc]
        rfl
      · rw [Truth.holds_orStep a hx, hxholds, Bool.or_true]
    rw [if_neg hy]
    exact h.evalOr_admits hf _ _ (hab.orStep hxy hx hy) cs hn.2

end

end Completion

/-- Partial evaluation approximates every completion. Over a context `C`, evaluated without
a fallback, and a completion `C'` over which the same filter compiled without incomplete
fields matches: the partial evaluation matches when the filter has no negation, and it is
not false when the filter does not call `filter:isNull`. -/
theorem evaluate_partial_of_completion (ev : Evaluation) {C C' : Context}
    (hf : ev.options.fallback = none) (h : C.Completes ev.options.incomplete C')
    (hmatch : ({ ev with options := ev.options.withoutIncomplete } : Evaluation).matches? C' = true) :
    (ev.condition.anyNode Condition.isNot = false → ev.matches? C = true) ∧
      (ev.condition.anyNode Condition.isIsNull = false → (ev.run C).1 ≠ .no) := by
  -- `matched` is whether the truth value of the root holds
  have hcomplete :
      ((ev.condition.eval ⟨C', ev.options.withoutIncomplete⟩).run {}).1.holds = true := by
    rw [Evaluation.matches?, Evaluation.evaluate_matched] at hmatch
    exact hmatch
  constructor
  · intro hnot
    rw [Evaluation.matches?, Evaluation.evaluate_matched]
    exact (h.eval_admits hf ev.condition hnot {} {} trivial).1 hcomplete
  · intro hnull hno
    have hfalse := (h.eval_approximates hf ev.condition hnull {} {} trivial).1.2 hno
    rw [hfalse] at hcomplete
    exact Bool.false_ne_true hcomplete

/-- Giving values to an incomplete field that has none completes a context. -/
theorem Context.completes_set (C : Context) {I : List Bytes} {field : Bytes} (vs : List Value)
    (hempty : C.values field = []) (hI : I.contains field = true) :
    C.Completes I (C.set field vs) where
  values n hn := by
    rw [Context.set, Context.values_update]
    split
    next heq =>
      subst heq
      rw [hempty, hI] at hn
      exact absurd hn (by decide)
    next => rfl
  lists n _ := by
    have hoffsets : (C.set field vs).offsets = C.offsets := by
      unfold Context.set Context.update
      split <;> rfl
    simp only [Context.frequencies?, hoffsets]

/-- `A && B` with `A` incomplete and missing: the partial evaluation matches, as the
completion that gives `A` a value does. -/
theorem partial_conjunction_assumed :
    let A := [Bytes.ofChar 'A']
    let B := [Bytes.ofChar 'B']
    let ev : Evaluation := ⟨.and [.field "A", .field "B"], .and [.field A, .field B],
      { incomplete := [A] }⟩
    let C : Context := { fields := [(B, [Value.ofBytes [Bytes.ofChar 'b']])] }
    ev.matches? C = true ∧ (ev.run C).1 ≠ .no := by
  intro A B ev C
  have h := @evaluate_partial_of_completion ev C (C.set A [Value.ofBytes [Bytes.ofChar 'a']])
    rfl (C.completes_set _ rfl (by decide))
    (by rw [Evaluation.matches?, Evaluation.evaluate_matched]; rfl)
  exact ⟨h.1 (by decide), h.2 (by decide)⟩

/-- With a negation the partial evaluation may reject a record that a completion accepts:
`!(A == 1 && B > 5)`, with `A` incomplete and missing and `B` holding a text, is unknown,
while the completion that gives `A` the value 2 matches. And a completion that changes a
term-frequency list that the context has may decide a phrase the other way:
`content:phrase(A, 'x', 'y')` over a list of `A` without the phrase, and over one with it. -/
theorem negated_unknown_rejects_completion :
    let A := Bytes.ofString "A"
    let negated : Query.Expr := .not (.paren (.and [.compare .eq (.field "A") (.lit (.int 1)),
      .compare .gt (.field "B") (.lit (.int 5))]))
    let C : Context := { fields := [(Bytes.ofString "B", [Value.ofBytes [Bytes.ofChar 'b']])] }
    let C' : Context := C.set A [Value.ofBytes [Bytes.ofChar '2']]
    let phrase : Query.Expr := .call "content" "phrase" [.field "A", .lit (.str "x"), .lit (.str "y")]
    let r := [Bytes.ofChar 'r']
    let D : Context := { offsets := some { lists := [(A, ⟨[("y", [(r, [0])])]⟩)] } }
    let D' : Context :=
      { offsets := some { lists := [(A, ⟨[("x", [(r, [0])]), ("y", [(r, [1])])]⟩)] } }
    -- the first completion gives values to `A` only, which has none
    (C.values A = [] ∧ (∀ field, field ≠ A → C'.values field = C.values field) ∧
      C'.offsets = C.offsets ∧
      (fun ev => ev.matches? C') <$> Evaluation.compile negated = .ok true ∧
      (fun ev => ev.matches? C) <$> Evaluation.compile negated { incomplete := [A] } = .ok false) ∧
    -- the second changes the term-frequency list of `A`, which has no values
    (D.values A = [] ∧ D'.fields = D.fields ∧
      (∀ field, field ≠ A → D'.frequencies? field = D.frequencies? field) ∧
      (fun ev => ev.matches? D') <$> Evaluation.compile phrase = .ok true ∧
      (fun ev => ev.matches? D) <$> Evaluation.compile phrase { incomplete := [A] } = .ok false) := by
  have hA : Bytes.ofString "A" = [Bytes.ofChar 'A'] := by
    rw [show "A" = String.ofList ['A'] from rfl, Base64.ofString_ofList_ascii (by simp)]
    rfl
  have hB : Bytes.ofString "B" = [Bytes.ofChar 'B'] := by
    rw [show "B" = String.ofList ['B'] from rfl, Base64.ofString_ofList_ascii (by simp)]
    rfl
  have hx : String.map Unicode.toLower "x" = "x" := by
    apply String.toList_inj.1
    rw [String.toList_map]
    decide
  have hy : String.map Unicode.toLower "y" = "y" := by
    apply String.toList_inj.1
    rw [String.toList_map]
    decide
  have hcompile : ∀ o, Evaluation.compile (.not (.paren (.and [.compare .eq (.field "A") (.lit (.int 1)),
      .compare .gt (.field "B") (.lit (.int 5))]))) o =
      .ok ⟨.not (.paren (.and [.compare .eq (.field "A") (.lit (.int 1)),
        .compare .gt (.field "B") (.lit (.int 5))])),
        .not (.and [.test ⟨.field [Bytes.ofChar 'A'], .eq, .int 1, none⟩,
          .test ⟨.field [Bytes.ofChar 'B'], .gt, .int 5, none⟩]), o⟩ := by
    intro o
    rw [← hA, ← hB]
    rfl
  have hcompileP : ∀ o, Evaluation.compile
      (.call "content" "phrase" [.field "A", .lit (.str "x"), .lit (.str "y")]) o =
      .ok ⟨.call "content" "phrase" [.field "A", .lit (.str "x"), .lit (.str "y")],
        .builtin (.phrase [Bytes.ofChar 'A'] ["x", "y"]), o⟩ := by
    intro o
    simp [Evaluation.compile, Condition.ofExpr, Builtin.ofCall?, Query.Expr.qualifiedName,
      fieldArg?, Query.Expr.deref, phraseTerms, stringArg?, hx, hy, hA]
    rfl
  dsimp only
  rw [hcompile, hcompile, hcompileP, hcompileP]
  rw [hA, hB]
  refine ⟨⟨rfl, ?_, rfl, ?_, ?_⟩, ⟨rfl, rfl, ?_, ?_, ?_⟩⟩
  · intro field hne
    rw [Context.set, Context.values_update, if_neg hne]
  · -- over the completion `A == 1` is false, so the negated conjunction is true
    refine congrArg Except.ok ?_
    have htwo : toNum? [Bytes.ofChar '2'] = some (Binary64.ofDecimal false 2 0) := by
      simp only [toNum?, Bytes.trimSpace, Utf8.charsAt, List.drop_nil]
      rfl
    have hfalse : Test.fieldTruth ⟨.field [Bytes.ofChar 'A'], .eq, .int 1, none⟩ .plain
        [Value.ofBytes [Bytes.ofChar '2']] = .no := by
      simp [Test.fieldTruth, Arithmetic.compare, Value.ofBytes, htwo, Query.Literal.toFloat?]
      decide
    simp only [Evaluation.matches?, Evaluation.evaluate_matched, Evaluation.run, Condition.eval,
      Condition.evalAnd, run_bind, run_map, Test.eval, Test.evalField_fst]
    rw [show (Scope.mk (Context.set { fields := [([Bytes.ofChar 'B'], [Value.ofBytes [Bytes.ofChar 'b']])] }
        [Bytes.ofChar 'A'] [Value.ofBytes [Bytes.ofChar '2']]) {}).lookup [Bytes.ofChar 'A'] =
        .values [Value.ofBytes [Bytes.ofChar '2']] from rfl, Test.lookupTruth]
    simp only [hfalse, if_true, run_pure]
    rfl
  · -- over the context `A` is assumed and `B > 5` unknown, so the conjunction is unknown
    refine congrArg Except.ok ?_
    have hb : toNum? [Bytes.ofChar 'b'] = none := by
      simp only [toNum?, Bytes.trimSpace, Utf8.charsAt, List.drop_nil]
      rfl
    have hunknown : Test.fieldTruth ⟨.field [Bytes.ofChar 'B'], .gt, .int 5, none⟩ .plain
        [Value.ofBytes [Bytes.ofChar 'b']] = .unknown := by
      simp [Test.fieldTruth, Arithmetic.compare, Value.ofBytes, hb, mismatch]
    simp only [Evaluation.matches?, Evaluation.evaluate_matched, Evaluation.run, Condition.eval,
      Condition.evalAnd, run_bind, run_map, Test.eval, Test.evalField_fst]
    rw [show (Scope.mk { fields := [([Bytes.ofChar 'B'], [Value.ofBytes [Bytes.ofChar 'b']])] }
        { incomplete := [[Bytes.ofChar 'A']] }).lookup [Bytes.ofChar 'A'] = .unresolved from rfl,
      Test.lookupTruth, if_neg (by decide), run_bind, Test.evalField_fst,
      show (Scope.mk { fields := [([Bytes.ofChar 'B'], [Value.ofBytes [Bytes.ofChar 'b']])] }
        { incomplete := [[Bytes.ofChar 'A']] }).lookup [Bytes.ofChar 'B'] =
        .values [Value.ofBytes [Bytes.ofChar 'b']] from rfl, Test.lookupTruth]
    rw [hunknown, if_neg (by decide), run_pure]
    rfl
  · intro field hne
    simp [Context.frequencies?, OffsetMap.frequencies?, Ne.symm hne]
  · -- the completion's list holds `x` at 0 and `y` at 1 in the record `r`
    refine congrArg Except.ok ?_
    have hhits : (phraseHits ⟨[("x", [([Bytes.ofChar 'r'], [0])]), ("y", [([Bytes.ofChar 'r'], [1])])]⟩
        ["x", "y"]).isEmpty = false := by
      simp [phraseHits, Frequencies.records, Frequencies.offsets, consecutive]
      rw [show offsetAdd (offsetAdd 0 1) 0 = 1 by decide]
      decide
    simp only [Evaluation.matches?, Evaluation.evaluate_matched, Evaluation.run, Condition.eval,
      Builtin.eval, Builtin.evalPhrases, run_bind, Scope.frequencies_run]
    rw [show Context.frequencies? { offsets := some { lists := [([Bytes.ofChar 'A'],
        ⟨[("x", [([Bytes.ofChar 'r'], [0])]), ("y", [([Bytes.ofChar 'r'], [1])])]⟩)] } }
        [Bytes.ofChar 'A'] = some ⟨[("x", [([Bytes.ofChar 'r'], [0])]), ("y", [([Bytes.ofChar 'r'], [1])])]⟩
        from rfl]
    dsimp only
    rw [(Builtin.recordHits_run _ _ _).1, hhits]
    rfl
  · -- the context's list of `A` has no `x`, and is read as it is
    refine congrArg Except.ok ?_
    simp only [Evaluation.matches?, Evaluation.evaluate_matched, Evaluation.run, Condition.eval,
      Builtin.eval, Builtin.evalPhrases, run_bind, Scope.frequencies_run]
    rw [show Context.frequencies? { offsets := some { lists := [([Bytes.ofChar 'A'],
        ⟨[("y", [([Bytes.ofChar 'r'], [0])])]⟩)] } } [Bytes.ofChar 'A'] =
        some ⟨[("y", [([Bytes.ofChar 'r'], [0])])]⟩ from rfl]
    dsimp only
    rw [(Builtin.recordHits_run _ _ _).1]
    rfl

end EdgeQuery.Eval
