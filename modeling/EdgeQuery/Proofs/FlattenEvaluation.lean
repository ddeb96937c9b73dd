import EdgeQuery.Proofs.EvalSimulation
/-! # Flattening keeps evaluation

Flattening drops parentheses, splices a conjunction inside a conjunction (a disjunction
inside a disjunction) into its parent and lets a junction of one term stand as that term.
The main theorem shows that none of this changes what a filter does: compiling the
flattened filter fails with the same report or gives a filter whose evaluation, trace
included, is the same in every scope.

Evaluation is not a plain boolean function here: a junction evaluates its terms in order,
stops at the first false (true) one, and every term it reaches records incomplete fields,
hits and phrase positions. Both junctions are one fold, `Condition.junction stop step`, and
regrouping its terms is sound because of three laws of the fold (`JunctionLaws`): it starts
from a neutral `unit`, it never reaches `stop` from values short of it, and it is
associative there. From these, a term that evaluates as the junction of some terms can be
replaced by those terms in place (`JunctionLaws.junction_splice`), and a one-term junction
is its term (`JunctionLaws.junction_singleton`).

The proof then follows `Expr.flatten`: one case per node, and one step per term of a
junction (`JunctionLaws.termsAlike_cons`), relating compilations by `CompilesAlike` and
`TermsAlike`, which also require the same first error in reading order. -/

namespace EdgeQuery.Query

/-- Parentheses around a term are dropped. -/
theorem Expr.flatten_paren {t : Expr} (ht : t ≠ .hole) : (Expr.paren t).flatten = t.flatten := by
  cases t with
  | hole => exact absurd rfl ht
  | _ => rfl

/-- A negation stays, over its flattened term. -/
theorem Expr.flatten_not {t : Expr} (ht : t ≠ .hole) : (Expr.not t).flatten = .not t.flatten := by
  cases t with
  | hole => exact absurd rfl ht
  | _ => rfl

end EdgeQuery.Query

namespace EdgeQuery.Eval

open Query

/-! ## Junctions -/

/-- The remaining terms of a junction that stops at the value `stop` and folds the other
values into `acc` with `step`. -/
def Condition.junction (stop : Truth) (step : Truth → Truth → Truth) (s : Scope) (acc : Truth) :
    List Condition → EvalM Truth
  | [] => pure acc
  | c :: cs => do
    let t ← c.eval s
    if t = stop then pure stop else Condition.junction stop step s (step acc t) cs

theorem Condition.evalAnd_eq_junction (s : Scope) (acc : Truth) (cs : List Condition) :
    Condition.evalAnd s acc cs = Condition.junction .no Truth.andStep s acc cs := by
  induction cs generalizing acc with
  | nil => rw [Condition.evalAnd, Condition.junction]
  | cons c cs ih =>
    rw [Condition.evalAnd, Condition.junction]
    simp only [ih]

theorem Condition.evalOr_eq_junction (s : Scope) (acc : Truth) (cs : List Condition) :
    Condition.evalOr s acc cs = Condition.junction .yes Truth.orStep s acc cs := by
  induction cs generalizing acc with
  | nil => rw [Condition.evalOr, Condition.junction]
  | cons c cs ih =>
    rw [Condition.evalOr, Condition.junction]
    simp only [ih]

/-- What regrouping a junction's terms relies on: the fold starts from a neutral `unit`, and
on values other than `stop` it never reaches `stop` and is associative. -/
structure JunctionLaws (stop unit : Truth) (step : Truth → Truth → Truth) : Prop where
  unit_ne : unit ≠ stop
  step_ne : ∀ a t, a ≠ stop → t ≠ stop → step a t ≠ stop
  step_unit : ∀ a, step a unit = a
  unit_step : ∀ t, t ≠ stop → step unit t = t
  assoc : ∀ a t r, a ≠ stop → t ≠ stop → r ≠ stop → step (step a t) r = step a (step t r)

/-- A conjunction starts from true and stops at false. -/
theorem Truth.andLaws : JunctionLaws .no .yes Truth.andStep where
  unit_ne := by decide
  step_ne a t := by cases a <;> cases t <;> decide
  step_unit a := by cases a <;> rfl
  unit_step t := by cases t <;> decide
  assoc a t r := by cases a <;> cases t <;> cases r <;> decide

/-- A disjunction starts from false and stops at true. -/
theorem Truth.orLaws : JunctionLaws .yes .no Truth.orStep where
  unit_ne := by decide
  step_ne a t := by cases a <;> cases t <;> decide
  step_unit a := by cases a <;> rfl
  unit_step t := by cases t <;> decide
  assoc a t r := by cases a <;> cases t <;> cases r <;> decide

namespace JunctionLaws

variable {stop unit : Truth} {step : Truth → Truth → Truth} (laws : JunctionLaws stop unit step)
  (s : Scope)
include laws

/-- A junction from any accumulator short of `stop` is the junction from `unit`, folded into
that accumulator. -/
theorem junction_from (acc : Truth) (hacc : acc ≠ stop) (cs : List Condition) :
    Condition.junction stop step s acc cs =
      (fun t => if t = stop then stop else step acc t) <$> Condition.junction stop step s unit cs := by
  induction cs generalizing acc with
  | nil =>
    simp only [Condition.junction, map_pure, if_neg laws.unit_ne, laws.step_unit]
  | cons c cs ih =>
    simp only [Condition.junction, map_bind]
    congr 1
    funext t
    by_cases ht : t = stop
    · simp [ht]
    · -- both sides go on with the rest, from `step acc t` and from `t`
      rw [if_neg ht, if_neg ht, ih (step acc t) (laws.step_ne _ _ hacc ht),
        ih (step unit t) (laws.step_ne _ _ laws.unit_ne ht), laws.unit_step t ht, Functor.map_map]
      congr 1
      funext r
      by_cases hr : r = stop
      · simp [hr]
      · rw [if_neg hr, if_neg hr, if_neg (laws.step_ne _ _ ht hr), laws.assoc _ _ _ hacc ht hr]

/-- A junction over two lists of terms is the junction over the second, started from the
result over the first unless that stopped. -/
theorem junction_append (acc : Truth) (hacc : acc ≠ stop) (cs ds : List Condition) :
    Condition.junction stop step s acc (cs ++ ds) =
      Condition.junction stop step s acc cs >>= fun t =>
        if t = stop then pure stop else Condition.junction stop step s t ds := by
  induction cs generalizing acc with
  | nil => simp [Condition.junction, hacc]
  | cons c cs ih =>
    simp only [List.cons_append, Condition.junction, bind_assoc]
    congr 1
    funext t
    by_cases ht : t = stop
    · simp [ht]
    · rw [if_neg ht, if_neg ht, ih _ (laws.step_ne _ _ hacc ht)]

/-- A term that evaluates as the junction of some terms can be replaced by them. -/
theorem junction_splice {c : Condition} {cs : List Condition}
    (hc : c.eval s = Condition.junction stop step s unit cs) (acc : Truth) (hacc : acc ≠ stop)
    (ds : List Condition) :
    Condition.junction stop step s acc (cs ++ ds) = Condition.junction stop step s acc (c :: ds) := by
  rw [laws.junction_append s acc hacc, laws.junction_from s acc hacc, Condition.junction, hc,
    bind_map_left]
  congr 1
  funext t
  by_cases ht : t = stop
  · simp [ht]
  · rw [if_neg ht, if_neg ht, if_neg (laws.step_ne _ _ hacc ht)]

/-- Terms that evaluate alike in turn give junctions that evaluate alike. -/
theorem junction_cons_congr {c d : Condition} {cs ds : List Condition} (hcd : c.eval s = d.eval s)
    (hrest : ∀ acc, acc ≠ stop →
      Condition.junction stop step s acc cs = Condition.junction stop step s acc ds)
    (acc : Truth) (hacc : acc ≠ stop) :
    Condition.junction stop step s acc (c :: cs) = Condition.junction stop step s acc (d :: ds) := by
  simp only [Condition.junction, hcd]
  congr 1
  funext t
  by_cases ht : t = stop
  · simp [ht]
  · rw [if_neg ht, if_neg ht, hrest _ (laws.step_ne _ _ hacc ht)]

/-- A junction of one term evaluates as that term. -/
theorem junction_singleton (c : Condition) :
    Condition.junction stop step s unit [c] = c.eval s := by
  calc Condition.junction stop step s unit [c] = c.eval s >>= pure := by
        simp only [Condition.junction]
        congr 1
        funext t
        by_cases ht : t = stop
        · simp [ht]
        · rw [if_neg ht, laws.unit_step t ht]
    _ = c.eval s := bind_pure _

end JunctionLaws

/-! ## Compilations that evaluate alike -/

/-- Two compilations that fail with the same error, or give filters that evaluate alike in
every scope: the same truth value and the same trace. -/
def CompilesAlike : Except CompileError Condition → Except CompileError Condition → Prop
  | .error a, .error b => a = b
  | .ok c, .ok d => ∀ s, c.eval s = d.eval s
  | _, _ => False

/-- Two compilations of the terms of a junction that fail with the same error, or give terms
that evaluate alike as that junction, from every accumulator short of `stop`. -/
def TermsAlike (stop : Truth) (step : Truth → Truth → Truth) :
    Except CompileError (List Condition) → Except CompileError (List Condition) → Prop
  | .error a, .error b => a = b
  | .ok cs, .ok ds => ∀ s acc, acc ≠ stop →
      Condition.junction stop step s acc cs = Condition.junction stop step s acc ds
  | _, _ => False

namespace CompilesAlike

variable {x y : Except CompileError Condition}

theorem refl (x : Except CompileError Condition) : CompilesAlike x x := by
  cases x <;> simp [CompilesAlike]

theorem cases (h : CompilesAlike x y) :
    (∃ a, x = .error a ∧ y = .error a) ∨
      (∃ c d, x = .ok c ∧ y = .ok d ∧ ∀ s, c.eval s = d.eval s) := by
  cases x <;> cases y <;> simp_all [CompilesAlike]

/-- Negating filters that evaluate alike keeps them alike. -/
theorem not (h : CompilesAlike x y) : CompilesAlike (.not <$> x) (.not <$> y) := by
  rcases h.cases with ⟨a, rfl, rfl⟩ | ⟨c, d, rfl, rfl, hcd⟩
  · rfl
  · intro s
    simp only [Condition.eval, hcd]

end CompilesAlike

namespace TermsAlike

variable {stop : Truth} {step : Truth → Truth → Truth} {x y : Except CompileError (List Condition)}

theorem refl (x : Except CompileError (List Condition)) : TermsAlike stop step x x := by
  cases x <;> simp [TermsAlike]

theorem cases (h : TermsAlike stop step x y) :
    (∃ a, x = .error a ∧ y = .error a) ∨
      (∃ cs ds, x = .ok cs ∧ y = .ok ds ∧ ∀ s acc, acc ≠ stop →
        Condition.junction stop step s acc cs = Condition.junction stop step s acc ds) := by
  cases x <;> cases y <;> simp_all [TermsAlike]

end TermsAlike

/-- Compiling the terms of two lists compiles the first list, then the second. -/
theorem Condition.ofExprs_append (xs ys : List Expr) :
    Condition.ofExprs (xs ++ ys) = (do
      let cs ← Condition.ofExprs xs
      let ds ← Condition.ofExprs ys
      pure (cs ++ ds)) := by
  induction xs with
  | nil =>
    rw [List.nil_append, Condition.ofExprs]
    cases Condition.ofExprs ys <;> rfl
  | cons x xs ih =>
    rw [List.cons_append, Condition.ofExprs, Condition.ofExprs, ih]
    cases Condition.ofExpr x <;> cases Condition.ofExprs xs <;> cases Condition.ofExprs ys <;> rfl

theorem Condition.ofExprs_singleton (e : Expr) :
    Condition.ofExprs [e] = (fun c => [c]) <$> Condition.ofExpr e := by
  simp only [Condition.ofExprs]
  cases Condition.ofExpr e <;> rfl

/-! ## Flattening, term by term -/

namespace JunctionLaws

variable {stop unit : Truth} {step : Truth → Truth → Truth} (laws : JunctionLaws stop unit step)
  {cmk : List Condition → Condition}
  (heval : ∀ s cs, (cmk cs).eval s = Condition.junction stop step s unit cs)
include laws heval

/-- A flattened term contributes its pieces to the junction above it: either itself, or, when
it is a junction of the same kind, its own terms. Either way the junction evaluates as with
the term before flattening. -/
theorem termsAlike_cons {e t : Expr} {pieces L ts : List Expr}
    (hp : Condition.ofExprs pieces = (fun c => [c]) <$> Condition.ofExpr e ∨
      Condition.ofExpr e = cmk <$> Condition.ofExprs pieces)
    (hhead : CompilesAlike (Condition.ofExpr e) (Condition.ofExpr t))
    (htail : TermsAlike stop step (Condition.ofExprs L) (Condition.ofExprs ts)) :
    TermsAlike stop step (Condition.ofExprs (pieces ++ L)) (Condition.ofExprs (t :: ts)) := by
  rw [Condition.ofExprs_append, Condition.ofExprs]
  rcases hp with hp | hp
  · -- the term stands as itself
    rw [hp]
    rcases hhead.cases with ⟨a, he, ht⟩ | ⟨c, d, he, ht, hcd⟩
    · rw [he, ht]
      rfl
    rw [he, ht]
    rcases htail.cases with ⟨b, hL, hts⟩ | ⟨cs, ds, hL, hts, hrest⟩
    · rw [hL, hts]
      rfl
    rw [hL, hts]
    exact fun s acc hacc => laws.junction_cons_congr s (hcd s) (hrest s) acc hacc
  · -- the term is a junction of the same kind, whose terms take its place
    rcases hhead.cases with ⟨a, he, ht⟩ | ⟨c, d, he, ht, hcd⟩
    · rw [he] at hp
      rw [ht]
      cases hps : Condition.ofExprs pieces with
      | error a' => rw [hps] at hp; cases hp; rfl
      | ok ps => rw [hps] at hp; cases hp
    rw [he] at hp
    rw [ht]
    cases hps : Condition.ofExprs pieces with
    | error a' => rw [hps] at hp; cases hp
    | ok ps =>
      rw [hps] at hp
      cases hp
      rcases htail.cases with ⟨b, hL, hts⟩ | ⟨cs, ds, hL, hts, hrest⟩
      · rw [hL, hts]
        rfl
      rw [hL, hts]
      intro s acc hacc
      rw [laws.junction_splice s (heval s ps) acc hacc]
      exact laws.junction_cons_congr s (hcd s) (hrest s) acc hacc

/-- A junction of flattened terms, which stands as its term when there is only one, evaluates
as the junction of the original terms. -/
theorem junction_compilesAlike {mk : List Expr → Expr}
    (hmk : ∀ L, Condition.ofExpr (mk L) = cmk <$> Condition.ofExprs L) {L ts : List Expr}
    (h : TermsAlike stop step (Condition.ofExprs L) (Condition.ofExprs ts)) :
    CompilesAlike (Condition.ofExpr (Expr.junction mk L)) (cmk <$> Condition.ofExprs ts) := by
  by_cases hone : ∃ u, L = [u]
  · obtain ⟨u, rfl⟩ := hone
    rw [Condition.ofExprs_singleton] at h
    rw [show Expr.junction mk [u] = u from rfl]
    rcases h.cases with ⟨a, hu, hts⟩ | ⟨cs, ds, hu, hts, hsame⟩
    · cases hc : Condition.ofExpr u with
      | error a' => rw [hc] at hu; cases hu; rw [hts]; rfl
      | ok c => rw [hc] at hu; cases hu
    cases hc : Condition.ofExpr u with
    | error a' => rw [hc] at hu; cases hu
    | ok c =>
      rw [hc] at hu
      cases hu
      rw [hts]
      intro s
      rw [heval, ← hsame s unit laws.unit_ne, laws.junction_singleton]
  · have hjunction : Expr.junction mk L = mk L := by
      rcases L with _ | ⟨u, _ | ⟨v, w⟩⟩
      · rfl
      · exact absurd ⟨u, rfl⟩ hone
      · rfl
    rw [hjunction, hmk]
    rcases h.cases with ⟨a, hL, hts⟩ | ⟨cs, ds, hL, hts, hsame⟩
    · rw [hL, hts]
      rfl
    rw [hL, hts]
    intro s
    rw [heval, heval, hsame s unit laws.unit_ne]

end JunctionLaws

theorem Condition.eval_and (s : Scope) (cs : List Condition) :
    (Condition.and cs).eval s = Condition.junction .no Truth.andStep s .yes cs := by
  rw [Condition.eval, Condition.evalAnd_eq_junction]

theorem Condition.eval_or (s : Scope) (cs : List Condition) :
    (Condition.or cs).eval s = Condition.junction .yes Truth.orStep s .no cs := by
  rw [Condition.eval, Condition.evalOr_eq_junction]

/-- What a term gives to a conjunction compiles to itself, or to the terms of the
conjunction it is. -/
theorem Condition.ofExprs_andPieces (e : Expr) :
    Condition.ofExprs e.andPieces = (fun c => [c]) <$> Condition.ofExpr e ∨
      Condition.ofExpr e = .and <$> Condition.ofExprs e.andPieces := by
  cases e with
  | and us => exact .inr rfl
  | _ => exact .inl (Condition.ofExprs_singleton _)

/-- What a term gives to a disjunction compiles to itself, or to the terms of the
disjunction it is. -/
theorem Condition.ofExprs_orPieces (e : Expr) :
    Condition.ofExprs e.orPieces = (fun c => [c]) <$> Condition.ofExpr e ∨
      Condition.ofExpr e = .or <$> Condition.ofExprs e.orPieces := by
  cases e with
  | or us => exact .inr rfl
  | _ => exact .inl (Condition.ofExprs_singleton _)

mutual

/-- A flattened filter compiles as the filter does: with the same error, or to a filter that
evaluates alike. -/
theorem flatten_compilesAlike : (e : Expr) →
    CompilesAlike (Condition.ofExpr e.flatten) (Condition.ofExpr e)
  | .field _ | .lit _ | .compare .. | .arith .. | .call .. | .hole => CompilesAlike.refl _
  | .paren t => by
    by_cases ht : t = .hole
    · subst ht
      exact CompilesAlike.refl _
    · rw [Expr.flatten_paren ht, Condition.ofExpr]
      exact flatten_compilesAlike t
  | .not t => by
    by_cases ht : t = .hole
    · subst ht
      exact CompilesAlike.refl _
    · rw [Expr.flatten_not ht, Condition.ofExpr, Condition.ofExpr]
      exact (flatten_compilesAlike t).not
  | .and ts => by
    rw [Expr.flatten, Condition.ofExpr]
    exact Truth.andLaws.junction_compilesAlike Condition.eval_and (fun _ => rfl)
      (flattenAnd_termsAlike ts)
  | .or ts => by
    rw [Expr.flatten, Condition.ofExpr]
    exact Truth.orLaws.junction_compilesAlike Condition.eval_or (fun _ => rfl)
      (flattenOr_termsAlike ts)

/-- The flattened terms of a conjunction evaluate as a conjunction like the terms. -/
theorem flattenAnd_termsAlike : (ts : List Expr) →
    TermsAlike .no Truth.andStep (Condition.ofExprs (Expr.flattenAnd ts)) (Condition.ofExprs ts)
  | [] => TermsAlike.refl _
  | t :: ts => by
    rw [Expr.flattenAnd]
    exact Truth.andLaws.termsAlike_cons Condition.eval_and
      (Condition.ofExprs_andPieces t.flatten) (flatten_compilesAlike t) (flattenAnd_termsAlike ts)

/-- The flattened terms of a disjunction evaluate as a disjunction like the terms. -/
theorem flattenOr_termsAlike : (ts : List Expr) →
    TermsAlike .yes Truth.orStep (Condition.ofExprs (Expr.flattenOr ts)) (Condition.ofExprs ts)
  | [] => TermsAlike.refl _
  | t :: ts => by
    rw [Expr.flattenOr]
    exact Truth.orLaws.termsAlike_cons Condition.eval_or
      (Condition.ofExprs_orPieces t.flatten) (flatten_compilesAlike t) (flattenOr_termsAlike ts)

end

/-- Flattening keeps what a filter does: the flattened filter compiles exactly when the filter
does, failing with the same report, and evaluates against every context and document to the
same outcome (truth value, completeness, incomplete fields, hit terms and phrase positions, in
order) with the same evidence written on the document. Trees are values, so flattening leaves
the filter it reads as it was. -/
theorem evaluate_flatten (e : Expr) (opts : Options) :
    (Evaluation.compile e.flatten opts).map Evaluation.evaluate =
      (Evaluation.compile e opts).map Evaluation.evaluate := by
  unfold Evaluation.compile
  rcases (flatten_compilesAlike e).cases with ⟨a, he, h⟩ | ⟨c, d, he, h, hcd⟩
  · rw [he, h]
  · rw [he, h]
    simp only [Except.map, Except.ok.injEq]
    funext ctx doc
    simp only [Evaluation.evaluate, hcd]

end EdgeQuery.Eval
