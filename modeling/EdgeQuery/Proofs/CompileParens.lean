import EdgeQuery.Proofs.PrintedReadBack
import EdgeQuery.Eval.Compile
/-! # Compiling through parentheses

Parentheses change nothing about what a filter compiles to: `Condition.ofExpr e` succeeds
exactly when `Condition.ofExpr e.unparen` does, and then gives the same condition
(`Condition.ofExpr_unparen`). Only the texts of the errors differ, since they show the nodes
as written.

Compilation looks through parentheses in three places: a comparison finds its literal and its
target through them (`Expr.deref`), arithmetic reads its operands through them, and the
built-in functions read their field and string arguments through them. With every pair taken
out (`Expr.unparen`) there is nothing left for `deref` to look through
(`Expr.deref_unparen`), and looking through the parentheses around a node finds a literal or
a field exactly when taking them all out does (`Expr.deref_eq_lit_iff`,
`Expr.deref_eq_field_iff`). A comparison is then read in three cases: a literal on the right,
a literal on the left that moves to the right, or no literal (`Test.ofComparison_unparen`). -/

namespace EdgeQuery.Query.Expr

/-! ## Looking through parentheses -/

theorem unparen_ne_paren : (e t : Expr) → e.unparen ≠ paren t
  | .paren e, t => by rw [unparen]; exact unparen_ne_paren e t
  | .field _, _ | .lit _, _ | .compare .., _ | .arith .., _ | .and _, _ | .or _, _ | .not _, _
  | .call .., _ | .hole, _ => by simp [unparen]

theorem deref_unparen (e : Expr) : e.unparen.deref = e.unparen := by
  cases h : e.unparen with
  | paren t => exact absurd h (unparen_ne_paren e t)
  | _ => rfl

theorem unparen_deref : (e : Expr) → e.deref.unparen = e.unparen
  | .paren t => by
    match t with
    | .hole => rfl
    | .paren u => rw [deref, unparen_deref (.paren u)]; rfl
    | .field _ | .lit _ | .compare .. | .arith .. | .and _ | .or _ | .not _ | .call .. => rfl
  | .field _ | .lit _ | .compare .. | .arith .. | .and _ | .or _ | .not _ | .call .. | .hole => rfl

/-- Looking through parentheses stops at a node that is no pair of parentheses, or at the
parentheses around an empty slot. -/
theorem deref_ne_paren : (e t : Expr) → t ≠ hole → e.deref ≠ paren t
  | .paren s, t, ht => by
    match s with
    | .hole => simpa [deref] using ht.symm
    | .paren u => rw [deref]; exact deref_ne_paren (.paren u) t ht
    | .field _ | .lit _ | .compare .. | .arith .. | .and _ | .or _ | .not _ | .call .. =>
      simp [deref]
  | .field _, _, _ | .lit _, _, _ | .compare .., _, _ | .arith .., _, _ | .and _, _, _
  | .or _, _, _ | .not _, _, _ | .call .., _, _ | .hole, _, _ => by simp [deref]

/-- Looking through the parentheses around a node finds a node without children exactly when
taking all its parentheses out gives that node. -/
theorem deref_eq_atom_iff {x : Expr} (hself : x.unparen = x)
    (hx : ∀ y, y.unparen = x → y = x ∨ ∃ t, y = paren t) (hhole : x ≠ hole) (e : Expr) :
    e.deref = x ↔ e.unparen = x := by
  constructor
  · intro h
    rw [← unparen_deref, h, hself]
  · intro h
    rcases hx e.deref (by rw [unparen_deref, h]) with hd | ⟨t, ht⟩
    · exact hd
    by_cases hth : t = hole
    · rw [← unparen_deref, ht, hth] at h
      exact absurd h.symm hhole
    · exact absurd ht (deref_ne_paren e t hth)

theorem deref_eq_lit_iff (e : Expr) (v : Literal) : e.deref = lit v ↔ e.unparen = lit v :=
  deref_eq_atom_iff rfl (fun y hy => by cases y <;> simp_all [unparen]) (by simp) e

theorem deref_eq_field_iff (e : Expr) (n : String) : e.deref = field n ↔ e.unparen = field n :=
  deref_eq_atom_iff rfl (fun y hy => by cases y <;> simp_all [unparen]) (by simp) e

theorem unparen_of_deref_eq_arith {e a b : Expr} {o : ArithOp} (h : e.deref = arith o a b) :
    e.unparen = arith o a.unparen b.unparen := by
  rw [← unparen_deref, h, unparen]

theorem deref_of_unparen_eq_arith {e a b : Expr} {o : ArithOp} (h : e.unparen = arith o a b) :
    ∃ a' b', e.deref = arith o a' b' ∧ a'.unparen = a ∧ b'.unparen = b := by
  have hd : e.deref.unparen = arith o a b := by rw [unparen_deref, h]
  cases hde : e.deref with
  | arith o' a' b' =>
    rw [hde, unparen] at hd
    cases hd
    exact ⟨a', b', rfl, rfl, rfl⟩
  | paren t =>
    by_cases ht : t = hole
    · rw [hde, ht] at hd
      cases hd
    · exact absurd hde (deref_ne_paren e t ht)
  | _ => rw [hde] at hd; simp [unparen] at hd

mutual

theorem fields_unparen : (e : Expr) → e.unparen.fields = e.fields
  | .compare _ l r | .arith _ l r => by
    simp only [unparen, fields, fields_unparen l, fields_unparen r]
  | .and ts | .or ts | .call _ _ ts => by simp only [unparen, fields, fieldsAll_unparenAll ts]
  | .not t | .paren t => by simp only [unparen, fields, fields_unparen t]
  | .field _ | .lit _ | .hole => rfl

theorem fieldsAll_unparenAll : (ts : List Expr) → fieldsAll (unparenAll ts) = fieldsAll ts
  | [] => rfl
  | t :: ts => by simp only [unparenAll, fieldsAll, fields_unparen t, fieldsAll_unparenAll ts]

end

end EdgeQuery.Query.Expr

namespace EdgeQuery.Eval

open Query

/-! ## Results, errors apart -/

theorem toOption_bind {ε α β : Type} (x : Except ε α) (f : α → Except ε β) :
    (x >>= f).toOption = x.toOption.bind fun a => (f a).toOption := by
  cases x <;> rfl

theorem toOption_map {ε α β : Type} (x : Except ε α) (f : α → β) :
    (f <$> x).toOption = f <$> x.toOption := by
  cases x <;> rfl

theorem toOption_except_map {ε α β : Type} (x : Except ε α) (f : α → β) :
    (x.map f).toOption = x.toOption.map f := by
  cases x <;> rfl

/-- An arithmetic operand builds the same calculation through parentheses; only the texts of
its errors name the operand as written. -/
theorem Calc.operand_unparen : (e : Expr) → (whole whole' : String) → (shown shown' : Expr) →
    (Calc.operand whole shown e).toOption = (Calc.operand whole' shown' e.unparen).toOption
  | .arith o l r, whole, whole', shown, shown' => by
    simp only [Calc.operand, Expr.unparen, toOption_bind]
    rw [Calc.operand_unparen l _ (Expr.arith o l.unparen r.unparen).render l l.unparen,
      Calc.operand_unparen r _ (Expr.arith o l.unparen r.unparen).render r r.unparen]
  | .paren t, whole, whole', shown, shown' => by
    match t with
    | .hole => rfl
    | .paren u | .field _ | .lit _ | .compare .. | .arith .. | .and _ | .or _ | .not _ | .call .. =>
      rw [Calc.operand, Expr.unparen]
      · exact Calc.operand_unparen _ whole whole' shown shown'
      · simp
  | .lit l, _, _, _, _ => by cases l <;> rfl
  | .field _, _, _, _, _ | .compare .., _, _, _, _ | .and _, _, _, _, _ | .or _, _, _, _, _
  | .not _, _, _, _, _ | .call .., _, _, _, _ | .hole, _, _, _, _ => rfl

/-- Whether a comparison applies to its literal does not depend on how it is shown. -/
theorem Test.check_toOption (shown shown' : String) (op : CompareOp) (lit : Literal) :
    (Test.check shown op lit).toOption = (Test.check shown' op lit).toOption := by
  unfold Test.check
  split
  · split <;> rfl
  · split
    · split <;> rfl
    · rfl

/-! ## Comparisons -/

/-- A comparison with a literal on the right, through parentheses, compiles alike with its
parentheses taken out. -/
theorem Test.ofComparison_unparen_of_right {op : CompareOp} {l r : Expr} {v : Literal}
    (hr : r.deref = .lit v) :
    (Test.ofComparison op l r).toOption = (Test.ofComparison op l.unparen r.unparen).toOption := by
  unfold Test.ofComparison
  simp only [pure_bind, Expr.deref_unparen, hr, (Expr.deref_eq_lit_iff r v).1 hr, Expr.deref]
  split
  · rename_i n hn
    simp only [(Expr.deref_eq_field_iff l n).1 hn, toOption_bind]
    rw [Test.check_toOption _ (Expr.compare op (.field n) (.lit v)).render]
  · rename_i o a b hab
    have hcalc : (Calc.ofExpr (.arith o a b)).toOption =
        (Calc.ofExpr (.arith o a.unparen b.unparen)).toOption :=
      Calc.operand_unparen (.arith o a b) "" "" _ _
    simp only [Expr.unparen_of_deref_eq_arith hab, toOption_bind, hcalc]
    congr 1
    funext c
    by_cases hv : v.isNumber = true
    · simp only [hv, if_true, toOption_bind]
      rw [Test.check_toOption _ (Expr.compare op (.arith o a.unparen b.unparen) (.lit v)).render]
    · simp only [hv]
      rfl
  · rename_i hf ha
    split
    · rename_i n hn
      exact absurd ((Expr.deref_eq_field_iff l n).2 hn) (hf n)
    · rename_i o a b hab
      obtain ⟨a', b', hd, -, -⟩ := Expr.deref_of_unparen_eq_arith hab
      exact absurd hd (ha o a' b')
    · rfl

/-- A literal on the left of a comparison that is no pattern match moves to the right, with the
operator mirrored. -/
theorem Test.ofComparison_swap {op : CompareOp} {l r : Expr} {v : Literal} (hl : l.deref = .lit v)
    (hr : ∀ w, r.deref ≠ .lit w) (hop : op.isPattern = false) :
    (Test.ofComparison op l r).toOption = (Test.ofComparison op.mirror r l).toOption := by
  unfold Test.ofComparison
  simp only [pure_bind, hl, hop]
  split
  · rename_i h
    exact absurd h Bool.false_ne_true
  · split
    · rename_i n hn
      simp only [toOption_bind]
      rw [Test.check_toOption _ (Expr.compare op.mirror r l).render]
    · simp only [toOption_bind]
      congr 1
      funext c
      by_cases hv : v.isNumber = true
      · simp only [hv, if_true, toOption_bind]
        rw [Test.check_toOption _ (Expr.compare op.mirror r l).render]
      · simp only [hv]
        rfl
    · rfl

/-- A comparison with no literal on the right, and none on the left or a pattern, does not
compile. -/
theorem Test.ofComparison_toOption_eq_none {op : CompareOp} {l r : Expr}
    (hr : ∀ v, r.deref ≠ .lit v) (hl : ∀ v, l.deref = .lit v → op.isPattern = true) :
    (Test.ofComparison op l r).toOption = none := by
  unfold Test.ofComparison
  split
  · rename_i v hv
    exact absurd hv (hr v)
  · rename_i v hv _
    simp only [hl v hv, if_true]
    rfl
  · rfl

/-- A comparison compiles alike with its parentheses taken out. -/
theorem Test.ofComparison_unparen (op : CompareOp) (l r : Expr) :
    (Test.ofComparison op l r).toOption = (Test.ofComparison op l.unparen r.unparen).toOption := by
  by_cases hright : ∃ v, r.deref = .lit v
  · obtain ⟨v, hv⟩ := hright
    exact Test.ofComparison_unparen_of_right hv
  have hr : ∀ v, r.deref ≠ .lit v := fun v h => hright ⟨v, h⟩
  have hr' : ∀ v, r.unparen.deref ≠ .lit v := by
    intro v h
    rw [Expr.deref_unparen, ← Expr.deref_eq_lit_iff] at h
    exact hr v h
  have hl_iff (v : Literal) : l.unparen.deref = .lit v ↔ l.deref = .lit v := by
    rw [Expr.deref_unparen, Expr.deref_eq_lit_iff]
  by_cases hswap : ∃ v, l.deref = .lit v ∧ op.isPattern = false
  · -- the literal on the left moves to the right, with the operator mirrored
    obtain ⟨v, hv, hop⟩ := hswap
    rw [Test.ofComparison_swap hv hr hop, Test.ofComparison_swap ((hl_iff v).2 hv) hr' hop]
    exact Test.ofComparison_unparen_of_right hv
  · have hl (v : Literal) (hv : l.deref = .lit v) : op.isPattern = true := by
      simpa [hv] using hswap
    rw [Test.ofComparison_toOption_eq_none hr hl,
      Test.ofComparison_toOption_eq_none hr' fun v hv => hl v ((hl_iff v).1 hv)]

/-! ## Built-in functions -/

theorem stringArg?_unparen (e : Expr) : stringArg? e.unparen = stringArg? e := by
  unfold stringArg?
  rw [Expr.deref_unparen]
  split
  · rename_i s hs
    rw [(Expr.deref_eq_lit_iff e _).2 hs]
  · rename_i hs
    split
    · rename_i s hs'
      exact absurd ((Expr.deref_eq_lit_iff e _).1 hs') (hs s)
    · rfl

theorem fieldArg?_unparen (e : Expr) : fieldArg? e.unparen = fieldArg? e := by
  unfold fieldArg?
  rw [Expr.deref_unparen]
  split
  · rename_i n hn
    rw [(Expr.deref_eq_field_iff e n).2 hn]
  · rename_i hn
    split
    · rename_i n hn'
      exact absurd ((Expr.deref_eq_field_iff e n).1 hn') (hn n)
    · rfl

/-- The terms of a phrase are read alike through parentheses. -/
theorem phraseTerms_unparen (args : List Expr) :
    (phraseTerms (Expr.unparenAll args)).toOption = (phraseTerms args).toOption := by
  unfold phraseTerms
  rw [toOption_bind, toOption_bind]
  congr 1
  induction args with
  | nil => rfl
  | cons a rest ih =>
    simp only [Expr.unparenAll, List.mapM_cons, toOption_bind, stringArg?_unparen]
    split
    · simp only [ih]
    · rfl

/-- A built-in function reads its arguments alike through parentheses. -/
theorem Builtin.ofCall?_unparen (qname : String) (args : List Expr) :
    (Builtin.ofCall? qname (Expr.unparenAll args)).map Except.toOption =
      (Builtin.ofCall? qname args).map Except.toOption := by
  unfold Builtin.ofCall?
  simp only [Expr.fieldsAll_unparenAll]
  split
  · rfl
  · rfl
  · rfl
  · -- `filter:includeText`: a field and a string
    rcases args with _ | ⟨a, _ | ⟨b, _ | ⟨c, rest⟩⟩⟩
    · rfl
    · rfl
    · simp only [Expr.unparenAll, Expr.fields_unparen, stringArg?_unparen]
    · rfl
  · -- `content:phrase`: a field and the terms
    rcases args with _ | ⟨a, rest⟩
    · rfl
    · simp only [Expr.unparenAll, fieldArg?_unparen, Option.map_some]
      split
      · rfl
      · simp only [toOption_except_map, phraseTerms_unparen]
  · -- `content:within`: a field, a distance and the terms
    rcases args with _ | ⟨a, _ | ⟨d, rest⟩⟩
    · rfl
    · rfl
    · simp only [Expr.unparenAll, fieldArg?_unparen, Option.map_some, Expr.deref_unparen]
      split
      · rfl
      · -- the distance is an integer literal through parentheses on both sides, or on neither
        split
        · rename_i n hn
          rw [(Expr.deref_eq_lit_iff d _).2 hn]
          by_cases hneg : n < 0
          · simp only [hneg, if_true]
          · simp only [hneg, if_false, toOption_except_map, phraseTerms_unparen]
        · rename_i hn
          split
          · rename_i n hn'
            exact absurd ((Expr.deref_eq_lit_iff d _).1 hn') (hn n)
          · rfl
  · rfl

/-! ## Filters -/

/-- A call compiles when its function is a built-in that accepts the arguments. -/
theorem Condition.ofExpr_call_toOption (ns name : String) (args : List Expr) :
    (Condition.ofExpr (.call ns name args)).toOption =
      ((Builtin.ofCall? (Expr.qualifiedName ns name) args).bind Except.toOption).map .builtin := by
  simp only [Condition.ofExpr]
  split <;> simp_all [Except.toOption]

mutual

/-- Compiling reads through parentheses: a filter compiles exactly when it does with its
parentheses taken out, and then to the same condition. -/
theorem Condition.ofExpr_unparen : (e : Expr) →
    (Condition.ofExpr e.unparen).toOption = (Condition.ofExpr e).toOption
  | .compare op l r => by
    simp only [Expr.unparen, Condition.ofExpr, toOption_map, Test.ofComparison_unparen op l r]
  | .arith op l r => by
    simp only [Expr.unparen, Condition.ofExpr, toOption_map, Calc.ofExpr,
      Calc.operand_unparen (.arith op l r) "" "" (.arith op l r) (.arith op l.unparen r.unparen)]
  | .and ts | .or ts => by
    simp only [Expr.unparen, Condition.ofExpr, toOption_map, Condition.ofExprs_unparenAll ts]
  | .not t => by
    simp only [Expr.unparen, Condition.ofExpr, toOption_map, Condition.ofExpr_unparen t]
  | .paren t => by simp only [Expr.unparen, Condition.ofExpr, Condition.ofExpr_unparen t]
  | .call ns name args => by
    simp only [Expr.unparen, Condition.ofExpr_call_toOption]
    congr 1
    -- the built-in reads the arguments alike, so it accepts them alike
    calc (Builtin.ofCall? _ (Expr.unparenAll args)).bind Except.toOption
        = ((Builtin.ofCall? _ (Expr.unparenAll args)).map Except.toOption).bind id := by
          rw [Option.bind_map]; rfl
      _ = ((Builtin.ofCall? _ args).map Except.toOption).bind id := by
          rw [Builtin.ofCall?_unparen]
      _ = (Builtin.ofCall? _ args).bind Except.toOption := by
          rw [Option.bind_map]; rfl
  | .field _ | .lit _ | .hole => rfl

theorem Condition.ofExprs_unparenAll : (ts : List Expr) →
    (Condition.ofExprs (Expr.unparenAll ts)).toOption = (Condition.ofExprs ts).toOption
  | [] => rfl
  | t :: ts => by
    simp only [Expr.unparenAll, Condition.ofExprs, toOption_bind, Condition.ofExpr_unparen t,
      Condition.ofExprs_unparenAll ts]

end

end EdgeQuery.Eval
