import EdgeQuery.Proofs.DnfMeaning
/-! # The branch limit of the normal form

The normal form can be computed with a limit on its branches. The limit is checked on
what has been built so far, after each term of a union and after each factor of a product,
at every depth of the filter, and the first breach fails the whole computation. This module
shows that the check is exact: when every conjunction and disjunction has a term, the
computation with a positive limit fails exactly when the normal form without a limit has
more branches than the limit, and otherwise gives that normal form (`ofExpr_limit_exact`).

The reason is that nothing built on the way is larger than the final result. A filter
whose junctions all have terms has at least one branch, so a union only grows as terms
are added and a product only grows as factors are multiplied in; the branches of a term
are then never more than those of the whole. An empty disjunction has no branches and
would make a product collapse to nothing after a factor that broke the limit, so the
condition on junctions is needed. -/

namespace EdgeQuery.Query

namespace Expr

mutual

/-- Whether every conjunction and disjunction that the normal form looks through has at
least one term. Junctions inside a leaf (a comparison, arithmetic or a call) are not looked
at. -/
def junctionsHaveTerms : Expr → Bool
  | paren t | not t => t.junctionsHaveTerms
  | and ts | or ts => !ts.isEmpty && junctionsHaveTermsAll ts
  | _ => true

/-- Whether every term of a list passes `junctionsHaveTerms`. -/
def junctionsHaveTermsAll : List Expr → Bool
  | [] => true
  | t :: ts => t.junctionsHaveTerms && junctionsHaveTermsAll ts

end

theorem junctionsHaveTermsAll_cons {t : Expr} {ts : List Expr} :
    junctionsHaveTermsAll (t :: ts) = true ↔
      t.junctionsHaveTerms = true ∧ junctionsHaveTermsAll ts = true := by
  simp [junctionsHaveTermsAll]

theorem junctionsHaveTerms_junction {ts : List Expr} (h : (!ts.isEmpty && junctionsHaveTermsAll ts) = true) :
    ts ≠ [] ∧ junctionsHaveTermsAll ts = true := by
  simpa [List.isEmpty_iff] using h

end Expr

namespace Dnf

theorem length_product (L R : List Branch) : (product L R).length = L.length * R.length := by
  induction L with
  | nil => simp [product]
  | cons l L ih =>
    rw [product, List.flatMap_cons, ← product, List.length_append, List.length_map, ih,
      List.length_cons, Nat.succ_mul, Nat.add_comm]

/-- A list longer than one that breaks the limit breaks it too. -/
theorem exceeds_mono {limit : Nat} {L M : List Branch} (h : exceeds limit L = true)
    (hle : L.length ≤ M.length) : exceeds limit M = true := by
  simp only [exceeds, Bool.and_eq_true, decide_eq_true_eq] at h ⊢
  omega

@[simp] theorem exceeds_nil (limit : Nat) : exceeds limit [] = false := by
  simp [exceeds]

/-- A single branch never breaks a limit. -/
theorem exceeds_singleton (limit : Nat) (b : Branch) : exceeds limit [b] = false := by
  simp only [exceeds, List.length_singleton, Bool.and_eq_false_iff, decide_eq_false_iff_not]
  omega

theorem unionOf_cons (limit : Nat) (t : Expr) (ts : List Expr) (negated : Bool) (acc : List Branch) :
    unionOf limit (t :: ts) negated acc = (branchesOf limit t negated).bind fun bs =>
      if exceeds limit (acc ++ bs) then none else unionOf limit ts negated (acc ++ bs) := by
  rw [unionOf]
  cases branchesOf limit t negated <;> rfl

theorem productOf_cons (limit : Nat) (t : Expr) (ts : List Expr) (negated : Bool) (acc : List Branch) :
    productOf limit (t :: ts) negated acc = (branchesOf limit t negated).bind fun bs =>
      if exceeds limit (product acc bs) then none else productOf limit ts negated (product acc bs) := by
  rw [productOf]
  cases branchesOf limit t negated <;> rfl

/-! ## Sizes without a limit -/

mutual

/-- A filter whose junctions have terms has a branch. -/
theorem length_pos_of_branchesOf : (e : Expr) → (negated : Bool) → e.junctionsHaveTerms = true →
    ∀ {bs : List Branch}, branchesOf 0 e negated = some bs → 0 < bs.length
  | .hole, _, _, bs, h => by
    rw [branchesOf] at h
    cases h
    exact Nat.zero_lt_one
  | .paren t, negated, he, bs, h => by
    rw [branchesOf] at h
    exact length_pos_of_branchesOf t negated he h
  | .not t, negated, he, bs, h => by
    rw [branchesOf] at h
    exact length_pos_of_branchesOf t (!negated) he h
  | .and ts, negated, he, bs, h => by
    obtain ⟨hne, hts⟩ := Expr.junctionsHaveTerms_junction he
    rw [branchesOf] at h
    cases negated
    · exact le_length_of_productOf ts false [[]] hts h
    · exact length_pos_of_unionOf hne hts h
  | .or ts, negated, he, bs, h => by
    obtain ⟨hne, hts⟩ := Expr.junctionsHaveTerms_junction he
    rw [branchesOf] at h
    cases negated
    · exact length_pos_of_unionOf hne hts h
    · exact le_length_of_productOf ts true [[]] hts h
  | .field _, _, _, _, h | .lit _, _, _, _, h | .compare .., _, _, _, h | .arith .., _, _, _, h
  | .call .., _, _, _, h => by
    rw [branchesOf_leaf rfl] at h
    cases h
    exact Nat.zero_lt_one

/-- Each term adds a branch or more to a union. -/
theorem le_length_of_unionOf : (ts : List Expr) → (negated : Bool) → (acc : List Branch) →
    Expr.junctionsHaveTermsAll ts = true → ∀ {bs : List Branch}, unionOf 0 ts negated acc = some bs →
    acc.length + ts.length ≤ bs.length
  | [], _, acc, _, bs, h => by
    rw [unionOf] at h
    cases h
    simp
  | t :: ts, negated, acc, hts, bs, h => by
    obtain ⟨ht, hts⟩ := Expr.junctionsHaveTermsAll_cons.1 hts
    rw [unionOf_cons] at h
    obtain ⟨cs, hcs, h⟩ := Option.bind_eq_some_iff.1 h
    rw [exceeds_zero, if_neg Bool.false_ne_true] at h
    have hpos := length_pos_of_branchesOf t negated ht hcs
    have hrest := le_length_of_unionOf ts negated (acc ++ cs) hts h
    simp only [List.length_append, List.length_cons] at hrest ⊢
    omega

/-- A union of at least one term has a branch. -/
theorem length_pos_of_unionOf {ts : List Expr} {negated : Bool} (hne : ts ≠ [])
    (hts : Expr.junctionsHaveTermsAll ts = true) {bs : List Branch} (h : unionOf 0 ts negated [] = some bs) :
    0 < bs.length := by
  have hle := le_length_of_unionOf ts negated [] hts h
  have hpos := List.length_pos_iff.2 hne
  rw [List.length_nil, Nat.zero_add] at hle
  omega

/-- A product never shrinks as factors with branches are multiplied in. -/
theorem le_length_of_productOf : (ts : List Expr) → (negated : Bool) → (acc : List Branch) →
    Expr.junctionsHaveTermsAll ts = true → ∀ {bs : List Branch}, productOf 0 ts negated acc = some bs →
    acc.length ≤ bs.length
  | [], _, acc, _, bs, h => by
    rw [productOf] at h
    cases h
    exact Nat.le_refl _
  | t :: ts, negated, acc, hts, bs, h => by
    obtain ⟨ht, hts⟩ := Expr.junctionsHaveTermsAll_cons.1 hts
    rw [productOf_cons] at h
    obtain ⟨cs, hcs, h⟩ := Option.bind_eq_some_iff.1 h
    rw [exceeds_zero, if_neg Bool.false_ne_true] at h
    have hpos := length_pos_of_branchesOf t negated ht hcs
    have hrest := le_length_of_productOf ts negated (product acc cs) hts h
    rw [length_product] at hrest
    exact Nat.le_trans (Nat.le_mul_of_pos_right _ hpos) hrest

end

/-! ## The limit checked on the way -/

mutual

/-- With a limit, the branches of a filter whose junctions have terms are those without a
limit, unless they break it: no check on the way fails before the last one. -/
theorem branchesOf_limit (limit : Nat) : (e : Expr) → (negated : Bool) → e.junctionsHaveTerms = true →
    ∀ {bs : List Branch}, branchesOf 0 e negated = some bs →
    branchesOf limit e negated = if exceeds limit bs then none else some bs
  | .hole, _, _, bs, h => by
    rw [branchesOf] at h ⊢
    cases h
    rw [exceeds_singleton, if_neg Bool.false_ne_true]
  | .paren t, negated, he, bs, h => by
    rw [branchesOf] at h ⊢
    exact branchesOf_limit limit t negated he h
  | .not t, negated, he, bs, h => by
    rw [branchesOf] at h ⊢
    exact branchesOf_limit limit t (!negated) he h
  | .and ts, negated, he, bs, h => by
    have hts := (Expr.junctionsHaveTerms_junction he).2
    rw [branchesOf] at h ⊢
    cases negated
    · exact productOf_limit limit ts false [[]] hts Nat.zero_lt_one (exceeds_singleton limit []) h
    · exact unionOf_limit limit ts true [] hts (exceeds_nil limit) h
  | .or ts, negated, he, bs, h => by
    have hts := (Expr.junctionsHaveTerms_junction he).2
    rw [branchesOf] at h ⊢
    cases negated
    · exact unionOf_limit limit ts false [] hts (exceeds_nil limit) h
    · exact productOf_limit limit ts true [[]] hts Nat.zero_lt_one (exceeds_singleton limit []) h
  | .field _, _, _, _, h | .lit _, _, _, _, h | .compare .., _, _, _, h | .arith .., _, _, _, h
  | .call .., _, _, _, h => by
    rw [branchesOf_leaf rfl] at h ⊢
    cases h
    rw [exceeds_singleton, if_neg Bool.false_ne_true]

/-- A union started below the limit breaks it exactly when the whole union does. -/
theorem unionOf_limit (limit : Nat) : (ts : List Expr) → (negated : Bool) → (acc : List Branch) →
    Expr.junctionsHaveTermsAll ts = true → exceeds limit acc = false →
    ∀ {bs : List Branch}, unionOf 0 ts negated acc = some bs →
    unionOf limit ts negated acc = if exceeds limit bs then none else some bs
  | [], _, acc, _, hacc, bs, h => by
    rw [unionOf] at h ⊢
    cases h
    rw [hacc, if_neg Bool.false_ne_true]
  | t :: ts, negated, acc, hts, hacc, bs, h => by
    obtain ⟨ht, hts⟩ := Expr.junctionsHaveTermsAll_cons.1 hts
    rw [unionOf_cons] at h ⊢
    obtain ⟨cs, hcs, h⟩ := Option.bind_eq_some_iff.1 h
    rw [exceeds_zero, if_neg Bool.false_ne_true] at h
    -- the union so far and the term's own branches are no more than the whole union
    have hle : (acc ++ cs).length ≤ bs.length :=
      Nat.le_trans (Nat.le_add_right _ _) (le_length_of_unionOf ts negated (acc ++ cs) hts h)
    have hcs_le : cs.length ≤ bs.length := Nat.le_trans (by simp) hle
    rw [branchesOf_limit limit t negated ht hcs]
    cases hc : exceeds limit cs
    · rw [if_neg Bool.false_ne_true, Option.bind_some]
      cases hacc' : exceeds limit (acc ++ cs)
      · rw [if_neg Bool.false_ne_true]
        exact unionOf_limit limit ts negated (acc ++ cs) hts hacc' h
      · rw [if_pos rfl, exceeds_mono hacc' hle, if_pos rfl]
    · rw [if_pos rfl, Option.bind_none, exceeds_mono hc hcs_le, if_pos rfl]

/-- A product started below the limit, from at least one branch, breaks it exactly when the
whole product does. -/
theorem productOf_limit (limit : Nat) : (ts : List Expr) → (negated : Bool) → (acc : List Branch) →
    Expr.junctionsHaveTermsAll ts = true → 0 < acc.length → exceeds limit acc = false →
    ∀ {bs : List Branch}, productOf 0 ts negated acc = some bs →
    productOf limit ts negated acc = if exceeds limit bs then none else some bs
  | [], _, acc, _, _, hacc, bs, h => by
    rw [productOf] at h ⊢
    cases h
    rw [hacc, if_neg Bool.false_ne_true]
  | t :: ts, negated, acc, hts, hpos, hacc, bs, h => by
    obtain ⟨ht, hts⟩ := Expr.junctionsHaveTermsAll_cons.1 hts
    rw [productOf_cons] at h ⊢
    obtain ⟨cs, hcs, h⟩ := Option.bind_eq_some_iff.1 h
    rw [exceeds_zero, if_neg Bool.false_ne_true] at h
    -- with a branch on each side, a product is no smaller than either side
    have hcs_pos := length_pos_of_branchesOf t negated ht hcs
    have hle : (product acc cs).length ≤ bs.length := le_length_of_productOf ts negated _ hts h
    have hcs_le : cs.length ≤ bs.length := by
      rw [length_product] at hle
      exact Nat.le_trans (Nat.le_mul_of_pos_left _ hpos) hle
    rw [branchesOf_limit limit t negated ht hcs]
    cases hc : exceeds limit cs
    · rw [if_neg Bool.false_ne_true, Option.bind_some]
      cases hacc' : exceeds limit (product acc cs)
      · rw [if_neg Bool.false_ne_true]
        have hprod_pos : 0 < (product acc cs).length := by
          rw [length_product]
          exact Nat.mul_pos hpos hcs_pos
        exact productOf_limit limit ts negated _ hts hprod_pos hacc' h
      · rw [if_pos rfl, exceeds_mono hacc' hle, if_pos rfl]
    · rw [if_pos rfl, Option.bind_none, exceeds_mono hc hcs_le, if_pos rfl]

end

/-- The branch limit is exact: when every junction of a filter has a term, the normal form
with a positive limit fails with `tooLarge` exactly when the normal form without a limit
has more branches than the limit, and is that normal form otherwise. -/
theorem ofExpr_limit_exact (e : Expr) (he : e.junctionsHaveTerms = true) {limit : Nat} (hl : 0 < limit) :
    ∃ d, ofExpr 0 e = .ok d ∧
      ofExpr limit e = if limit < d.branches.length then .error tooLarge else .ok d := by
  obtain ⟨bs, h, -⟩ := branchesOf_kleene e false
  refine ⟨⟨bs⟩, by rw [ofExpr, h], ?_⟩
  have hex : exceeds limit bs = decide (limit < bs.length) := by
    simp [exceeds, hl]
  rw [ofExpr, branchesOf_limit limit e false he h, hex]
  by_cases hlt : limit < bs.length
  · simp [hlt]
  · simp [hlt]

/-- The test's filter `(A == 1 || A == 2) && (B == 1 || B == 2)` has four branches: a limit
of three fails and a limit of four gives them all. -/
theorem ofExpr_limit_four_branches :
    let a1 : Expr := .compare .eq (.field "A") (.lit (.int 1))
    let a2 : Expr := .compare .eq (.field "A") (.lit (.int 2))
    let b1 : Expr := .compare .eq (.field "B") (.lit (.int 1))
    let b2 : Expr := .compare .eq (.field "B") (.lit (.int 2))
    let e : Expr := .and [.paren (.or [a1, a2]), .paren (.or [b1, b2])]
    e.junctionsHaveTerms = true ∧ 0 < 3 ∧
      ∃ d, ofExpr 0 e = .ok d ∧
        ofExpr 3 e = if 3 < d.branches.length then .error tooLarge else .ok d :=
  ⟨rfl, by decide, ofExpr_limit_exact _ rfl (by decide)⟩

end Dnf

end EdgeQuery.Query
