import EdgeQuery.Query.Dnf
/-! # What the disjunctive normal form means

A filter is read in Kleene's strong three-valued logic: each leaf (a comparison, a call, a
field, a literal, arithmetic) takes true, false or unknown, negation swaps true and false,
a conjunction is false as soon as a term is and a disjunction true as soon as a term is.
The main theorem shows that the normal form without a limit always exists and has, under
every assignment of values to the leaves, the value of the filter: the disjunction over its
branches of the conjunction of their atoms, a negated atom giving the negation of its
leaf's value. Its atoms are leaves of the filter.

The normal form is built by pushing a negation flag down, so the proof reads the filter
under a negation or not (`Expr.kleeneAt`): De Morgan's laws turn a negated conjunction into
the disjunction of the negated terms, which the union of branches computes
(`Dnf.kleeneOf_append`), and a conjunction into the product of branches, which is sound by
distributivity (`Dnf.kleeneOf_product`). Branches, unions and products are related to
values by induction on the lists, and the normal form to the filter by one induction over
the filter with its junctions' terms.

An empty slot adds no condition to its branch, negated or not: it reads as true where it
stands, which no single value of the slot does, since true and its negation differ.
`Expr.kleene` therefore reads an empty slot as a value that each negation above it negates,
starting from true; a filter without empty slots never reads it. -/

namespace EdgeQuery.Query

/-- Kleene's strong three-valued logic. -/
inductive Kleene where
  | no
  | unknown
  | yes
  deriving DecidableEq, Repr

namespace Kleene

/-- Negation swaps true and false. -/
def not : Kleene → Kleene
  | no => yes
  | unknown => unknown
  | yes => no

/-- Conjunction: false wins over unknown, which wins over true. -/
def and : Kleene → Kleene → Kleene
  | no, _ | _, no => no
  | yes, b => b
  | unknown, _ => unknown

/-- Disjunction: true wins over unknown, which wins over false. -/
def or : Kleene → Kleene → Kleene
  | yes, _ | _, yes => yes
  | no, b => b
  | unknown, _ => unknown

/-- A value read under a negation or not. -/
def polar (negated : Bool) (v : Kleene) : Kleene := if negated then v.not else v

variable (a b c : Kleene)

@[simp] theorem yes_and : yes.and a = a := by cases a <;> rfl
@[simp] theorem and_yes : a.and yes = a := by cases a <;> rfl
@[simp] theorem no_or : no.or a = a := by cases a <;> rfl
@[simp] theorem or_no : a.or no = a := by cases a <;> rfl
@[simp] theorem not_not : a.not.not = a := by cases a <;> rfl

theorem and_assoc : (a.and b).and c = a.and (b.and c) := by
  cases a <;> cases b <;> cases c <;> rfl

theorem or_assoc : (a.or b).or c = a.or (b.or c) := by
  cases a <;> cases b <;> cases c <;> rfl

theorem and_or_left : a.and (b.or c) = (a.and b).or (a.and c) := by
  cases a <;> cases b <;> cases c <;> rfl

theorem or_and_right : (a.or b).and c = (a.and c).or (b.and c) := by
  cases a <;> cases b <;> cases c <;> rfl

theorem not_and : (a.and b).not = a.not.or b.not := by
  cases a <;> cases b <;> rfl

theorem not_or : (a.or b).not = a.not.and b.not := by
  cases a <;> cases b <;> rfl

@[simp] theorem polar_false : polar false a = a := rfl
@[simp] theorem polar_true : polar true a = a.not := rfl

theorem polar_not (negated : Bool) : polar negated a.not = polar (!negated) a := by
  cases negated <;> simp

theorem not_polar (negated : Bool) : (polar negated a).not = polar (!negated) a := by
  cases negated <;> simp

end Kleene

namespace Expr

mutual

/-- The Kleene value of a filter whose leaves take the values `σ`. An empty slot reads as
`slot`, which is negated under each negation above it. -/
def kleene (σ : Expr → Kleene) (slot : Kleene) : Expr → Kleene
  | hole => slot
  | paren t => t.kleene σ slot
  | not t => (t.kleene σ slot.not).not
  | and ts => kleeneAnd σ slot ts
  | or ts => kleeneOr σ slot ts
  | e => σ e

/-- The Kleene value of a conjunction. -/
def kleeneAnd (σ : Expr → Kleene) (slot : Kleene) : List Expr → Kleene
  | [] => .yes
  | t :: ts => (t.kleene σ slot).and (kleeneAnd σ slot ts)

/-- The Kleene value of a disjunction. -/
def kleeneOr (σ : Expr → Kleene) (slot : Kleene) : List Expr → Kleene
  | [] => .no
  | t :: ts => (t.kleene σ slot).or (kleeneOr σ slot ts)

end

mutual

/-- The leaves of a filter: the nodes below its connectives, in order. -/
def leaves : Expr → List Expr
  | hole => []
  | paren t => t.leaves
  | not t => t.leaves
  | and ts => leavesAll ts
  | or ts => leavesAll ts
  | e => [e]

/-- The leaves of a list of filters. -/
def leavesAll : List Expr → List Expr
  | [] => []
  | t :: ts => t.leaves ++ leavesAll ts

end

/-- A leaf is its own only leaf. -/
theorem leaves_leaf {e : Expr} (he : e.isConnective = false) : e.leaves = [e] := by
  cases e with
  | and _ | or _ | not _ | paren _ | hole => simp [isConnective] at he
  | _ => rfl

mutual

/-- Leaves are no connectives and no empty slots. -/
theorem isConnective_of_mem_leaves : (e : Expr) → ∀ {l : Expr}, l ∈ e.leaves → l.isConnective = false
  | hole, _, h => by simp [leaves] at h
  | paren t, _, h => isConnective_of_mem_leaves t h
  | not t, _, h => isConnective_of_mem_leaves t h
  | and ts, _, h => isConnective_of_mem_leavesAll ts h
  | or ts, _, h => isConnective_of_mem_leavesAll ts h
  | field _, _, h | lit _, _, h | compare .., _, h | arith .., _, h | call .., _, h => by
    rw [leaves_leaf rfl, List.mem_singleton] at h
    rw [h]
    rfl

theorem isConnective_of_mem_leavesAll : (ts : List Expr) → ∀ {l : Expr}, l ∈ leavesAll ts →
    l.isConnective = false
  | [], _, h => by simp [leavesAll] at h
  | t :: ts, _, h => by
    rw [leavesAll, List.mem_append] at h
    rcases h with h | h
    · exact isConnective_of_mem_leaves t h
    · exact isConnective_of_mem_leavesAll ts h

end

end Expr

namespace Dnf

/-- The value of an atom: its leaf's, negated if the atom is. -/
def atomKleene (σ : Expr → Kleene) (a : Atom) : Kleene := Kleene.polar a.negated (σ a.expr)

/-- The value of a branch: the conjunction of its atoms. -/
def branchKleene (σ : Expr → Kleene) (b : Branch) : Kleene :=
  b.foldr (fun a v => (atomKleene σ a).and v) .yes

/-- The value of a list of branches: the disjunction of the branches. -/
def kleeneOf (σ : Expr → Kleene) (bs : List Branch) : Kleene :=
  bs.foldr (fun b v => (branchKleene σ b).or v) .no

/-- The value of a normal form. -/
def kleene (σ : Expr → Kleene) (d : Dnf) : Kleene := kleeneOf σ d.branches

variable (σ : Expr → Kleene)

theorem branchKleene_append (l r : Branch) :
    branchKleene σ (l ++ r) = (branchKleene σ l).and (branchKleene σ r) := by
  induction l with
  | nil => simp [branchKleene]
  | cons a l ih =>
    simp only [List.cons_append, branchKleene, List.foldr_cons] at ih ⊢
    rw [ih, Kleene.and_assoc]

theorem kleeneOf_append (L R : List Branch) :
    kleeneOf σ (L ++ R) = (kleeneOf σ L).or (kleeneOf σ R) := by
  induction L with
  | nil => simp [kleeneOf]
  | cons b L ih =>
    simp only [List.cons_append, kleeneOf, List.foldr_cons] at ih ⊢
    rw [ih, Kleene.or_assoc]

/-- Extending every branch by `l` conjoins `l`'s value. -/
theorem kleeneOf_map_append (l : Branch) (R : List Branch) :
    kleeneOf σ (R.map (l ++ ·)) = (branchKleene σ l).and (kleeneOf σ R) := by
  induction R with
  | nil => cases branchKleene σ l <;> rfl
  | cons r R ih =>
    simp only [List.map_cons, kleeneOf, List.foldr_cons] at ih ⊢
    rw [ih, branchKleene_append, Kleene.and_or_left]

/-- The branches of a product hold when a branch of each side does: the product is the
conjunction. -/
theorem kleeneOf_product (L R : List Branch) :
    kleeneOf σ (product L R) = (kleeneOf σ L).and (kleeneOf σ R) := by
  induction L with
  | nil => rfl
  | cons l L ih =>
    rw [product, List.flatMap_cons, ← product, kleeneOf_append, ih, kleeneOf_map_append]
    simp only [kleeneOf, List.foldr_cons]
    rw [Kleene.or_and_right]

end Dnf

namespace Expr

variable (σ : Expr → Kleene)

/-- The value of a filter read under a negation or not, with an empty slot true where it
stands. -/
def kleeneAt (negated : Bool) (e : Expr) : Kleene :=
  Kleene.polar negated (e.kleene σ (Kleene.polar negated .yes))

/-- The conjunction of the terms' values under a negation or not. -/
def kleeneAndAt (negated : Bool) (ts : List Expr) : Kleene :=
  ts.foldr (fun t v => (t.kleeneAt σ negated).and v) .yes

/-- The disjunction of the terms' values under a negation or not. -/
def kleeneOrAt (negated : Bool) (ts : List Expr) : Kleene :=
  ts.foldr (fun t v => (t.kleeneAt σ negated).or v) .no

/-- A leaf takes its value, negated or not. -/
theorem kleeneAt_leaf {e : Expr} (he : e.isConnective = false) (negated : Bool) :
    e.kleeneAt σ negated = Kleene.polar negated (σ e) := by
  cases e with
  | and _ | or _ | not _ | paren _ | hole => simp [isConnective] at he
  | _ => rfl

theorem kleeneAt_hole (negated : Bool) : hole.kleeneAt σ negated = .yes := by
  cases negated <;> rfl

theorem kleeneAt_paren (negated : Bool) (t : Expr) :
    (paren t).kleeneAt σ negated = t.kleeneAt σ negated := rfl

/-- A negation is its term read the other way. -/
theorem kleeneAt_not (negated : Bool) (t : Expr) :
    (not t).kleeneAt σ negated = t.kleeneAt σ !negated := by
  simp only [kleeneAt, kleene, Kleene.polar_not, Kleene.not_polar]

theorem kleeneAnd_yes (ts : List Expr) : kleeneAnd σ .yes ts = kleeneAndAt σ false ts := by
  induction ts with
  | nil => rfl
  | cons t ts ih => simp only [kleeneAnd, kleeneAndAt, List.foldr_cons] at ih ⊢; rw [ih]; rfl

theorem kleeneOr_yes (ts : List Expr) : kleeneOr σ .yes ts = kleeneOrAt σ false ts := by
  induction ts with
  | nil => rfl
  | cons t ts ih => simp only [kleeneOr, kleeneOrAt, List.foldr_cons] at ih ⊢; rw [ih]; rfl

/-- De Morgan: a negated conjunction is the disjunction of the negated terms. -/
theorem not_kleeneAnd_no (ts : List Expr) : (kleeneAnd σ .no ts).not = kleeneOrAt σ true ts := by
  induction ts with
  | nil => rfl
  | cons t ts ih =>
    simp only [kleeneAnd, kleeneOrAt, List.foldr_cons] at ih ⊢
    rw [Kleene.not_and, ih]
    rfl

/-- De Morgan: a negated disjunction is the conjunction of the negated terms. -/
theorem not_kleeneOr_no (ts : List Expr) : (kleeneOr σ .no ts).not = kleeneAndAt σ true ts := by
  induction ts with
  | nil => rfl
  | cons t ts ih =>
    simp only [kleeneOr, kleeneAndAt, List.foldr_cons] at ih ⊢
    rw [Kleene.not_or, ih]
    rfl

theorem kleeneAt_and (negated : Bool) (ts : List Expr) :
    (and ts).kleeneAt σ negated =
      if negated then kleeneOrAt σ true ts else kleeneAndAt σ false ts := by
  cases negated
  · exact kleeneAnd_yes σ ts
  · exact not_kleeneAnd_no σ ts

theorem kleeneAt_or (negated : Bool) (ts : List Expr) :
    (or ts).kleeneAt σ negated =
      if negated then kleeneAndAt σ true ts else kleeneOrAt σ false ts := by
  cases negated
  · exact kleeneOr_yes σ ts
  · exact not_kleeneOr_no σ ts

end Expr

namespace Dnf

@[simp] theorem exceeds_zero (bs : List Branch) : exceeds 0 bs = false := rfl

theorem kleeneOf_unit (σ : Expr → Kleene) : kleeneOf σ [[]] = .yes := rfl

/-- A leaf is one branch of one atom. -/
theorem branchesOf_leaf {e : Expr} (he : e.isConnective = false) (limit : Nat) (negated : Bool) :
    branchesOf limit e negated = some [[⟨e, negated⟩]] := by
  cases e with
  | and _ | or _ | not _ | paren _ | hole => simp [Expr.isConnective] at he
  | _ => rfl

theorem leaf_kleene (e : Expr) (he : e.isConnective = false) (negated : Bool) :
    ∃ bs, branchesOf 0 e negated = some bs ∧ ∀ σ, kleeneOf σ bs = e.kleeneAt σ negated := by
  refine ⟨_, branchesOf_leaf he 0 negated, fun σ => ?_⟩
  simp [kleeneOf, branchKleene, atomKleene, Expr.kleeneAt_leaf σ he]

mutual

/-- Without a limit, the branches of a filter under a negation or not exist and hold exactly
when the filter so read does. -/
theorem branchesOf_kleene : (e : Expr) → (negated : Bool) →
    ∃ bs, branchesOf 0 e negated = some bs ∧ ∀ σ, kleeneOf σ bs = e.kleeneAt σ negated
  | .hole, negated => ⟨[[]], by rw [branchesOf], fun σ => (Expr.kleeneAt_hole σ negated).symm⟩
  | .paren t, negated => by
    rw [branchesOf]
    simpa only [Expr.kleeneAt_paren] using branchesOf_kleene t negated
  | .not t, negated => by
    rw [branchesOf]
    simpa only [Expr.kleeneAt_not] using branchesOf_kleene t !negated
  | .and ts, negated => by
    rw [branchesOf]
    cases negated
    · obtain ⟨bs, h, hv⟩ := productOf_kleene ts false [[]]
      exact ⟨bs, h, fun σ => by rw [hv, Expr.kleeneAt_and, kleeneOf_unit, Kleene.yes_and]; rfl⟩
    · obtain ⟨bs, h, hv⟩ := unionOf_kleene ts true []
      exact ⟨bs, h, fun σ => by rw [hv, Expr.kleeneAt_and, if_pos rfl]; exact Kleene.no_or _⟩
  | .or ts, negated => by
    rw [branchesOf]
    cases negated
    · obtain ⟨bs, h, hv⟩ := unionOf_kleene ts false []
      exact ⟨bs, h, fun σ => by rw [hv, Expr.kleeneAt_or, if_neg Bool.false_ne_true]; exact Kleene.no_or _⟩
    · obtain ⟨bs, h, hv⟩ := productOf_kleene ts true [[]]
      exact ⟨bs, h, fun σ => by rw [hv, Expr.kleeneAt_or, kleeneOf_unit, Kleene.yes_and]; rfl⟩
  | .field n, negated => leaf_kleene (.field n) rfl negated
  | .lit v, negated => leaf_kleene (.lit v) rfl negated
  | .compare op l r, negated => leaf_kleene (.compare op l r) rfl negated
  | .arith op l r, negated => leaf_kleene (.arith op l r) rfl negated
  | .call ns name args, negated => leaf_kleene (.call ns name args) rfl negated

/-- The union of the branches of terms, after `acc`, is the disjunction. -/
theorem unionOf_kleene : (ts : List Expr) → (negated : Bool) → (acc : List Branch) →
    ∃ bs, unionOf 0 ts negated acc = some bs ∧
      ∀ σ, kleeneOf σ bs = (kleeneOf σ acc).or (Expr.kleeneOrAt σ negated ts)
  | [], _, acc => ⟨acc, by rw [unionOf], fun σ => by simp [Expr.kleeneOrAt]⟩
  | t :: ts, negated, acc => by
    obtain ⟨bs, h, hv⟩ := branchesOf_kleene t negated
    obtain ⟨cs, h', hv'⟩ := unionOf_kleene ts negated (acc ++ bs)
    refine ⟨cs, by rw [unionOf, h]; exact h', fun σ => ?_⟩
    rw [hv', kleeneOf_append, hv, Kleene.or_assoc]
    rfl

/-- The product of the branches of terms with `acc` is the conjunction. -/
theorem productOf_kleene : (ts : List Expr) → (negated : Bool) → (acc : List Branch) →
    ∃ bs, productOf 0 ts negated acc = some bs ∧
      ∀ σ, kleeneOf σ bs = (kleeneOf σ acc).and (Expr.kleeneAndAt σ negated ts)
  | [], _, acc => ⟨acc, by rw [productOf], fun σ => by simp [Expr.kleeneAndAt]⟩
  | t :: ts, negated, acc => by
    obtain ⟨bs, h, hv⟩ := branchesOf_kleene t negated
    obtain ⟨cs, h', hv'⟩ := productOf_kleene ts negated (product acc bs)
    refine ⟨cs, by rw [productOf, h]; exact h', fun σ => ?_⟩
    rw [hv', kleeneOf_product, hv, Kleene.and_assoc]
    rfl

end

/-! ## Atoms are leaves -/

/-- Every atom of the branches stands for one of the expressions `ls`. -/
def AtomsIn (ls : List Expr) (bs : List Branch) : Prop := ∀ b ∈ bs, ∀ a ∈ b, a.expr ∈ ls

namespace AtomsIn

variable {ls : List Expr} {L R : List Branch}

theorem append (hL : AtomsIn ls L) (hR : AtomsIn ls R) : AtomsIn ls (L ++ R) := by
  intro b hb a ha
  rcases List.mem_append.1 hb with hb | hb
  · exact hL b hb a ha
  · exact hR b hb a ha

theorem product (hL : AtomsIn ls L) (hR : AtomsIn ls R) : AtomsIn ls (Dnf.product L R) := by
  intro b hb a ha
  obtain ⟨l, hl, r, hr, rfl⟩ : ∃ l ∈ L, ∃ r ∈ R, l ++ r = b := by
    simpa [Dnf.product] using hb
  rcases List.mem_append.1 ha with ha | ha
  · exact hL l hl a ha
  · exact hR r hr a ha

theorem mono {ls' : List Expr} (h : AtomsIn ls L) (hsub : ∀ l ∈ ls, l ∈ ls') : AtomsIn ls' L :=
  fun b hb a ha => hsub _ (h b hb a ha)

end AtomsIn

theorem leaf_atomsIn {e : Expr} (he : e.isConnective = false) {limit : Nat} {negated : Bool}
    {bs : List Branch} (h : branchesOf limit e negated = some bs) : AtomsIn e.leaves bs := by
  rw [branchesOf_leaf he] at h
  cases h
  simp [AtomsIn, Expr.leaves_leaf he]

mutual

/-- The atoms of a filter's branches are its leaves. -/
theorem branchesOf_atomsIn (limit : Nat) : (e : Expr) → (negated : Bool) → {bs : List Branch} →
    branchesOf limit e negated = some bs → AtomsIn e.leaves bs
  | .hole, _, bs, h => by
    rw [branchesOf] at h
    cases h
    simp [AtomsIn]
  | .paren t, negated, bs, h => by
    rw [branchesOf] at h
    exact branchesOf_atomsIn limit t negated h
  | .not t, negated, bs, h => by
    rw [branchesOf] at h
    exact branchesOf_atomsIn limit t (!negated) h
  | .and ts, negated, bs, h => by
    rw [branchesOf] at h
    split at h
    · exact unionOf_atomsIn limit ts _ [] h (by simp [AtomsIn]) fun _ hl => hl
    · exact productOf_atomsIn limit ts _ [[]] h (by simp [AtomsIn]) fun _ hl => hl
  | .or ts, negated, bs, h => by
    rw [branchesOf] at h
    split at h
    · exact productOf_atomsIn limit ts _ [[]] h (by simp [AtomsIn]) fun _ hl => hl
    · exact unionOf_atomsIn limit ts _ [] h (by simp [AtomsIn]) fun _ hl => hl
  | .field _, _, _, h => leaf_atomsIn rfl h
  | .lit _, _, _, h => leaf_atomsIn rfl h
  | .compare .., _, _, h => leaf_atomsIn rfl h
  | .arith .., _, _, h => leaf_atomsIn rfl h
  | .call .., _, _, h => leaf_atomsIn rfl h

theorem unionOf_atomsIn (limit : Nat) : (ts : List Expr) → (negated : Bool) → (acc : List Branch) →
    {bs : List Branch} → unionOf limit ts negated acc = some bs → ∀ {ls : List Expr},
    AtomsIn ls acc → (∀ l ∈ Expr.leavesAll ts, l ∈ ls) → AtomsIn ls bs
  | [], _, acc, bs, h, _, hacc, _ => by
    rw [unionOf] at h
    cases h
    exact hacc
  | t :: ts, negated, acc, bs, h, ls, hacc, hts => by
    rw [unionOf] at h
    cases ht : branchesOf limit t negated with
    | none => rw [ht] at h; cases h
    | some cs =>
      rw [ht] at h
      simp only at h
      split at h
      · cases h
      · have hsub : ∀ l ∈ t.leaves, l ∈ ls := fun l hl => hts l (by simp [Expr.leavesAll, hl])
        exact unionOf_atomsIn limit ts negated _ h
          (hacc.append ((branchesOf_atomsIn limit t negated ht).mono hsub))
          fun l hl => hts l (by simp [Expr.leavesAll, hl])

theorem productOf_atomsIn (limit : Nat) : (ts : List Expr) → (negated : Bool) → (acc : List Branch) →
    {bs : List Branch} → productOf limit ts negated acc = some bs → ∀ {ls : List Expr},
    AtomsIn ls acc → (∀ l ∈ Expr.leavesAll ts, l ∈ ls) → AtomsIn ls bs
  | [], _, acc, bs, h, _, hacc, _ => by
    rw [productOf] at h
    cases h
    exact hacc
  | t :: ts, negated, acc, bs, h, ls, hacc, hts => by
    rw [productOf] at h
    cases ht : branchesOf limit t negated with
    | none => rw [ht] at h; cases h
    | some cs =>
      rw [ht] at h
      simp only at h
      split at h
      · cases h
      · have hsub : ∀ l ∈ t.leaves, l ∈ ls := fun l hl => hts l (by simp [Expr.leavesAll, hl])
        exact productOf_atomsIn limit ts negated _ h
          (hacc.product ((branchesOf_atomsIn limit t negated ht).mono hsub))
          fun l hl => hts l (by simp [Expr.leavesAll, hl])

end

/-! ## The normal form of a filter -/

/-- The normal form without a limit means what the filter means: it exists, under every
assignment of Kleene values to the leaves it has the Kleene value of the filter, an empty
slot adding no condition, and each of its atoms is a leaf of the filter. -/
theorem ofExpr_kleene (e : Expr) :
    ∃ d, ofExpr 0 e = .ok d ∧ (∀ σ, d.kleene σ = e.kleene σ .yes) ∧
      ∀ b ∈ d.branches, ∀ a ∈ b, a.expr ∈ e.leaves ∧ a.expr.isConnective = false := by
  obtain ⟨bs, h, hv⟩ := branchesOf_kleene e false
  refine ⟨⟨bs⟩, by rw [ofExpr, h], hv, fun b hb a ha => ?_⟩
  have hleaf := branchesOf_atomsIn 0 e false h b hb a ha
  exact ⟨hleaf, Expr.isConnective_of_mem_leaves e hleaf⟩

/-- An empty slot and its negation both take no condition: the normal form of
`slot && !slot` is the one empty branch, true under every assignment, while a conjunction of
a Kleene value with its negation is never true, whatever value the slot is given. -/
theorem ofExpr_empty_slot_negated :
    ofExpr 0 (.and [.hole, .not .hole]) = .ok ⟨[[]]⟩ ∧ (∀ σ, kleene σ ⟨[[]]⟩ = .yes) ∧
      ∀ v : Kleene, v.and v.not ≠ .yes := by
  refine ⟨rfl, fun _ => rfl, fun v => ?_⟩
  cases v <;> decide

end Dnf

end EdgeQuery.Query
