import EdgeQuery.Proofs.KleeneEvaluation
import EdgeQuery.Proofs.PrefixRanges
import EdgeQuery.Plan.Compile
/-! # What the bindings of a branch say of a record

A plan reads its key ranges, its column families and its prefilter off the bindings of the
branches of a filter's normal form (`Bindings.ofBranch`). This module shows what those
bindings say of a record whose branch holds, evaluated without incomplete fields:

* every value a field is bound to by equality is a value of the field (`Bound`);
* every prefix the source is bound to starts a value of the source.

Both hold of a term `FIELD == 'text'` outright. A term `SOURCE =~ 'pattern'` binds the
literal text the plan reads off the pattern (`patternPrefix`), which is sound only where the
pattern, as evaluation compiles it, matches no source that lacks that text in front
(`PrefixReads`); the bindings are true of a record for which that holds of every such
pattern (`Bindings.holdOf_ofBranch`). The step is `Bindings.HoldOf.add`, one term at a time.

From true bindings of one branch follow the prefilter and the column families of the
whole plan: every prefilter field is bound by equality in every branch, so the record's
value is among the allowed ones (`prunePrefilter_allows`), and the column families list
the type and relation pairs of every branch (`columnFamilies_mem`). -/

namespace EdgeQuery.Eval

open Query

/-! ## Tests read back -/

/-- A check of a literal against an operator does not depend on the text it shows in its
errors. -/
theorem Test.check_shown {shown : String} {op : CompareOp} {lit : Literal}
    {pattern : Option Pattern.Program} (h : Test.check shown op lit = .ok pattern) (shown' : String) :
    Test.check shown' op lit = .ok pattern := by
  unfold Test.check at h ⊢
  by_cases hp : op.isPattern = true
  · rw [if_pos hp] at h ⊢
    cases lit with
    | str s => exact h
    | null | bool _ | int _ | float _ => cases h
  · rw [if_neg hp] at h ⊢
    by_cases ho : op.isOrdered = true
    · rw [if_pos ho] at h ⊢
      cases lit with
      | null => cases h
      | bool _ | int _ | float _ | str _ => exact h
    · rw [if_neg ho] at h ⊢
      exact h

/-- The test a comparison of a field with a literal compiles to, oriented with the field
first. -/
theorem Test.ofComparison_field {op : CompareOp} {l r : Expr} {f : String} {lit : Literal}
    (hside : (l.deref = .field f ∧ r.deref = .lit lit) ∨
      (l.deref = .lit lit ∧ r.deref = .field f ∧ (op = .eq ∨ op = .ne)))
    {tst : Test} (h : Test.ofComparison op l r = .ok tst) :
    ∃ pattern, Test.check (Expr.compare op l r).render op lit = .ok pattern ∧
      tst = { target := .field (Bytes.ofString f), op, literal := lit, pattern } := by
  rcases hside with ⟨hl, hr⟩ | ⟨hl, hr, hop⟩
  · simp only [Test.ofComparison, hl, hr, bind, Except.bind, pure, Except.pure] at h
    split at h
    · cases h
    · rename_i pattern hpat
      exact ⟨pattern, hpat, (Except.ok.inj h).symm⟩
  · -- the literal stands on the left: an equality reads the same mirrored
    have hmirror : op.mirror = op := by rcases hop with rfl | rfl <;> rfl
    have hpat : op.isPattern = false := by rcases hop with rfl | rfl <;> rfl
    simp only [Test.ofComparison, hl, hr, bind, Except.bind, pure, Except.pure, hpat, hmirror,
      Bool.false_eq_true, if_false] at h
    split at h
    · cases h
    · rename_i pattern hpat
      exact ⟨pattern, hpat, (Except.ok.inj h).symm⟩

/-- A pattern that compiles is a text compiled to a program. -/
theorem Test.check_like {shown : String} {lit : Literal} {pattern : Option Pattern.Program}
    (h : Test.check shown .like lit = .ok pattern) :
    ∃ text prog, lit = .str text ∧ pattern = some prog := by
  unfold Test.check at h
  have hp : CompareOp.like.isPattern = true := rfl
  rw [if_pos hp] at h
  cases lit with
  | str text =>
    dsimp only at h
    split at h
    · cases h
      exact ⟨text, _, rfl, rfl⟩
    · cases h
  | null | bool _ | int _ | float _ => cases h

theorem Truth.toKleene_eq_yes {t : Truth} : t.toKleene = .yes ↔ t = .yes := by
  cases t <;> decide

theorem Arithmetic.compare_eq_str_eq_yes (a : Arithmetic) (w : Value) (v : String) :
    a.compare .eq w (.str v) = .yes ↔ w.normalized = Bytes.ofString v := by
  simp [Arithmetic.compare, ordered, Truth.ofBool]

/-- A leaf that is true compiles, and evaluates to true. -/
theorem ofExpr_of_leafValue_yes {s : Scope} {x : Expr} (hy : s.leafValue x = .yes) :
    ∃ c, Condition.ofExpr x = .ok c ∧ ((c.eval s).run {}).1 = .yes := by
  cases hc : Condition.ofExpr x with
  | error _ =>
    rw [Scope.leafValue, hc] at hy
    cases hy
  | ok c =>
    rw [Scope.leafValue_of_ok hc, Truth.toKleene_eq_yes] at hy
    exact ⟨c, rfl, hy⟩

/-- In a complete scope a test of a field is its comparison over the field's values. -/
theorem Test.eval_field_of_complete {s : Scope} (hs : s.Complete) (tst : Test) {f : Bytes}
    (htarget : tst.target = .field f) (t : Trace) :
    ((tst.eval s).run t).1 = tst.fieldTruth s.options.arithmetic (s.context.values f) := by
  rw [Test.eval, htarget]
  dsimp only
  rw [Test.evalField_fst, Scope.lookup, Scope.missing_eq_false hs, if_neg Bool.false_ne_true]
  rfl

end EdgeQuery.Eval

namespace EdgeQuery.Edge

/-- A field of a prefilter after an insert is the inserted one or was there before. -/
theorem Prefilter.mem_insert_go {field : Bytes} {values : List Bytes} :
    (l : List (Bytes × List Bytes)) → ∀ {e : Bytes × List Bytes},
      e ∈ Prefilter.insert.go field values l → e = (field, values) ∨ e ∈ l
  | [], e, he => by simpa [Prefilter.insert.go] using he
  | (f, vs) :: rest, e, he => by
    unfold Prefilter.insert.go at he
    split at he
    · simpa using he
    · rcases List.mem_cons.1 he with he | he
      · exact .inl he
      · exact .inr (List.mem_cons_of_mem _ he)
    · rcases List.mem_cons.1 he with he | he
      · exact .inr (he ▸ List.mem_cons_self ..)
      · rcases Prefilter.mem_insert_go rest he with he | he
        · exact .inl he
        · exact .inr (List.mem_cons_of_mem _ he)

end EdgeQuery.Edge

namespace EdgeQuery.Plan

open Query Eval

/-- A value of `field` in the context reads as `value`. -/
def Bound (ctx : Context) (field value : String) : Prop :=
  ∃ v ∈ ctx.values (Bytes.ofString field), v.normalized = Bytes.ofString value

/-- The literal text the plan reads off a pattern holds of a subject that the pattern, as
evaluation compiles it, matches: the subject is that text when the pattern is one literal,
and starts with it otherwise. -/
def PrefixReads (pattern : String) (subject : Bytes) : Prop :=
  ∀ prog, Test.check "" .like (.str pattern) = .ok (some prog) →
    prog.accepts (codePoints subject) = true →
      if (patternPrefix pattern).2 then subject = Bytes.ofString (patternPrefix pattern).1
      else Bytes.ofString (patternPrefix pattern).1 <+: subject

/-! ## Bindings read back -/

namespace Bindings

@[simp] theorem valuesOf_empty (f : String) : ({} : Bindings).valuesOf f = [] := rfl

@[simp] theorem valuesOf_constrain (b : Bindings) (f g : String) :
    (b.constrain f).valuesOf g = b.valuesOf g := by
  unfold constrain
  split <;> rfl

@[simp] theorem sourcePrefixes_constrain (b : Bindings) (f : String) :
    (b.constrain f).sourcePrefixes = b.sourcePrefixes := by
  unfold constrain
  split <;> rfl

@[simp] theorem sourcePrefixes_bindEq (b : Bindings) (f x : String) :
    (b.bindEq f x).sourcePrefixes = b.sourcePrefixes := by
  unfold bindEq
  split <;> rfl

/-- An equality adds its value to the values of its field and to no other. -/
theorem valuesOf_bindEq (b : Bindings) (f x g : String) :
    (b.bindEq f x).valuesOf g = if g = f then b.valuesOf g ++ [x] else b.valuesOf g := by
  unfold bindEq valuesOf
  split
  · -- the field is bound already: its entry is extended in place, and entries keep their names
    rw [List.find?_map]
    have hp : ((fun e : String × List String => e.1 == g) ∘
        fun (e : String × List String) => if e.1 == f then (e.1, e.2 ++ [x]) else (e.1, e.2)) =
        fun e => e.1 == g := by
      funext e
      simp only [Function.comp_apply]
      split <;> rfl
    rw [hp]
    cases hfind : b.eq.find? (·.1 == g) with
    | none =>
      have hne : g ≠ f := by
        rintro rfl
        obtain ⟨e, he, hef⟩ := List.any_eq_true.1 ‹b.eq.any (·.1 == g) = true›
        exact List.find?_eq_none.1 hfind e he hef
      simp [hne]
    | some e =>
      have heg : e.1 = g := by simpa using List.find?_some hfind
      by_cases hgf : g = f <;> simp [hgf, heg]
  · -- a new field gets an entry at the end
    rename_i hnone
    rw [List.find?_append]
    by_cases hgf : g = f
    · subst hgf
      have hfind : b.eq.find? (·.1 == g) = none := by
        rw [List.find?_eq_none]
        intro e he heg
        exact hnone (List.any_eq_true.2 ⟨e, he, heg⟩)
      simp [hfind]
    · cases b.eq.find? (·.1 == g) <;> simp [hgf, Ne.symm hgf]

end Bindings

/-! ## Bindings that hold of a context -/

/-- Bindings true of a context: each field has a value that reads as each value the field is
bound to, and each prefix of the source starts a value of the source. -/
structure Bindings.HoldOf (b : Bindings) (ctx : Context) : Prop where
  eq : ∀ f x, x ∈ b.valuesOf f → Bound ctx f x
  prefixes : ∀ p ∈ b.sourcePrefixes,
    ∃ v ∈ ctx.values (Bytes.ofString "SOURCE"), Bytes.ofString p <+: v.normalized

namespace Bindings.HoldOf

variable {ctx : Context} {b : Bindings}

theorem empty : ({} : Bindings).HoldOf ctx :=
  ⟨fun _ _ hx => by simp at hx, fun _ hp => by simp at hp⟩

theorem constrain (hb : b.HoldOf ctx) (f : String) : (b.constrain f).HoldOf ctx :=
  ⟨fun g x hx => hb.eq g x (by simpa using hx), fun p hp => hb.prefixes p (by simpa using hp)⟩

theorem foldl_constrain (hb : b.HoldOf ctx) (fs : List String) :
    (fs.foldl Bindings.constrain b).HoldOf ctx := by
  induction fs generalizing b with
  | nil => exact hb
  | cons f fs ih => exact ih (hb.constrain f)

theorem bindEq (hb : b.HoldOf ctx) {f x : String} (hx : Bound ctx f x) :
    (b.bindEq f x).HoldOf ctx := by
  refine ⟨fun g y hy => ?_, fun p hp => hb.prefixes p (by simpa using hp)⟩
  rw [Bindings.valuesOf_bindEq] at hy
  split at hy
  · rcases List.mem_append.1 hy with hy | hy
    · exact hb.eq g y hy
    · rw [List.mem_singleton.1 hy, ‹g = f›]
      exact hx
  · exact hb.eq g y hy

end Bindings.HoldOf

/-! ## Terms that hold -/

theorem except_bind_eq_ok {ε α β : Type} {x : Except ε α} {f : α → Except ε β} {b : β}
    (h : x >>= f = .ok b) : ∃ a, x = .ok a ∧ f a = .ok b := by
  cases x with
  | error e => cases h
  | ok a => exact ⟨a, rfl, h⟩

/-- A term is read as a field comparison when it compares a field with a literal: the
literal on the right, or on the left of an equality or an inequality. -/
theorem fieldComparison_eq_some {x : Expr} {f : String} {lit : Literal} {op : CompareOp}
    (h : fieldComparison x = some (f, lit, op)) :
    ∃ l r, x.deref = .compare op l r ∧ ((l.deref = .field f ∧ r.deref = .lit lit) ∨
      (l.deref = .lit lit ∧ r.deref = .field f ∧ (op = .eq ∨ op = .ne))) := by
  unfold fieldComparison at h
  split at h
  · rename_i op' l r hx
    split at h
    · rename_i n v hl hr
      cases h
      exact ⟨l, r, hx, .inl ⟨hl, hr⟩⟩
    · rename_i v n hl hr
      split at h
      · cases h
        rename_i hop
        exact ⟨l, r, hx, .inr ⟨hl, hr, by simpa using hop⟩⟩
      · cases h
    · cases h
  · cases h

/-- A term read as a field comparison compiles to a test of that field against that literal
by that operator. -/
theorem ofExpr_of_fieldComparison {x : Expr} {f : String} {lit : Literal} {op : CompareOp}
    (h : fieldComparison x = some (f, lit, op)) {c : Condition} (hc : Condition.ofExpr x = .ok c) :
    ∃ pattern, Test.check "" op lit = .ok pattern ∧
      c = .test { target := .field (Bytes.ofString f), op, literal := lit, pattern } := by
  obtain ⟨l, r, hx, hside⟩ := fieldComparison_eq_some h
  rw [← Condition.ofExpr_deref, hx] at hc
  obtain ⟨tst, htst, rfl⟩ := except_map_eq_ok hc
  obtain ⟨pattern, hcheck, rfl⟩ := Test.ofComparison_field hside htst
  exact ⟨pattern, Test.check_shown hcheck "", rfl⟩

section Complete

variable {s : Scope} (hs : s.Complete)
include hs

/-- An equality of a field with a text that holds binds the field to the text. -/
theorem bound_of_eq_yes {x : Expr} {f v : String} (h : fieldComparison x = some (f, .str v, .eq))
    (hy : s.leafValue x = .yes) : Bound s.context f v := by
  obtain ⟨c, hc, hyes⟩ := ofExpr_of_leafValue_yes hy
  obtain ⟨pattern, -, rfl⟩ := ofExpr_of_fieldComparison h hc
  rw [Condition.eval, Test.eval_field_of_complete hs _ rfl] at hyes
  -- no value: false; a value equal to the text: true; otherwise false
  simp only [Test.fieldTruth] at hyes
  split_ifs at hyes with hempty hany
  obtain ⟨w, hw, hwv⟩ := List.any_eq_true.1 hany
  exact ⟨w, hw, (Arithmetic.compare_eq_str_eq_yes _ w v).1 (of_decide_eq_true hwv)⟩

/-- A pattern comparison that holds compiles its text to a program that accepts a value of
the field. -/
theorem accepts_of_like_yes {x : Expr} {f : String} {lit : Literal}
    (h : fieldComparison x = some (f, lit, .like)) (hy : s.leafValue x = .yes) :
    ∃ text prog, lit = .str text ∧ Test.check "" .like (.str text) = .ok (some prog) ∧
      ∃ w ∈ s.context.values (Bytes.ofString f), prog.accepts (codePoints w.normalized) = true := by
  obtain ⟨c, hc, hyes⟩ := ofExpr_of_leafValue_yes hy
  obtain ⟨pattern, hcheck, rfl⟩ := ofExpr_of_fieldComparison h hc
  obtain ⟨text, prog, rfl, rfl⟩ := Test.check_like hcheck
  rw [Condition.eval, Test.eval_field_of_complete hs _ rfl] at hyes
  simp only [Test.fieldTruth] at hyes
  obtain ⟨w, hw, hacc⟩ := List.any_eq_true.1 (by simpa [Truth.ofBool] using hyes)
  exact ⟨text, prog, rfl, hcheck, w, hw, hacc⟩

/-- What a term needs for the bindings to stay true: a pattern the source is matched
against reads every value of the source by its literal prefix. -/
def PatternsRead (ctx : Context) (a : Atom) : Prop :=
  ∀ pattern, fieldComparison a.expr = some ("SOURCE", .str pattern, .like) →
    ∀ v ∈ ctx.values (Bytes.ofString "SOURCE"), PrefixReads pattern v.normalized

/-- Adding a term that holds keeps bindings true: an equality binds a value of its field, and
a pattern on the source binds what its literal prefix reads. -/
theorem Bindings.HoldOf.add {b : Bindings} (hb : b.HoldOf s.context) {a : Atom}
    (ha : Dnf.atomKleene s.leafValue a = .yes) (hread : PatternsRead s.context a) :
    (b.add a).HoldOf s.context := by
  unfold Bindings.add
  cases hfc : fieldComparison a.expr with
  | none => exact hb.foldl_constrain _
  | some triple =>
    obtain ⟨field, lit, op⟩ := triple
    dsimp only
    cases hneg : a.negated with
    | true => exact hb.foldl_constrain _
    | false =>
      have hy : s.leafValue a.expr = .yes := by simpa [Dnf.atomKleene, hneg] using ha
      rw [if_neg Bool.false_ne_true]
      by_cases heq : (op == .eq && lit.kind == .string) = true
      · -- an equality with a text
        rw [if_pos heq]
        obtain ⟨hop, hkind⟩ := Bool.and_eq_true_iff.1 heq
        cases lit with
        | str v =>
          rw [beq_iff_eq.1 hop] at hfc
          exact hb.bindEq (bound_of_eq_yes hs hfc hy)
        | null | bool _ | int _ | float _ => cases hkind
      rw [if_neg heq]
      by_cases hlike : (op == .like && field == "SOURCE") = true
      · -- a pattern on the source binds its literal prefix, as far as the prefix reads
        rw [if_pos hlike]
        obtain ⟨hop, hfield⟩ := Bool.and_eq_true_iff.1 hlike
        obtain rfl := beq_iff_eq.1 hop
        obtain rfl := beq_iff_eq.1 hfield
        obtain ⟨text, prog, rfl, hcheck, w, hw, hacc⟩ := accepts_of_like_yes hs hfc hy
        have hprefix := hread text hfc w hw prog hcheck hacc
        apply Bindings.HoldOf.constrain
        -- the plan reads the prefix off the literal's text
        split
        · rename_i hwhole
          have hwhole' : (patternPrefix text).2 = true := hwhole
          rw [if_pos hwhole'] at hprefix
          exact hb.bindEq ⟨w, hw, hprefix⟩
        · rename_i hwhole
          have hwhole' : ¬(patternPrefix text).2 = true := hwhole
          rw [if_neg hwhole'] at hprefix
          split
          · exact hb
          · refine ⟨hb.eq, fun p hp => ?_⟩
            rcases List.mem_append.1 hp with hp | hp
            · exact hb.prefixes p hp
            · rw [List.mem_singleton.1 hp]
              exact ⟨w, hw, hprefix⟩
      · rw [if_neg hlike]
        exact hb.constrain field

/-- The bindings of a branch whose terms all hold are true, when every pattern the branch
matches the source against reads the source's values by its literal prefix. -/
theorem Bindings.holdOf_ofBranch {branch : Branch}
    (hterms : ∀ a ∈ branch, Dnf.atomKleene s.leafValue a = .yes)
    (hread : ∀ a ∈ branch, PatternsRead s.context a) :
    (Bindings.ofBranch branch).HoldOf s.context := by
  unfold Bindings.ofBranch
  -- the fold over the terms keeps the bindings true, from the empty ones
  suffices h : ∀ b : Bindings, b.HoldOf s.context → (branch.foldl Bindings.add b).HoldOf s.context from
    h {} Bindings.HoldOf.empty
  induction branch with
  | nil => exact fun b hb => hb
  | cons a rest ih =>
    intro b hb
    exact ih (fun a' ha' => hterms a' (List.mem_cons_of_mem _ ha'))
      (fun a' ha' => hread a' (List.mem_cons_of_mem _ ha'))
      _ (hb.add hs (hterms a (List.mem_cons_self ..)) (hread a (List.mem_cons_self ..)))

end Complete

/-! ## The prefilter and the column families -/

theorem mem_sortedDistinct {x : String} {xs : List String} : x ∈ sortedDistinct xs ↔ x ∈ xs := by
  rw [sortedDistinct, List.mem_eraseDups, List.mem_mergeSort]

/-- Every field of the plan's prefilter is a candidate whose values no branch disables,
with those values sorted and distinct. -/
theorem mem_prunePrefilter {maxFields : Int} {cands : List (String × List String)}
    {e : Bytes × List Bytes} (he : e ∈ (prunePrefilter maxFields cands).fields) :
    ∃ f vs, (f, vs) ∈ cands ∧ disablePrefilter ∉ vs ∧
      e = (Bytes.ofString f, (sortedDistinct vs).map Bytes.ofString) := by
  unfold prunePrefilter at he
  dsimp only at he
  split at he
  · simp at he
  · -- the fold inserts the kept candidates one by one into the empty prefilter
    suffices h : ∀ (kept : List (String × List String)) (p : Edge.Prefilter),
        (∀ c ∈ kept, c ∈ cands ∧ disablePrefilter ∉ c.2) →
        e ∈ (kept.foldl (fun p c =>
          p.insert (Bytes.ofString c.1) ((sortedDistinct c.2).map Bytes.ofString)) p).fields →
        e ∈ p.fields ∨ ∃ f vs, (f, vs) ∈ cands ∧ disablePrefilter ∉ vs ∧
          e = (Bytes.ofString f, (sortedDistinct vs).map Bytes.ofString) by
      have hkept : ∀ c ∈ cands.filter (fun c => !c.2.isEmpty && !c.2.contains disablePrefilter),
          c ∈ cands ∧ disablePrefilter ∉ c.2 := by
        intro c hc
        obtain ⟨hc, hkeep⟩ := List.mem_filter.1 hc
        exact ⟨hc, (by simpa using hkeep : _ ∧ _).2⟩
      rcases h _ {} hkept he with he | he
      · simp at he
      · exact he
    intro kept
    induction kept with
    | nil => exact fun p _ he => .inl he
    | cons c rest ih =>
      intro p hkept he
      rcases ih _ (fun c' hc' => hkept c' (List.mem_cons_of_mem _ hc')) he with he | he
      · rcases Edge.Prefilter.mem_insert_go p.fields he with he | he
        · obtain ⟨hc, hdis⟩ := hkept c (List.mem_cons_self ..)
          exact .inr ⟨c.1, c.2, hc, hdis, he⟩
        · exact .inl he
      · exact .inr he

/-- A record whose bindings in one branch hold passes the plan's prefilter: each of its
fields is bound by equality in every branch, and the record's value is among those of its
own branch. -/
theorem prunePrefilter_allows {bs : List Bindings} {b : Bindings} (hb : b ∈ bs) {ctx : Context}
    (htrue : b.HoldOf ctx) (maxFields : Int) :
    (prunePrefilter maxFields (prefilterCandidates bs)).allows ctx = true := by
  rw [Edge.Prefilter.allows, List.all_eq_true]
  rintro ⟨field, allowed⟩ he
  obtain ⟨f, vs, hcand, hdis, heq⟩ := mem_prunePrefilter he
  obtain ⟨rfl, rfl⟩ := Prod.mk.inj heq
  unfold prefilterCandidates at hcand
  obtain ⟨f', -, hf'⟩ := List.mem_map.1 hcand
  obtain ⟨rfl, hvs⟩ := Prod.mk.inj hf'
  -- the branch neither disables the field nor leaves it open: it binds it to some value
  have hopen : (b.isConstrained f' || (b.valuesOf f').isEmpty) = false := by
    cases hc : (b.isConstrained f' || (b.valuesOf f').isEmpty) with
    | false => rfl
    | true =>
      exfalso
      apply hdis
      rw [← hvs, List.mem_flatMap]
      exact ⟨b, hb, by simp only [hc, if_true, List.mem_singleton]⟩
  obtain ⟨x, hx⟩ : ∃ x, x ∈ b.valuesOf f' := by
    cases hv : b.valuesOf f' with
    | nil => simp [hv] at hopen
    | cons x _ => exact ⟨x, List.mem_cons_self ..⟩
  have hxvs : x ∈ vs := by
    rw [← hvs, List.mem_flatMap]
    exact ⟨b, hb, by simpa only [hopen, Bool.false_eq_true, if_false] using hx⟩
  obtain ⟨w, hw, hwx⟩ := htrue.eq f' x hx
  refine List.any_eq_true.2 ⟨w, hw, ?_⟩
  rw [hwx, List.contains_iff_mem, List.mem_map]
  exact ⟨x, mem_sortedDistinct.2 hxvs, rfl⟩

/-- When the plan names column families, they include the type and relation of every
record whose bindings in some branch hold. -/
theorem columnFamilies_mem {bs : List Bindings} {b : Bindings} (hb : b ∈ bs) {ctx : Context}
    (htrue : b.HoldOf ctx) (hne : columnFamilies bs ≠ []) :
    ∃ t r, Bound ctx "TYPE" t ∧ Bound ctx "RELATION" r ∧
      Bytes.ofString t ++ [47] ++ Bytes.ofString r ∈ columnFamilies bs := by
  unfold columnFamilies at hne ⊢
  by_cases hall : (bs.all fun b =>
      !(b.valuesOf "TYPE").isEmpty && !(b.valuesOf "RELATION").isEmpty) = true
  · rw [if_pos hall]
    -- every branch binds both the type and the relation, this one too
    obtain ⟨htype, hrel⟩ := Bool.and_eq_true_iff.1 (List.all_eq_true.1 hall b hb)
    obtain ⟨t, ht⟩ : ∃ t, t ∈ b.valuesOf "TYPE" := by
      cases hv : b.valuesOf "TYPE" with
      | nil => simp [hv] at htype
      | cons t _ => exact ⟨t, List.mem_cons_self ..⟩
    obtain ⟨r, hr⟩ : ∃ r, r ∈ b.valuesOf "RELATION" := by
      cases hv : b.valuesOf "RELATION" with
      | nil => simp [hv] at hrel
      | cons r _ => exact ⟨r, List.mem_cons_self ..⟩
    refine ⟨t, r, htrue.eq _ t ht, htrue.eq _ r hr, List.mem_map.2 ⟨t ++ "/" ++ r, ?_, ?_⟩⟩
    · rw [mem_sortedDistinct, List.mem_flatMap]
      exact ⟨b, hb, List.mem_flatMap.2 ⟨t, ht, List.mem_map.2 ⟨r, hr, rfl⟩⟩⟩
    · have hslash : Bytes.ofString "/" = [47] := by decide +kernel
      rw [Bytes.ofString_append, Bytes.ofString_append, hslash]
  · rw [if_neg hall] at hne
    exact absurd rfl hne

end EdgeQuery.Plan
