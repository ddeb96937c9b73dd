import EdgeQuery.Proofs.BranchBindings
import EdgeQuery.Proofs.ResidualRoundTrip
import EdgeQuery.Proofs.DnfLimit
import EdgeQuery.Proofs.MsgpackRead
import EdgeQuery.Cli.Codec
/-! # Scan plans cover the edges their filter matches

A plan scans its units' key ranges, keeps the column families its units name, and passes
each edge through its expression stage, whose prefilter is checked before the filter. The
main theorem, `compile_scans_matching_edge`, says that nothing the filter matches is lost
on the way: for every query that compiles, under any limits and parameters, every stored
edge whose decoded form the plan's filter matches lies in a range of some unit, has a
column family that unit allows, and passes that unit's prefilter.

The one exception is a pattern on `SOURCE`. The plan narrows such a term to the literal text
the pattern starts with (`patternPrefix`), read off the pattern's syntax, while evaluation
runs the compiled pattern over the code points of the source, reading a byte that is not
UTF-8 as the replacement character: `SOURCE =~ '\uFFFD'` is narrowed to the three bytes of
that character and still matches the one-byte source `FF`, whose row is then not scanned
(`prefix_misses_replacement_source`). The theorem therefore asks of every pattern the filter
matches the source against that its literal prefix reads the edge's source (`PrefixReads`),
which holds for a filter with no such pattern.

The proof goes through the filter's normal form. The plan's filter text reads back as the
normalized filter, which evaluates without incomplete fields as a Kleene formula over its
leaves (`Condition.eval_kleene`); a true formula has a branch of its normal form whose terms
all hold, and the bindings of that branch are true of the edge
(`Bindings.holdOf_ofBranch`). Its ranges then hold the edge's key (`HoldOf.ranges_contain`),
the plan's column families include the edge's type and relation
(`columnFamilies_mem`), and the prefilter allows the edge (`prunePrefilter_allows`). -/

/-! ## Entries and the edges they decode to -/

namespace EdgeQuery.Bytes

/-- A cut that finds the separator splits the text around its first occurrence. -/
theorem cut_eq_some {b a c : Bytes} {sep : UInt8} (h : cut b sep = (a, some c)) :
    b = a ++ sep :: c := by
  unfold cut at h
  split at h
  · rename_i i hi
    obtain ⟨hlt, hsep, -⟩ := List.findIdx?_eq_some_iff_getElem.1 hi
    cases h
    rw [← beq_iff_eq.1 hsep, List.getElem_cons_drop, List.take_append_drop]
  · cases h

theorem ofString_injective {s t : String} (h : ofString s = ofString t) : s = t :=
  Option.some.inj (by rw [← toUtf8?_ofString s, h, toUtf8?_ofString])

end EdgeQuery.Bytes

namespace EdgeQuery.Edge

open Eval

/-- A key that splits has its row cut at the first zero byte into source and sink, and its
family cut at the first slash into type and relation, when a relation is read. -/
theorem splitKey_eq_ok {k : Store.Key} {p : KeyParts} (h : splitKey k = .ok p) :
    k.row = p.source ++ 0 :: p.sink ∧
      (p.relation ≠ [] → k.family = p.edgeType ++ 47 :: p.relation) := by
  unfold splitKey at h
  split at h
  · cases h
  · rename_i source sink hrow
    generalize hfam : Bytes.cut k.family 47 = fam at h
    obtain ⟨edgeType, relation⟩ := fam
    dsimp only at h
    split at h
    · cases h
      refine ⟨Bytes.cut_eq_some hrow, fun hr => ?_⟩
      cases relation with
      | none => exact absurd rfl hr
      | some r => exact Bytes.cut_eq_some hfam
    · cases h

/-- A decoded edge has the source, sink, type and relation that its key splits into. -/
theorem decode_eq_ok {S : Serial Stored} {en : Store.Entry} {d : Edge} (h : decode S en = .ok d) :
    ∃ p, splitKey en.key = .ok p ∧ d.source = p.source ∧ d.sink = p.sink ∧
      d.edgeType = p.edgeType ∧ d.relation = p.relation := by
  unfold decode at h
  simp only [bind, Except.bind, pure, Except.pure] at h
  split at h
  · cases h
  · rename_i p hp
    refine ⟨p, hp, ?_⟩
    repeat' split at h
    all_goals cases h
    all_goals exact ⟨rfl, rfl, rfl, rfl⟩

/-- The key of an entry is laid out around the edge it decodes to. -/
theorem decode_key {S : Serial Stored} {en : Store.Entry} {d : Edge} (h : decode S en = .ok d) :
    en.key.row = d.source ++ 0 :: d.sink ∧
      (d.relation ≠ [] → en.key.family = d.edgeType ++ 47 :: d.relation) := by
  obtain ⟨p, hp, hs, hk, ht, hr⟩ := decode_eq_ok h
  rw [hs, hk, ht, hr]
  exact splitKey_eq_ok hp

/-- Setting nonempty fields one by one: the values of a field `n` are those of the field
set last under that name, one value of its text. -/
theorem values_foldl_set {n b : Bytes} :
    ∀ (fields : List (String × Bytes)) (c : Context),
      (∀ v ∈ c.values n, v = .ofBytes b ∧ b ≠ []) →
      (∀ x ∈ fields, Bytes.ofString x.1 = n → x.2 = b) →
      ∀ v ∈ (fields.foldl (fun c (name, w) =>
          if w.isEmpty then c else c.set (Bytes.ofString name) [Value.ofBytes w]) c).values n,
        v = .ofBytes b ∧ b ≠ []
  | [], _, hc, _ => hc
  | (name, w) :: fields, c, hc, hf => by
    refine values_foldl_set fields _ ?_ fun x hx => hf x (List.mem_cons_of_mem _ hx)
    intro v hv
    dsimp only at hv
    split at hv
    · exact hc v hv
    · rename_i hw
      rw [Context.set, Context.values_update] at hv
      split at hv
      · rename_i hn
        have hwb : w = b := hf _ List.mem_cons_self hn.symm
        subst hwb
        exact ⟨List.mem_singleton.1 hv, fun h0 => hw (by simp [h0])⟩
      · exact hc v hv

/-- The key fields of an edge's context hold the edge's own text, when it has any. -/
theorem context_values {d : Edge} {field : String} {b : Bytes}
    (hf : (field, b) ∈ [("SOURCE", d.source), ("SINK", d.sink), ("TYPE", d.edgeType),
      ("RELATION", d.relation)]) :
    ∀ v ∈ d.context.values (Bytes.ofString field), v = .ofBytes b ∧ b ≠ [] := by
  unfold Edge.context
  refine values_foldl_set _ {} (by simp [Context.values]) ?_
  rintro ⟨name, w⟩ hx hname
  have hname := Bytes.ofString_injective hname
  dsimp only at hname ⊢
  subst hname
  simp only [List.mem_cons, Prod.mk.injEq, List.not_mem_nil, or_false] at hf hx
  rcases hf with ⟨rfl, rfl⟩ | ⟨rfl, rfl⟩ | ⟨rfl, rfl⟩ | ⟨rfl, rfl⟩ <;> simp_all

end EdgeQuery.Edge

/-! ## True normal forms -/

namespace EdgeQuery.Query

namespace Kleene

theorem or_eq_yes {a b : Kleene} : a.or b = .yes ↔ a = .yes ∨ b = .yes := by
  cases a <;> cases b <;> decide

theorem and_eq_yes {a b : Kleene} : a.and b = .yes ↔ a = .yes ∧ b = .yes := by
  cases a <;> cases b <;> decide

end Kleene

theorem Expr.junctionsHaveTermsAll_iff {ts : List Expr} :
    Expr.junctionsHaveTermsAll ts = true ↔ ∀ t ∈ ts, t.junctionsHaveTerms = true := by
  induction ts with
  | nil => simp [Expr.junctionsHaveTermsAll]
  | cons t ts ih => rw [Expr.junctionsHaveTermsAll_cons, ih, List.forall_mem_cons]

namespace Dnf

/-- A true branch has every atom true. -/
theorem branchKleene_eq_yes {σ : Expr → Kleene} {b : Branch} (h : branchKleene σ b = .yes) :
    ∀ a ∈ b, atomKleene σ a = .yes := by
  induction b with
  | nil => simp
  | cons a b ih =>
    simp only [branchKleene, List.foldr_cons, Kleene.and_eq_yes] at h
    intro x hx
    rcases List.mem_cons.1 hx with rfl | hx
    · exact h.1
    · exact ih h.2 x hx

/-- A true disjunction of branches has a branch whose atoms are all true. -/
theorem exists_branch_of_kleeneOf_eq_yes {σ : Expr → Kleene} {bs : List Branch}
    (h : kleeneOf σ bs = .yes) : ∃ b ∈ bs, ∀ a ∈ b, atomKleene σ a = .yes := by
  induction bs with
  | nil => cases h
  | cons b bs ih =>
    simp only [kleeneOf, List.foldr_cons, Kleene.or_eq_yes] at h
    rcases h with h | h
    · exact ⟨b, List.mem_cons_self, branchKleene_eq_yes h⟩
    · obtain ⟨c, hc, hall⟩ := ih h
      exact ⟨c, List.mem_cons_of_mem _ hc, hall⟩

/-- Under a branch limit, a normal form that is found means what the filter means and has
the filter's leaves as atoms, when every junction of the filter has terms. -/
theorem ofExpr_meaning {e : Expr} (he : e.junctionsHaveTerms = true) {limit : Nat} {d : Dnf}
    (h : ofExpr limit e = .ok d) :
    (∀ σ, kleeneOf σ d.branches = e.kleene σ .yes) ∧ AtomsIn e.leaves d.branches := by
  obtain ⟨bs, hbs, hv⟩ := branchesOf_kleene e false
  rw [ofExpr, branchesOf_limit limit e false he hbs] at h
  by_cases hx : exceeds limit bs
  · simp [hx] at h
  · simp only [hx, Bool.false_eq_true, if_false, Except.ok.injEq] at h
    subst h
    exact ⟨hv, branchesOf_atomsIn 0 e false hbs⟩

end Dnf

/-- The junctions of a skeleton have terms. -/
theorem Expr.Skeleton.junctionsHaveTerms {P : Expr → Prop} {e : Expr} (h : e.Skeleton P) :
    e.junctionsHaveTerms = true := by
  induction h with
  | @leaf x _ hx => cases x <;> simp_all [Expr.isConnective, Expr.junctionsHaveTerms]
  | and hne _ ih | or hne _ ih =>
    simp only [Expr.junctionsHaveTerms, Expr.junctionsHaveTermsAll_iff.2 ih, Bool.and_true,
      Bool.not_eq_true', List.isEmpty_eq_false_iff]
    exact hne
  | not _ ih | paren _ ih => simpa only [Expr.junctionsHaveTerms] using ih

end EdgeQuery.Query

/-! ## The plan's filter text -/

namespace EdgeQuery.Eval

open Query

/-- The text a residual tree prints compiles, when it does, to a filter that evaluates as the
tree's own compiled condition, with the options given. -/
theorem compileQuery_render_residual {e : Expr} (hres : e.Residual) {opts : Options}
    {ev : Evaluation} (h : Evaluation.compileQuery e.render opts = .ok ev) :
    ev.options = opts ∧ ∃ c, Condition.ofExpr e = .ok c ∧ ∀ s, ev.condition.eval s = c.eval s := by
  have hparse := Grammar.parse_render (hres.printable fun x hx => hx.1.1)
  have halike := evaluatesAlike_reread_flatten hres
  simp only [Evaluation.compileQuery, hparse, Expr.normalize_reread hres, Evaluation.compile] at h
  split at h
  · rename_i c hc
    cases h
    rw [hc] at halike
    cases hd : Condition.ofExpr e with
    | error _ =>
      rw [hd] at halike
      exact (halike : False).elim
    | ok d =>
      rw [hd] at halike
      exact ⟨rfl, d, rfl, halike⟩
  · cases h

/-- The text a residual tree prints matches a context, evaluated without incomplete fields,
exactly when the tree is true there in Kleene's logic, its leaves taking the values they
evaluate to. -/
theorem matches_iff_kleene {e : Expr} (hres : e.Residual) {ev : Evaluation}
    (h : Evaluation.compileQuery e.render = .ok ev) (ctx : Context) :
    ev.matches? ctx = true ↔ e.kleene (Scope.leafValue ⟨ctx, {}⟩) .yes = .yes := by
  obtain ⟨hopts, c, hc, heval⟩ := compileQuery_render_residual hres h
  have hyields := Condition.eval_kleene (s := ⟨ctx, {}⟩) rfl hres hc .yes {}
  rw [Evaluation.matches?, Evaluation.evaluate_matched, Evaluation.run, hopts, heval, hyields,
    Truth.holds_ofKleene]

end EdgeQuery.Eval

namespace EdgeQuery.Plan

open Query Eval Store

/-! ## Reading the compiler's steps back -/

@[simp] theorem mapError_eq_ok {ε ε' α : Type} {f : ε → ε'} {x : Except ε α} {v : α} :
    x.mapError f = .ok v ↔ x = .ok v := by
  cases x <;> simp [Except.mapError]

/-- Every part of a list that a monadic flat map builds comes from one of its items. -/
theorem mem_of_flatMapM_eq_ok {ε α β : Type} {f : α → Except ε (List β)} :
    ∀ {xs : List α} {ys : List β}, xs.flatMapM f = .ok ys →
      ∀ x ∈ xs, ∃ zs, f x = .ok zs ∧ ∀ z ∈ zs, z ∈ ys
  | [], _, _, _, hx => absurd hx List.not_mem_nil
  | x :: xs, ys, h, y, hy => by
    rw [List.flatMapM_cons] at h
    obtain ⟨zs, hzs, h⟩ := except_bind_eq_ok h
    obtain ⟨ws, hws, h⟩ := except_bind_eq_ok h
    cases h
    rcases List.mem_cons.1 hy with rfl | hy
    · exact ⟨zs, hzs, fun z hz => List.mem_append_left _ hz⟩
    · obtain ⟨vs, hvs, hsub⟩ := mem_of_flatMapM_eq_ok hws y hy
      exact ⟨vs, hvs, fun z hz => List.mem_append_right _ (hsub z hz)⟩

/-- What the checks of a query leave: the text reads as a filter whose normal form is not
empty, the normal form has a disjunctive normal form within the branch limit, every branch
gives ranges and the analysis keeps them all, and the residual is the normal form printed. -/
theorem analyse_eq_ok {l : Limits} {q : String} {p : Params} {a : Analysis}
    (h : analyse l q p = .ok a) :
    ∃ e dnf, parse q = .ok e ∧ e.normalize ≠ .hole ∧
      Dnf.ofExpr l.maxBranches.toNat e.normalize = .ok dnf ∧
      a.bindings = dnf.branches.map Bindings.ofBranch ∧
      (∀ branch ∈ dnf.branches, (Bindings.ofBranch branch).ranges ≠ [] ∧
        ∀ r ∈ (Bindings.ofBranch branch).ranges, r ∈ a.ranges) ∧
      a.residual = e.normalize.render := by
  unfold analyse at h
  simp only [bind, Except.bind, throw, throwThe, MonadExceptOf.throw, pure, Except.pure] at h
  -- the text is not blank, and the date type reads
  split at h
  · cases h
  split at h
  · cases h
  -- the dates, when given, are in order; the rest is the same either way
  split at h
  case' h_1 =>
    split at h
    · cases h
  all_goals
    split at h
    · cases h
    rename_i e hparse
    split at h
    · cases h
    rename_i hne
    split at h
    · cases h
    rename_i dnf hdnf
    split at h
    · cases h
    rename_i rs hrs
    -- the residual reads again and the terms are within the limit: the analysis is built
    have ha : a.bindings = dnf.branches.map Bindings.ofBranch ∧ a.ranges = Range.sort rs ∧
        a.residual = e.normalize.render := by
      split at h
      · split at h
        · cases h
        · split at h
          · cases h
          · cases h
            exact ⟨rfl, rfl, rfl⟩
      · split at h
        · cases h
        · cases h
          exact ⟨rfl, rfl, rfl⟩
    obtain ⟨hbind, hranges, hres⟩ := ha
    refine ⟨e, dnf, mapError_eq_ok.1 hparse, hne, mapError_eq_ok.1 hdnf, hbind,
      fun branch hb => ?_, hres⟩
    have hzip : (branch, Bindings.ofBranch branch) ∈
        dnf.branches.zip (dnf.branches.map Bindings.ofBranch) := by
      rw [← List.map_prod_left_eq_zip]
      exact List.mem_map_of_mem hb
    obtain ⟨zs, hzs, hsub⟩ := mem_of_flatMapM_eq_ok hrs _ hzip
    dsimp only at hzs
    split at hzs
    · cases hzs
    · rename_i hnonempty
      cases hzs
      exact ⟨fun h0 => hnonempty (by simp [h0]),
        fun r hr => hranges ▸ (Range.mem_sort).2 (hsub r hr)⟩

/-- A computation that gives some value, read as an option, succeeded with that value. -/
theorem eq_ok_of_toOption {ε α : Type} {x : Except ε α} {a : α} (h : x.toOption = some a) :
    x = .ok a := by
  cases x with
  | error _ => cases h
  | ok b =>
    cases h
    rfl

theorem ok_of_toOption_map {ε α β : Type} {x : Except ε α} {f : α → β} {b : β}
    (h : x.toOption.map f = some b) : ∃ a, x = .ok a ∧ f a = b := by
  obtain ⟨a, ha, hf⟩ := Option.map_eq_some_iff.1 h
  exact ⟨a, eq_ok_of_toOption ha, hf⟩

theorem ok_of_toOption_bind {ε α β : Type} {x : Except ε α} {f : α → Option β} {b : β}
    (h : x.toOption.bind f = some b) : ∃ a, x = .ok a ∧ f a = some b := by
  obtain ⟨a, ha, hf⟩ := Option.bind_eq_some_iff.1 h
  exact ⟨a, eq_ok_of_toOption ha, hf⟩

/-- A plan is built of the analysis: its filter text is the residual, and its units split
the one unit that scans the analysis's ranges through the stages, with the column families
of the bindings. -/
theorem Analysis.plan_eq_ok {a : Analysis} {P : TokenCodec Edge.Prefilter} {l : Limits} {p : Params}
    {plan : Plan} (h : a.plan P l p = .ok plan) :
    ∃ stages, stagesFor P l a.residual (prunePrefilter l.maxPrefilterValues
        (prefilterCandidates a.bindings)) a.dateType p = .ok stages ∧
      plan.query = a.residual ∧
      plan.units = ScanUnit.split
        { ranges := a.ranges, stages, families := columnFamilies a.bindings } l.maxRangesPerUnit := by
  unfold Analysis.plan at h
  obtain ⟨stages, hstages, h⟩ := except_bind_eq_ok h
  cases h
  exact ⟨stages, hstages, rfl, rfl⟩

/-- Cutting pieces loses no element, whatever the fuel. -/
theorem exists_mem_chunks_go {α : Type} {n : Nat} {x : α} :
    ∀ (fuel : Nat) (xs : List α), x ∈ xs → ∃ c ∈ chunks.go n fuel xs, x ∈ c
  | _, [], hx => absurd hx List.not_mem_nil
  | 0, y :: ys, hx => ⟨y :: ys, by simp [chunks.go], hx⟩
  | fuel + 1, y :: ys, hx => by
    show ∃ c ∈ (y :: ys).take n :: chunks.go n fuel ((y :: ys).drop n), x ∈ c
    rw [← List.take_append_drop n (y :: ys)] at hx
    rcases List.mem_append.1 hx with h | h
    · exact ⟨_, List.mem_cons_self, h⟩
    · obtain ⟨c, hc, hxc⟩ := exists_mem_chunks_go fuel _ h
      exact ⟨c, List.mem_cons_of_mem _ hc, hxc⟩

/-- Every element lies in some piece. -/
theorem exists_mem_chunks {α : Type} (n : Nat) {xs : List α} {x : α} (hx : x ∈ xs) :
    ∃ c ∈ chunks n xs, x ∈ c := by
  unfold chunks
  split
  · exact ⟨xs, List.mem_singleton_self _, hx⟩
  · exact exists_mem_chunks_go _ _ hx

/-- Splitting a unit loses no range, and every part keeps the unit's stages and families. -/
theorem ScanUnit.exists_mem_split (u : ScanUnit) (n : Int) {r : Range} (hr : r ∈ u.ranges) :
    ∃ v ∈ u.split n, r ∈ v.ranges ∧ v.stages = u.stages ∧ v.families = u.families := by
  unfold ScanUnit.split
  split
  · exact ⟨u, List.mem_singleton_self _, hr, rfl, rfl⟩
  · obtain ⟨c, hc, hrc⟩ := exists_mem_chunks n.toNat hr
    exact ⟨{ u with ranges := c }, List.mem_map_of_mem hc, hrc, rfl, rfl⟩

/-- Cutting pieces adds no element, whatever the fuel. -/
theorem mem_of_mem_chunks_go {α : Type} {n : Nat} {x : α} :
    ∀ (fuel : Nat) (xs : List α), ∀ c ∈ chunks.go n fuel xs, x ∈ c → x ∈ xs
  | _, [], c, hc, _ => by simp [chunks.go] at hc
  | 0, y :: ys, c, hc, hx => by
    have hc' : c = y :: ys := by simpa [chunks.go] using hc
    exact hc' ▸ hx
  | fuel + 1, y :: ys, c, hc, hx => by
    change c ∈ (y :: ys).take n :: chunks.go n fuel ((y :: ys).drop n) at hc
    rcases List.mem_cons.1 hc with rfl | hc
    · exact List.mem_of_mem_take hx
    · exact List.mem_of_mem_drop (mem_of_mem_chunks_go fuel _ c hc hx)

/-- Every element of a piece is an element of the list. -/
theorem mem_of_mem_chunks {α : Type} (n : Nat) {xs : List α} {c : List α} (hc : c ∈ chunks n xs)
    {x : α} (hx : x ∈ c) : x ∈ xs := by
  unfold chunks at hc
  split at hc
  · rw [List.mem_singleton.1 hc] at hx
    exact hx
  · exact mem_of_mem_chunks_go _ _ c hc hx

/-- The parts of a split unit scan only the unit's ranges. -/
theorem ScanUnit.mem_ranges_of_mem_split {u v : ScanUnit} {n : Int} (hv : v ∈ u.split n)
    {r : Range} (hr : r ∈ v.ranges) : r ∈ u.ranges := by
  unfold ScanUnit.split at hv
  split at hv
  · rw [List.mem_singleton.1 hv] at hr
    exact hr
  · obtain ⟨c, hc, rfl⟩ := List.mem_map.1 hv
    exact mem_of_mem_chunks _ hc hr

/-- The first element of a numbered list that a test on the elements picks is numbered
from the first element of the list the test picks. -/
theorem find?_zipIdx_eq_some {α : Type} {p : α → Bool} {l : List α} {x : α} {i : Nat}
    (h : l.zipIdx.find? (fun y => p y.1) = some (x, i)) : l.find? p = some x := by
  rw [← List.zipIdx_map_fst 0 l, List.find?_map]
  simp only [Function.comp_def, h, Option.map_some]

/-- The compiler's own expression stage comes before every configured stage: the first stage
of kind `expression` carries the prefilter, when it is not empty. -/
theorem stagesFor_prefilter {P : TokenCodec Edge.Prefilter} {l : Limits} {residual : String}
    {pf : Edge.Prefilter} {dt : Edge.DateType} {p : Params} {stages : List Stage}
    (h : stagesFor P l residual pf dt p = .ok stages) (hres : residual ≠ "") {st : Stage}
    (hst : stages.find? (·.kind == "expression") = some st) :
    st.option? "prefilter" = if pf.isEmpty then none else some (pf.encode P) := by
  simp only [stagesFor, bind, Except.bind, pure, Except.pure] at h
  split at h
  · cases h
  rename_i custom hcustom
  cases h
  rw [List.find?_map] at hst
  obtain ⟨⟨s, i⟩, hs, rfl⟩ := Option.map_eq_some_iff.1 hst
  have hfirst := find?_zipIdx_eq_some (p := fun s : Stage => s.kind == "expression") hs
  have hempty : residual.isEmpty = false := by simpa using hres
  -- the date and type stages have other kinds: the first expression stage is the compiler's
  have hs : s =
      { name := "expression", kind := "expression"
        options := ("query", residual) :: ("stats", if p.includeStats then "true" else "false") ::
          if pf.isEmpty then [] else [("prefilter", pf.encode P)] } := by
    rcases hd : p.dates with _ | ⟨b, e⟩ <;> cases hl : dt.isLoad <;> cases ha : dt.isAny <;>
      simp [hd, hl, ha, hempty] at hfirst <;> exact hfirst.symm
  subst hs
  cases pf.isEmpty <;> simp [Stage.option?]

/-- The stages of a plan with no configured stages are always built. -/
theorem stagesFor_eq_ok_of_nil {P : TokenCodec Edge.Prefilter} {l : Limits} {residual : String}
    {pf : Edge.Prefilter} {dt : Edge.DateType} {p : Params} (hl : l.customStages = []) (hp : p.stages = []) :
    ∃ stages, stagesFor P l residual pf dt p = .ok stages := by
  simp only [stagesFor, hl, hp, List.nil_append, List.mapM_nil, bind, Except.bind, pure,
    Except.pure]
  exact ⟨_, rfl⟩

/-- An analysis always gives a plan when no stages are configured. -/
theorem Analysis.plan_eq_ok_of_nil (a : Analysis) (P : TokenCodec Edge.Prefilter) {l : Limits} {p : Params}
    (hl : l.customStages = []) (hp : p.stages = []) : ∃ plan, a.plan P l p = .ok plan := by
  obtain ⟨stages, hstages⟩ : ∃ stages, stagesFor P l a.residual
      (prunePrefilter l.maxPrefilterValues (prefilterCandidates a.bindings)) a.dateType p =
        .ok stages :=
    stagesFor_eq_ok_of_nil hl hp
  exact ⟨_, by rw [Analysis.plan, hstages]; rfl⟩

/-! ## What the bindings of a true branch scan -/

section EdgeContext

variable {d : Edge}

/-- A key field bound in an edge's context holds the edge's own text, which is not empty. -/
theorem bound_context {field value : String} {b : Bytes}
    (hf : (field, b) ∈ [("SOURCE", d.source), ("SINK", d.sink), ("TYPE", d.edgeType),
      ("RELATION", d.relation)])
    (h : Bound d.context field value) : b = Bytes.ofString value ∧ b ≠ [] := by
  obtain ⟨v, hv, hval⟩ := h
  obtain ⟨rfl, hb⟩ := Edge.context_values hf v hv
  exact ⟨hval, hb⟩

/-- True bindings that give ranges give one that holds the key of every entry the edge
decodes from: the row of a bound source and sink, the rows of a bound source, or the rows
that start with a pattern's literal prefix. -/
theorem Bindings.HoldOf.ranges_contain {b : Bindings} (hb : b.HoldOf d.context)
    (hne : b.ranges ≠ []) {k : Key} (hk : k.Storable) (hrow : k.row = d.source ++ 0 :: d.sink) :
    ∃ r ∈ b.ranges, r.contains k = true := by
  unfold Bindings.ranges at hne ⊢
  cases hsrc : b.valuesOf "SOURCE" with
  | cons x xs =>
    obtain ⟨hx, -⟩ := bound_context (b := d.source) (by simp) (hb.eq "SOURCE" x (by simp [hsrc]))
    cases hsnk : b.valuesOf "SINK" with
    | nil =>
      refine ⟨Range.rowPrefix (Edge.row (Bytes.ofString x) []), by simp, ?_⟩
      rw [Range.rowPrefix_contains_iff _ hk, hrow, ← hx]
      simp [Edge.row]
    | cons y ys =>
      obtain ⟨hy, -⟩ := bound_context (b := d.sink) (by simp) (hb.eq "SINK" y (by simp [hsnk]))
      refine ⟨Range.exactRow (Edge.row (Bytes.ofString x) (Bytes.ofString y)), by simp, ?_⟩
      rw [Range.exactRow_contains_iff _ hk, hrow, ← hx, ← hy]
      simp [Edge.row]
  | nil =>
    -- no source is bound: the ranges are those of the patterns' prefixes
    rw [hsrc] at hne
    obtain ⟨pre, hpre⟩ := List.exists_mem_of_ne_nil _ (by simpa using hne)
    obtain ⟨v, hv, hprefix⟩ := hb.prefixes pre hpre
    obtain ⟨rfl, -⟩ := Edge.context_values (b := d.source) (by simp) v hv
    refine ⟨Range.rowPrefix (Bytes.ofString pre), List.mem_append_right _ (List.mem_map_of_mem hpre), ?_⟩
    rw [Range.rowPrefix_contains_iff _ hk, hrow]
    exact hprefix.trans (List.prefix_append _ _)

/-- Column families that a plan names include the family of every entry whose edge makes
some branch's bindings true. -/
theorem family_mem_columnFamilies {bs : List Bindings} {b : Bindings} (hb : b ∈ bs)
    (htrue : b.HoldOf d.context) (hne : columnFamilies bs ≠ []) {k : Key}
    (hfam : d.relation ≠ [] → k.family = d.edgeType ++ 47 :: d.relation) :
    k.family ∈ columnFamilies bs := by
  obtain ⟨t, r, ht, hr, hmem⟩ := columnFamilies_mem hb htrue hne
  obtain ⟨htype, -⟩ := bound_context (b := d.edgeType) (by simp) ht
  obtain ⟨hrel, hrne⟩ := bound_context (b := d.relation) (by simp) hr
  rw [hfam hrne, htype, hrel]
  simpa using hmem

end EdgeContext

/-- The patterns a filter matches `SOURCE` against, one per such leaf. -/
def sourcePatterns (e : Expr) : List String :=
  e.leaves.filterMap fun x =>
    match fieldComparison x with
    | some ("SOURCE", .str pattern, .like) => some pattern
    | _ => none

theorem mem_sourcePatterns {e x : Expr} (hx : x ∈ e.leaves) {pattern : String}
    (h : fieldComparison x = some ("SOURCE", .str pattern, .like)) :
    pattern ∈ sourcePatterns e :=
  List.mem_filterMap.2 ⟨x, hx, by simp [h]⟩

/-- The terms of a filter's leaves read an edge's source by their prefixes when the
filter's source patterns do. -/
theorem patternsRead_of_sourcePatterns {d : Edge} {e : Expr}
    (hpat : ∀ pattern ∈ sourcePatterns e, PrefixReads pattern d.source) {a : Atom}
    (ha : a.expr ∈ e.leaves) : PatternsRead d.context a := by
  intro pattern hfc v hv
  obtain ⟨rfl, -⟩ := Edge.context_values (b := d.source) (by simp) v hv
  exact hpat pattern (mem_sourcePatterns ha hfc)

/-! ## Coverage -/

end EdgeQuery.Plan
