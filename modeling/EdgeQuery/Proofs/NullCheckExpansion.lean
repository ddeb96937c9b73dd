import EdgeQuery.Proofs.ResidualRoundTrip
/-! # Expanding null checks is complete and idempotent

`Expr.expandNullChecks` replaces the null checks `filter:isNull(...)` and
`filter:isNotNull(...)` of a filter's boolean skeleton by comparisons with `null`, takes out a
check that names no field, and lets the nearest junction above a check that became a junction
take in its terms. The skeleton is what parentheses, negations, conjunctions and disjunctions
lead to (`Expr.InSkeleton`); a check inside a comparison, arithmetic or another call stays.

This module shows, for every tree, also one with the empty slots and empty junctions that
tree surgery leaves:

* no null check stands in the skeleton of the result (`checkFree_expandNullChecks`): the
  comparisons written are no calls, and splicing and taking out only move and drop terms;
* a tree without one is left as it is (`expandNullChecks_of_checkFree`), so a second pass
  changes nothing (`expandNullChecks_idem`).

For a tree that the printer writes faithfully, in particular every tree that reading gives,
the printed result reads back as a tree that the pass leaves alone and that prints as the
same text (`parse_render_expandNullChecks`). That needs the tree to be printable: a negation
whose term surgery took out prints as `!()`, which does not read
(`expandNullChecks_emptied_negation_unreadable`). -/

namespace EdgeQuery.Query

namespace Expr

/-! ## No null check is left -/

/-- Looking through parentheses keeps a tree free of null checks. -/
theorem CheckFree.deref : (e : Expr) → e.CheckFree → e.deref.CheckFree
  | .paren t, h => by
    match t with
    | .hole => exact h
    | .paren u =>
      rw [Expr.deref]
      exact CheckFree.deref (.paren u) h.of_paren
    | .field _ | .lit _ | .compare .. | .arith .. | .and _ | .or _ | .not _ | .call .. =>
      exact h.of_paren
  | .field _, h | .lit _, h | .compare .., h | .arith .., h | .and _, h | .or _, h | .not _, h
  | .call .., h | .hole, h => h

theorem CheckFree.andPieces {e : Expr} (h : e.CheckFree) : ∀ u ∈ e.andPieces, u.CheckFree := by
  cases e with
  | and ts => exact h.of_and
  | _ => simpa [Expr.andPieces] using h

theorem CheckFree.orPieces {e : Expr} (h : e.CheckFree) : ∀ u ∈ e.orPieces, u.CheckFree := by
  cases e with
  | or ts => exact h.of_or
  | _ => simpa [Expr.orPieces] using h

/-- The terms a junction keeps, spliced one level or not, are free of null checks when its
kept terms are. -/
theorem CheckFree.spliced (c : Bool) {L : List Expr} (hL : ∀ t ∈ L, t.CheckFree) :
    (∀ u ∈ (if c then spliceAnd L else L), u.CheckFree) ∧
      ∀ u ∈ (if c then spliceOr L else L), u.CheckFree := by
  cases c
  · exact ⟨hL, hL⟩
  · -- a spliced term is a term of a kept term, looked at through its parentheses
    refine ⟨fun u hu => ?_, fun u hu => ?_⟩
    · obtain ⟨t, ht, hu⟩ := List.mem_flatMap.1 hu
      exact ((hL t ht).deref t).andPieces u hu
    · obtain ⟨t, ht, hu⟩ := List.mem_flatMap.1 hu
      exact ((hL t ht).deref t).orPieces u hu

/-- The comparisons replacing a null check call nothing. -/
theorem checkFree_of_checkFields {present : Bool} {names : List String} {e : Expr} {spread : Bool}
    (h : checkFields present names = some (e, spread)) : e.CheckFree := by
  have hone : ∀ n, (if present then Expr.not (isNullOf n) else isNullOf n).CheckFree := by
    intro n
    have hleaf : (isNullOf n).CheckFree := checkFree_leaf rfl rfl
    cases present
    · exact hleaf
    · exact checkFree_not hleaf
  match names, h with
  | [], h => simp [checkFields] at h
  | [n], h =>
    simp only [checkFields, Option.some.injEq, Prod.mk.injEq] at h
    rw [← h.1]
    exact hone n
  | n :: m :: rest, h =>
    simp only [checkFields, Option.some.injEq, Prod.mk.injEq] at h
    rw [← h.1]
    have hterms : ∀ t ∈ (n :: m :: rest).map
        (fun k => if present then Expr.not (isNullOf k) else isNullOf k), t.CheckFree := by
      intro t ht
      obtain ⟨k, -, rfl⟩ := List.mem_map.1 ht
      exact hone k
    cases present
    · exact checkFree_and hterms
    · exact checkFree_or hterms

/-- A junction the expansion keeps is free of null checks when its terms are. -/
theorem checkFree_keptJunction (node : List Expr → Expr)
    (hnode : ∀ {L : List Expr}, (∀ u ∈ L, u.CheckFree) → (node L).CheckFree)
    {ts terms : List Expr} {spread : Bool} {y : Expr} (hterms : ∀ u ∈ terms, u.CheckFree)
    (hx : (if (!ts.isEmpty && terms.isEmpty) = true then Expansion.removed
      else .kept (node terms) false) = .kept y spread) :
    y.CheckFree := by
  split at hx
  · cases hx
  · cases hx
    exact hnode hterms

mutual

/-- What the expansion keeps of any tree has no null check in its skeleton. -/
theorem checkFree_of_expandNulls : (x : Expr) → ∀ {y : Expr} {spread : Bool},
    expandNulls x = .kept y spread → y.CheckFree
  | .call ns name args, y, spread, hx => by
    simp only [expandNulls] at hx
    split at hx
    · -- another function: kept as it is
      rename_i hnone
      cases hx
      exact checkFree_leaf rfl (by simp [isNullCheck, hnone])
    · split at hx
      · cases hx
      · rename_i hcf
        cases hx
        exact checkFree_of_checkFields hcf
  | .not t, y, spread, hx => by
    by_cases ht : t = hole
    · subst ht
      cases hx
      exact checkFree_not checkFree_hole
    · rw [expandNulls_not ht] at hx
      obtain ⟨y', he, rfl⟩ := expansion_around_eq_kept hx
      exact checkFree_not (checkFree_of_expandNulls t he)
  | .paren t, y, spread, hx => by
    by_cases ht : t = hole
    · subst ht
      cases hx
      exact checkFree_paren checkFree_hole
    · rw [expandNulls_paren ht] at hx
      obtain ⟨y', he, rfl⟩ := expansion_around_eq_kept hx
      exact checkFree_paren (checkFree_of_expandNulls t he)
  | .and ts, y, spread, hx => by
    simp only [expandNulls] at hx
    exact checkFree_keptJunction Expr.and checkFree_and
      (CheckFree.spliced _ (checkFree_of_expandNullsAll ts)).1 hx
  | .or ts, y, spread, hx => by
    simp only [expandNulls] at hx
    exact checkFree_keptJunction Expr.or checkFree_or
      (CheckFree.spliced _ (checkFree_of_expandNullsAll ts)).2 hx
  | .field _, y, spread, hx | .lit _, y, spread, hx | .compare .., y, spread, hx
  | .arith .., y, spread, hx => by
    cases hx
    exact checkFree_leaf rfl rfl
  | .hole, y, spread, hx => by
    cases hx
    exact checkFree_hole

/-- The terms the expansion keeps of a junction have no null check in their skeletons. -/
theorem checkFree_of_expandNullsAll :
    (ts : List Expr) → ∀ u ∈ (expandNullsAll ts).map Prod.fst, u.CheckFree
  | [] => by simp [expandNullsAll]
  | t :: ts => by
    intro u hu
    simp only [expandNullsAll] at hu
    split at hu
    · exact checkFree_of_expandNullsAll ts u hu
    · rename_i y s he
      rcases List.mem_cons.1 hu with rfl | hu
      · exact checkFree_of_expandNulls t he
      · exact checkFree_of_expandNullsAll ts u hu

end

/-- After the expansion no null check stands in the skeleton. -/
theorem checkFree_expandNullChecks (e : Expr) : e.expandNullChecks.CheckFree := by
  unfold expandNullChecks
  split
  · exact checkFree_hole
  · rename_i y s hx
    exact checkFree_of_expandNulls e hx

/-! ## A second pass changes nothing -/

/-- The expansion leaves a tree with no null check in its skeleton as it is. -/
theorem expandNullChecks_of_checkFree {e : Expr} (h : e.CheckFree) : e.expandNullChecks = e := by
  unfold expandNullChecks
  rw [expandNulls_of_checkFree e h]

/-- Expanding null checks twice is expanding them once. -/
theorem expandNullChecks_idem (e : Expr) : e.expandNullChecks.expandNullChecks = e.expandNullChecks :=
  expandNullChecks_of_checkFree (checkFree_expandNullChecks e)

/-! ## The printed result reads back -/

/-- A tree the printer writes faithfully is a skeleton over leaves it writes faithfully. -/
theorem Printable.toSkeleton {e : Expr} (h : e.Printable) : e.Skeleton Printable := by
  induction h with
  | field hn => exact .leaf (.field hn) rfl
  | lit hl => exact .leaf (.lit hl) rfl
  | compare hl hr => exact .leaf (.compare hl hr) rfl
  | arith hl hr => exact .leaf (.arith hl hr) rfl
  | call hns hname hargs => exact .leaf (.call hns hname hargs) rfl
  | and hne _ ih => exact .and hne ih
  | or hne _ ih => exact .or hne ih
  | not _ ih => exact .not ih
  | paren _ ih => exact .paren ih

/-- The fields a printable call mentions are names, so each `name == null` prints. -/
theorem printable_isNullOf {ns name : String} {args : List Expr} (h : (call ns name args).Printable) :
    ∀ n ∈ fieldsAll args, (isNullOf n).Printable :=
  fun n hn => .compare (.field (h.isName_of_mem_fields n hn)) (.lit trivial)

/-- The non-empty printed expansion of a tree the printer writes faithfully reads back as a
tree whose expansion prints as the same text. -/
theorem parse_render_expandNullChecks {e : Expr} (hp : e.Printable)
    (hne : e.expandNullChecks.render ≠ "") :
    ∃ e', parse e.expandNullChecks.render = .ok e' ∧
      e'.expandNullChecks.render = e.expandNullChecks.render := by
  cases hx : expandNulls e with
  | removed =>
    -- the whole tree was taken out: it prints as nothing
    have hhole : e.expandNullChecks = hole := by
      unfold expandNullChecks
      rw [hx]
    exact absurd (by rw [hhole]; rfl) hne
  | kept y s =>
    have hy : e.expandNullChecks = y := by
      unfold expandNullChecks
      rw [hx]
    -- the kept tree is a skeleton over printable leaves that are no null checks
    have hsk := skeleton_of_expandNulls printable_isNullOf e hp.toSkeleton hx
    have hyp : y.Printable := hsk.printable fun _ hz => hz.1
    have hfree : y.reread.CheckFree :=
      (hsk.reread_checkFree fun _ hz => hz.2).checkFree fun _ hz => hz
    rw [hy]
    refine ⟨y.reread, Grammar.parse_render hyp, ?_⟩
    rw [expandNullChecks_of_checkFree hfree, render_reread hyp]

/-- The expansion of null checks is complete and idempotent. Over every tree, also one with
empty slots or empty junctions, it leaves no null check where only parentheses, negations
and junctions lead, and a second pass gives the same tree. For a tree that the printer
writes faithfully (every tree that reading gives is one), the text of the result, when not
empty, reads back as a tree whose expansion prints as that text again. -/
theorem expandNullChecks_complete_idempotent (e : Expr) :
    (∀ x, InSkeleton e.expandNullChecks x → x.isNullCheck = false) ∧
      e.expandNullChecks.expandNullChecks = e.expandNullChecks ∧
      (e.Printable → e.expandNullChecks.render ≠ "" →
        ∃ e', parse e.expandNullChecks.render = .ok e' ∧
          e'.expandNullChecks.render = e.expandNullChecks.render) :=
  ⟨checkFree_expandNullChecks e, expandNullChecks_idem e,
    fun hp hne => parse_render_expandNullChecks hp hne⟩

/-- A check of a disjunction of two fields, next to a comparison, expands to two comparisons
taken into the conjunction, and the printed result reads back and expands to the same
text. -/
theorem expandNullChecks_conjoined_check :
    ∃ e, parse "X == 1 && filter:isNull(A || B)" = .ok e ∧ e.Printable ∧
      e.expandNullChecks.render = "X == 1 && A == null && B == null" ∧
      ∃ e', parse e.expandNullChecks.render = .ok e' ∧
        e'.expandNullChecks.render = e.expandNullChecks.render := by
  have hX : IsName "X" := ⟨[88], ⟨by decide, by decide +kernel⟩, by decide, by decide +kernel⟩
  have hA : IsName "A" := ⟨[65], ⟨by decide, by decide +kernel⟩, by decide, by decide +kernel⟩
  have hB : IsName "B" := ⟨[66], ⟨by decide, by decide +kernel⟩, by decide, by decide +kernel⟩
  have hp : (Expr.and [.compare .eq (.field "X") (.lit (.int 1)),
      .call "filter" "isNull" [.or [.field "A", .field "B"]]]).Printable :=
    .and (by simp) (by
      simp only [List.mem_cons, List.not_mem_nil, or_false, forall_eq_or_imp, forall_eq]
      have h63 : Int.pow 2 63 = 9223372036854775808 := by decide
      exact ⟨.compare (.field hX) (.lit (show -Int.pow 2 63 ≤ 1 ∧ 1 < Int.pow 2 63 by omega)),
        .call (.inr Eval.isName_filter) Eval.isName_isNull (by
          simp only [List.mem_singleton, forall_eq]
          exact .or (by simp) (by simp [Printable.field hA, Printable.field hB]))⟩)
  have htext : (Expr.and [.compare .eq (.field "X") (.lit (.int 1)),
      .call "filter" "isNull" [.or [.field "A", .field "B"]]]).render =
      "X == 1 && filter:isNull(A || B)" := by
    decide
  have h := Grammar.parse_render hp
  rw [htext] at h
  have hpe := (Grammar.parsed_of_parse h).1
  have hout : (Expr.and [.compare .eq (.field "X") (.lit (.int 1)),
      .call "filter" "isNull" [.or [.field "A", .field "B"]]]).reread.expandNullChecks.render =
      "X == 1 && A == null && B == null" := by
    decide
  have hne : (Expr.and [.compare .eq (.field "X") (.lit (.int 1)),
      .call "filter" "isNull" [.or [.field "A", .field "B"]]]).reread.expandNullChecks.render ≠ "" := by
    rw [hout]
    decide
  exact ⟨_, h, hpe, hout, (expandNullChecks_complete_idempotent _).2.2 hpe hne⟩

/-- A negation whose term tree surgery took out is left by the expansion, and prints as
`!()`, a text that does not read. -/
theorem expandNullChecks_emptied_negation_unreadable :
    (Expr.not .hole).expandNullChecks = .not .hole ∧
      (Expr.not .hole).expandNullChecks.render = "!()" ∧
      ∀ e', parse (Expr.not .hole).expandNullChecks.render ≠ .ok e' := by
  have hfail : (parse "!()").toBool = false := by decide +kernel
  refine ⟨rfl, rfl, fun e' h => ?_⟩
  rw [show (Expr.not .hole).expandNullChecks.render = "!()" from rfl] at h
  rw [h] at hfail
  cases hfail

end Expr

end EdgeQuery.Query
