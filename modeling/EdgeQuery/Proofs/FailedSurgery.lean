import EdgeQuery.Proofs.TreeSurgery
/-! # What a failed surgery leaves behind

`Forest.replaceChild parent old repl` works in two steps. When `repl` has a parent other than
`parent`, it first cuts `repl` out of that parent, a surgery of its own; only then does it
look for `old` among the children of `parent`. A failure of the second step does not undo
the first. So a failed surgery is not always a surgery that changed nothing: either the
forest is as it was, or `repl` has been cut out of its former parent `q` and nothing else
has moved (`Forest.replaceChild_error_detaches_repl_only`). In the second case the failure is
always `childNotFound`, and a well-formed forest stays well formed.

In `A && B`, asking the leaf `A` to put `B` in the place of `B` fails, since `A` has no
children, but `B` has already left the conjunction (`Forest.replaceChild_error_changes_links`). -/

namespace EdgeQuery.Query

namespace Forest

variable {f f' : Forest}

/-- A relinking fails only when `old` is not found. -/
theorem relink_error {p o : Nat} {x : Option Nat} {e : SurgeryError} (h : f.relink p o x = .error e) :
    e = .childNotFound := by
  unfold relink at h
  split at h
  · cases h
    rfl
  · split at h
    · cases h
      rfl
    · split at h <;> cases h

/-- Relinking a child to nothing is a surgery without a replacement. -/
theorem Relinked.replaced {p o : Nat} {s : Shape} {i : Nat} (hR : Relinked f f' p o none s i) :
    Replaced f f' p o none s i where
  shape := hR.shape
  old_at := hR.old_at
  children_self := hR.children_self
  children_former := fun _ _ h => by cases h
  children_ne := fun h hh _ => hR.children_ne h hh
  parent := fun n => by simp [hR.parent n]
  get?_ne := fun n hnp hno hnr _ => hR.get?_ne n hnp hno hnr

/-- Cutting a node out of its parent keeps a forest well formed. -/
theorem Relinked.wellFormed {p o : Nat} {s : Shape} {i : Nat} (hR : Relinked f f' p o none s i)
    (hf : f.WellFormed) : f'.WellFormed :=
  ⟨hR.replaced.wellLinked hf.toWellLinked (fun _ h => by cases h),
    hR.replaced.acyclic hf (fun _ h => by cases h)⟩

/-- The two ways a surgery fails: before anything changed (no `parent` or `old`, a former
parent of `repl` that does not hold it, or `old` not found when `repl` stayed where it was),
or after `repl` was cut out of a former parent `q` other than `parent`, when `old` was not
found among the children of `parent`. -/
theorem replaceChild_error_cases {parent old repl : Option Nat} {e : SurgeryError}
    (h : f.replaceChild parent old repl = (f', some e)) :
    f' = f ∨ ∃ p r q, parent = some p ∧ repl = some r ∧ f.parentOf r = some q ∧ q ≠ p ∧
      e = .childNotFound ∧ f.relink q r none = .ok f' := by
  unfold replaceChild at h
  split at h
  · rename_i p o
    dsimp only at h
    split at h
    · -- the former parent of `repl` does not hold it: nothing was cut
      cases h
      exact .inl rfl
    · rename_i f₁ hcut
      split at h
      · rename_i e' hrel
        cases h
        -- `old` was not found in `f₁`, the forest after `repl` left its former parent
        split at hcut
        · rename_i r
          split at hcut
          · rename_i q hq
            split at hcut
            · cases hcut
              exact .inl rfl
            · rename_i hqp
              exact .inr ⟨p, r, q, rfl, rfl, hq, hqp, relink_error hrel, hcut⟩
          · cases hcut
            exact .inl rfl
        · cases hcut
          exact .inl rfl
      · cases h
  · cases h
    exact .inl rfl

/-- A failed surgery changes at most one link. Either every node has the parent and the
children it had, or `repl` was cut out of its former parent `q`, another node than `parent`,
before `old` was found missing: `q` loses the slot of `repl` (a junction or a call drops it,
a comparison or arithmetic keeps it empty), `repl` has no parent, every other node keeps its
children and every other node its parent, and a well-formed forest stays well formed. -/
theorem replaceChild_error_detaches_repl_only {parent old repl : Option Nat} {e : SurgeryError}
    (h : f.replaceChild parent old repl = (f', some e)) :
    f' = f ∨ ∃ r q s j, repl = some r ∧ f.parentOf r = some q ∧ parent ≠ some q ∧
      e = .childNotFound ∧ f.shapeOf q = some s ∧ s.children[j]? = some (some r) ∧
      f'.childrenOf q = s.childrenAfter j none ∧ f'.parentOf r = none ∧
      (∀ n, n ≠ q → f'.childrenOf n = f.childrenOf n) ∧
      (∀ n, n ≠ r → f'.parentOf n = f.parentOf n) ∧ (f.WellFormed → f'.WellFormed) := by
  rcases replaceChild_error_cases h with rfl | ⟨p, r, q, rfl, rfl, hq, hqp, rfl, hrel⟩
  · exact .inl rfl
  · obtain ⟨s, j, hR⟩ := relinked_of_relink hrel
    have hpq : some p ≠ some q := fun h => hqp (Option.some.inj h).symm
    refine .inr ⟨r, q, s, j, rfl, hq, hpq, rfl, hR.shape, hR.old_at, hR.children_self, ?_,
      hR.children_ne, fun n hn => ?_, hR.wellFormed⟩
    · simp [hR.parent r]
    · simp [hR.parent n, hn]

/-- Asking the leaf `A` of `A && B` to put `B` in the place of `B` fails, as `A` has no
children; the forest it leaves is still well formed. -/
theorem replaceChild_error_cuts_repl :
    (twoTrees.replaceChild (some 2) (some 3) (some 3)).2 = some .childNotFound ∧
      (twoTrees.replaceChild (some 2) (some 3) (some 3)).1.WellFormed := by
  have h : twoTrees.replaceChild (some 2) (some 3) (some 3) =
      ((twoTrees.replaceChild (some 2) (some 3) (some 3)).1, some .childNotFound) :=
    Prod.ext rfl (by decide)
  refine ⟨congrArg Prod.snd h, ?_⟩
  rcases replaceChild_error_detaches_repl_only h with hf | ⟨-, -, -, -, -, -, -, -, -, -, -, -, -, -, hwf⟩
  · rw [hf]
    exact twoTrees_wellFormed
  · exact hwf twoTrees_wellFormed

/-- A failed surgery can change the forest: in `A && B`, the failed attempt above leaves the
conjunction with `A` alone and `B` without a parent. -/
theorem replaceChild_error_changes_links :
    (twoTrees.replaceChild (some 2) (some 3) (some 3)).2 = some .childNotFound ∧
      twoTrees.childrenOf 1 = [some 2, some 3] ∧
      (twoTrees.replaceChild (some 2) (some 3) (some 3)).1.childrenOf 1 = [some 2] ∧
      twoTrees.parentOf 3 = some 1 ∧
      (twoTrees.replaceChild (some 2) (some 3) (some 3)).1.parentOf 3 = none := by
  decide

end Forest

end EdgeQuery.Query
