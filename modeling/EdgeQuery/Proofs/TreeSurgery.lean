import EdgeQuery.Query.Forest
import Mathlib.Data.List.InsertIdx
import Mathlib.Logic.Relation
/-! # Tree surgery keeps forests well formed

A forest is well formed when its links agree and it has no cycle: a node in a child slot
has the holder of that slot as its parent and fills no other slot, and no node is its own
ancestor. This module shows what `Forest.replaceChild parent old repl` does to such a
forest when it succeeds (`Forest.replaceChild_relinks`): `repl` takes the place of `old`
among the children of `parent` (without `repl`, a junction or a call loses the slot and a
node with fixed slots keeps it empty); `repl` leaves the slot it held before, which its
former holder loses the same way; `old` is left with no parent and in no slot; every other
node is as it was; and the forest is still well formed, as long as `repl` is neither
`parent` nor one of its ancestors.

One case is left out: `repl` already held in another slot of `parent`. The surgery only
detaches `repl` from a parent other than `parent`, so such a node ends in two slots and the
links no longer agree (`Forest.replaceChild_sibling_breaks_links`). When
`repl` is `old` itself the surgery changes nothing, since `old` is first detached and then
attached again; so `old` keeps its parent.

The proof describes one relinking (`Forest.relink`) once, by its effect on children and
parents (`Forest.Relinked`), and puts the surgery together from one or two of them. -/

namespace EdgeQuery.Query

namespace Shape

/-- Whether a node has two fixed slots, which stay when emptied: a comparison or arithmetic. -/
def isPair : Shape → Bool
  | compare .. | arith .. => true
  | _ => false

/-- The children of a node once the child at position `i` gives way to `x`: with `x`, it
takes the position; without, a comparison or arithmetic keeps the position empty and any
other node drops it. -/
def childrenAfter (s : Shape) (i : Nat) (x : Option Nat) : List (Option Nat) :=
  if x.isNone && !s.isPair then s.children.eraseIdx i else s.children.set i x

/-- Replacing a child by identity is replacing the child at its position. -/
theorem children_replaceChild {s s' : Shape} {o : Nat} {x : Option Nat}
    (h : s.replaceChild o x = some s') :
    ∃ i, s.children[i]? = some (some o) ∧ s'.children = s.childrenAfter i x := by
  cases s with
  | root c | not c | paren c =>
    simp only [replaceChild, Option.ite_none_right_eq_some, Option.some.injEq] at h
    obtain ⟨rfl, rfl⟩ := h
    refine ⟨0, rfl, ?_⟩
    cases x <;> rfl
  | compare op l r | arith op l r =>
    simp only [replaceChild] at h
    split at h
    · cases h
      exact ⟨0, by simp [children, *], by simp [children, childrenAfter, isPair]⟩
    · split at h
      · cases h
        exact ⟨1, by simp [children, *], by simp [children, childrenAfter, isPair]⟩
      · cases h
  | field _ | lit _ => simp [replaceChild] at h
  | and ts | or ts | call ns name ts =>
    simp only [replaceChild, Option.map_eq_some_iff, replaceIn] at h
    obtain ⟨ts', h, rfl⟩ := h
    split at h
    · cases h
    · rename_i i hi
      obtain ⟨hlt, hget, -⟩ := List.idxOf?_eq_some_iff.1 hi
      refine ⟨i, by simp [children, hlt, hget], ?_⟩
      cases x with
      | none =>
        cases h
        simp [children, childrenAfter, isPair, List.eraseIdx_map]
      | some r =>
        cases h
        simp [children, childrenAfter, isPair]

end Shape

namespace Forest

/-! ## Reading a forest after an update -/

/-- The shape of a node. -/
def shapeOf (f : Forest) (i : Nat) : Option Shape := (f.get? i).map (·.shape)

theorem childrenOf_eq (f : Forest) (i : Nat) : f.childrenOf i = ((f.shapeOf i).map Shape.children).getD [] := by
  unfold childrenOf shapeOf
  cases f.get? i <;> rfl

theorem get?_eq_some_iff {f : Forest} {i : Nat} : (f.get? i).isSome ↔ i < f.nodes.size := by
  simp [get?]

theorem get?_modify (f : Forest) (i : Nat) (g : Node → Node) (j : Nat) :
    (f.modify i g).get? j = if i = j then (f.get? j).map g else f.get? j := by
  simp [modify, get?, Array.getElem?_modify]

@[simp] theorem size_modify (f : Forest) (i : Nat) (g : Node → Node) :
    (f.modify i g).nodes.size = f.nodes.size := by
  simp [modify]

@[simp] theorem size_setParent (f : Forest) (i : Nat) (q : Option Nat) :
    (f.setParent i q).nodes.size = f.nodes.size := size_modify _ _ _

theorem parentOf_setParent (f : Forest) (i : Nat) (q : Option Nat) (j : Nat) :
    (f.setParent i q).parentOf j = if i = j ∧ j < f.nodes.size then q else f.parentOf j := by
  simp only [parentOf, setParent, get?_modify]
  by_cases hij : i = j
  · subst hij
    by_cases hj : i < f.nodes.size
    · simp [get?, hj]
    · simp [get?, hj]
  · simp [hij]

@[simp] theorem shapeOf_setParent (f : Forest) (i : Nat) (q : Option Nat) (j : Nat) :
    (f.setParent i q).shapeOf j = f.shapeOf j := by
  by_cases hij : i = j <;> simp [shapeOf, setParent, get?_modify, hij, Option.map_map, Function.comp_def]

@[simp] theorem childrenOf_setParent (f : Forest) (i : Nat) (q : Option Nat) (j : Nat) :
    (f.setParent i q).childrenOf j = f.childrenOf j := by
  rw [childrenOf_eq, childrenOf_eq, shapeOf_setParent]

theorem get?_setParent_ne (f : Forest) {i j : Nat} (q : Option Nat) (h : i ≠ j) :
    (f.setParent i q).get? j = f.get? j := by
  simp [setParent, get?_modify, h]

/-- Giving a node a new shape. -/
theorem shapeOf_reshape (f : Forest) (i : Nat) (s : Shape) (j : Nat) :
    (f.modify i fun n => { n with shape := s }).shapeOf j =
      if i = j then (f.shapeOf j).map fun _ => s else f.shapeOf j := by
  by_cases hij : i = j <;> simp [shapeOf, get?_modify, hij, Option.map_map, Function.comp_def]

theorem parentOf_reshape (f : Forest) (i : Nat) (s : Shape) (j : Nat) :
    (f.modify i fun n => { n with shape := s }).parentOf j = f.parentOf j := by
  by_cases hij : i = j
  · subst hij
    simp only [parentOf, get?_modify]
    cases f.get? i <;> rfl
  · simp [parentOf, get?_modify, hij]

theorem childrenOf_reshape_ne (f : Forest) {i j : Nat} (s : Shape) (h : i ≠ j) :
    (f.modify i fun n => { n with shape := s }).childrenOf j = f.childrenOf j := by
  simp [childrenOf, get?_modify, h]

theorem get?_reshape_ne (f : Forest) {i j : Nat} (s : Shape) (h : i ≠ j) :
    (f.modify i fun n => { n with shape := s }).get? j = f.get? j := by
  simp [get?_modify, h]

/-! ## One relinking -/

/-- What relinking the child `o` of `p` to `x` does: `p` held `o` at position `i` of its
children, which gives way to `x`; `o` loses its parent and `x`, when it is a node, takes
`p`; every other node is as it was. -/
structure Relinked (f f' : Forest) (p o : Nat) (x : Option Nat) (s : Shape) (i : Nat) : Prop where
  shape : f.shapeOf p = some s
  old_at : s.children[i]? = some (some o)
  children_self : f'.childrenOf p = s.childrenAfter i x
  children_ne : ∀ h, h ≠ p → f'.childrenOf h = f.childrenOf h
  shape_ne : ∀ h, h ≠ p → f'.shapeOf h = f.shapeOf h
  parent : ∀ n, f'.parentOf n =
    if x = some n ∧ n < f.nodes.size then some p else if n = o then none else f.parentOf n
  get?_ne : ∀ n, n ≠ p → n ≠ o → x ≠ some n → f'.get? n = f.get? n
  size : f'.nodes.size = f.nodes.size

theorem relinked_of_relink {f f' : Forest} {p o : Nat} {x : Option Nat} (h : f.relink p o x = .ok f') :
    ∃ s i, Relinked f f' p o x s i := by
  unfold relink at h
  split at h
  · cases h
  · rename_i n hn
    split at h
    · cases h
    · rename_i s' hs'
      obtain ⟨i, hold, hchildren⟩ := Shape.children_replaceChild hs'
      have hshape : f.shapeOf p = some n.shape := by simp [shapeOf, hn]
      -- the forest after the new shape and the detached `o`, before `x` is attached
      let g := (f.modify p fun m => { m with shape := s' }).setParent o none
      have hg_children : ∀ h, g.childrenOf h = if p = h then s'.children else f.childrenOf h := by
        intro h
        simp only [g, childrenOf_setParent]
        by_cases hph : p = h
        · subst hph
          simp [childrenOf, get?_modify, hn]
        · rw [if_neg hph, childrenOf_reshape_ne f s' hph]
      have hg_shape : ∀ h, h ≠ p → g.shapeOf h = f.shapeOf h := by
        intro h hh
        simp only [g, shapeOf_setParent, shapeOf_reshape, if_neg (Ne.symm hh)]
      have hg_parent : ∀ m, g.parentOf m = if m = o then none else f.parentOf m := by
        intro m
        simp only [g, parentOf_setParent, parentOf_reshape, size_modify]
        by_cases hm : o = m
        · subst hm
          by_cases hlt : o < f.nodes.size
          · simp [hlt]
          · have : f.parentOf o = none := by
              simp [parentOf, get?, Nat.not_lt.1 hlt]
            simp [hlt, this]
        · simp [hm, Ne.symm hm]
      have hg_get : ∀ m, m ≠ p → m ≠ o → g.get? m = f.get? m := by
        intro m hmp hmo
        simp only [g]
        rw [get?_setParent_ne _ _ (Ne.symm hmo), get?_reshape_ne _ _ (Ne.symm hmp)]
      cases x with
      | none =>
        cases h
        refine ⟨n.shape, i, ⟨hshape, hold, ?_, ?_, hg_shape, ?_, ?_, by simp⟩⟩
        · rw [hg_children, if_pos rfl, hchildren]
        · intro h hh
          rw [hg_children, if_neg (Ne.symm hh)]
        · intro m
          show g.parentOf m = _
          simp [hg_parent]
        · intro m hmp hmo _
          exact hg_get m hmp hmo
      | some r =>
        cases h
        refine ⟨n.shape, i, ⟨hshape, hold, ?_, ?_, ?_, ?_, ?_, by simp⟩⟩
        · rw [childrenOf_setParent, hg_children, if_pos rfl, hchildren]
        · intro h hh
          rw [childrenOf_setParent, hg_children, if_neg (Ne.symm hh)]
        · intro h hh
          rw [shapeOf_setParent, hg_shape h hh]
        · intro m
          rw [parentOf_setParent, hg_parent]
          by_cases hrm : r = m
          · subst hrm
            simp
          · simp [hrm]
        · intro m hmp hmo hrm
          rw [get?_setParent_ne _ _ (fun h => hrm (congrArg some h)), hg_get m hmp hmo]

/-! ## Well-formed forests -/

/-- A forest whose links agree: a node in a child slot has the holder of the slot as its
parent, and fills no other slot of it. With the first, no node fills slots of two holders,
so each node fills at most one slot. -/
structure WellLinked (f : Forest) : Prop where
  parent_of_child : ∀ {h c : Nat}, some c ∈ f.childrenOf h → f.parentOf c = some h
  count_le_one : ∀ h c, (f.childrenOf h).count (some c) ≤ 1

/-- One step up: `y` is the parent of `x`. -/
def Up (f : Forest) (x y : Nat) : Prop := f.parentOf x = some y

/-- `a` is an ancestor of `n`: going up from `n` one parent at a time reaches `a`. -/
def Above (f : Forest) (a n : Nat) : Prop := Relation.TransGen f.Up n a

/-- A well-formed forest: its links agree and no node is its own ancestor. -/
structure WellFormed (f : Forest) : Prop extends WellLinked f where
  acyclic : ∀ n, ¬ f.Above n n

/-- A node without a parent has no ancestor. -/
theorem not_above_of_parentOf_none {f : Forest} {a n : Nat} (h : f.parentOf n = none) : ¬ f.Above a n := by
  intro ha
  obtain ⟨m, hm, -⟩ := Relation.TransGen.head'_iff.1 ha
  rw [Up, h] at hm
  cases hm

/-- The ancestors of a node are its parent and the ancestors of its parent. -/
theorem above_iff {f : Forest} {a n : Nat} :
    f.Above a n ↔ ∃ m, f.parentOf n = some m ∧ (a = m ∨ f.Above a m) := by
  unfold Above
  rw [Relation.TransGen.head'_iff]
  simp only [Up, Relation.reflTransGen_iff_eq_or_transGen]

/-- In a forest in which every parent comes before its children, an ancestor comes before
its descendants. -/
theorem lt_of_above {f : Forest} (h : ∀ x y, f.parentOf x = some y → y < x) {a n : Nat}
    (ha : f.Above a n) : a < n := by
  induction ha with
  | single hxy => exact h _ _ hxy
  | tail _ hyz ih => exact Nat.lt_trans (h _ _ hyz) ih

/-- A forest in which every parent comes before its children has no cycle. -/
theorem acyclic_of_parent_lt {f : Forest} (h : ∀ x y, f.parentOf x = some y → y < x) (n : Nat) :
    ¬ f.Above n n :=
  fun hn => Nat.lt_irrefl n (lt_of_above h hn)

theorem lt_size_of_mem_childrenOf {f : Forest} {h : Nat} {c : Option Nat} (hc : c ∈ f.childrenOf h) :
    h < f.nodes.size := by
  rw [← get?_eq_some_iff]
  unfold childrenOf at hc
  cases hn : f.get? h with
  | none => simp [hn] at hc
  | some n => rfl

theorem lt_size_of_parentOf {f : Forest} {x y : Nat} (hx : f.parentOf x = some y) : x < f.nodes.size := by
  rw [← get?_eq_some_iff]
  unfold parentOf at hx
  cases hn : f.get? x with
  | none => simp [hn] at hx
  | some n => rfl

/-- Whether the links agree, checked node by node. -/
def linksAgree (f : Forest) : Bool :=
  (List.range f.nodes.size).all fun h =>
    (f.childrenOf h).all fun c =>
      c.all fun c => f.parentOf c == some h && decide ((f.childrenOf h).count (some c) ≤ 1)

theorem linksAgree_iff {f : Forest} : f.linksAgree = true ↔ f.WellLinked := by
  constructor
  · intro hf
    simp only [linksAgree, List.all_eq_true, List.mem_range, Option.all_eq_true,
      Bool.and_eq_true, beq_iff_eq, decide_eq_true_eq] at hf
    refine ⟨fun {h c} hc => (hf h (lt_size_of_mem_childrenOf hc) _ hc c rfl).1, fun h c => ?_⟩
    by_cases hc : some c ∈ f.childrenOf h
    · exact (hf h (lt_size_of_mem_childrenOf hc) _ hc c rfl).2
    · rw [List.count_eq_zero.2 hc]
      exact Nat.zero_le 1
  · intro hf
    simp only [linksAgree, List.all_eq_true, List.mem_range, Option.all_eq_true,
      Bool.and_eq_true, beq_iff_eq, decide_eq_true_eq]
    rintro h - c hc c rfl
    exact ⟨hf.parent_of_child hc, hf.count_le_one h c⟩

instance : DecidablePred WellLinked := fun _ => decidable_of_iff _ linksAgree_iff

/-- Whether every parent comes before its children. -/
def parentsFirst (f : Forest) : Bool :=
  (List.range f.nodes.size).all fun x => (f.parentOf x).all (· < x)

theorem parent_lt_of_parentsFirst {f : Forest} (hf : f.parentsFirst = true) {x y : Nat}
    (hx : f.parentOf x = some y) : y < x := by
  simp only [parentsFirst, List.all_eq_true, List.mem_range, Option.all_eq_true,
    decide_eq_true_eq] at hf
  exact hf x (lt_size_of_parentOf hx) y hx

/-- When parents come first, no node is an ancestor of a node before it. -/
theorem not_above_of_parentsFirst {f : Forest} (hf : f.parentsFirst = true) {a n : Nat} (h : n ≤ a) :
    ¬ f.Above a n :=
  fun ha => Nat.not_le_of_lt (lt_of_above (fun _ _ => parent_lt_of_parentsFirst hf) ha) h

/-- A forest whose links agree and whose parents come first is well formed. -/
theorem wellFormed_of_parentsFirst {f : Forest} (hl : f.WellLinked) (hf : f.parentsFirst = true) :
    f.WellFormed :=
  ⟨hl, acyclic_of_parent_lt fun _ _ => parent_lt_of_parentsFirst hf⟩

/-! ## Children after one slot gives way -/

/-- Taking out the element at a position takes one occurrence of it away. -/
theorem count_eraseIdx {α : Type} [BEq α] [LawfulBEq α] {l : List α} {i : Nat} {a b : α}
    (h : l[i]? = some a) : (l.eraseIdx i).count b + (if a == b then 1 else 0) = l.count b := by
  obtain ⟨hi, rfl⟩ := List.getElem?_eq_some_iff.1 h
  conv => rhs; rw [← List.take_append_drop i l, List.drop_eq_getElem_cons hi]
  rw [List.eraseIdx_eq_take_drop_succ, List.count_append, List.count_append, List.count_cons]
  omega

/-- After position `i` gives way to `x`, a node occurs among the children as often as
before, once less if it stood at `i`, once more if it is `x`. -/
theorem count_childrenAfter {s : Shape} {i : Nat} {y : Option Nat} (x : Option Nat) (d : Nat)
    (hy : s.children[i]? = some y) :
    (s.childrenAfter i x).count (some d) + (if y = some d then 1 else 0) =
      s.children.count (some d) + (if x = some d then 1 else 0) := by
  have hi : i < s.children.length := (List.getElem?_eq_some_iff.1 hy).1
  have hget : s.children[i] = y := (List.getElem?_eq_some_iff.1 hy).2
  have hpos : 0 < s.children.count y := List.count_pos_iff.2 (List.mem_of_getElem? hy)
  unfold Shape.childrenAfter
  split
  · rename_i hx
    have hnone : x = none := by simpa using (Bool.and_eq_true_iff.1 hx).1
    have := count_eraseIdx (b := some d) hy
    subst hnone
    simpa using this
  · rw [List.count_set hi, hget]
    by_cases hyc : y = some d
    · subst hyc
      by_cases hxc : x = some d <;> simp [hxc] <;> omega
    · by_cases hxc : x = some d <;> simp [hyc, hxc]

theorem mem_childrenAfter {s : Shape} {i : Nat} {x c : Option Nat} (h : c ∈ s.childrenAfter i x) :
    c ∈ s.children ∨ x = c := by
  unfold Shape.childrenAfter at h
  split at h
  · exact .inl (List.mem_of_mem_eraseIdx h)
  · exact (List.mem_or_eq_of_mem_set h).imp_right Eq.symm

/-- A child that stood only at the position that gave way is gone, unless it came back. -/
theorem not_mem_childrenAfter {s : Shape} {i : Nat} {x : Option Nat} {c : Nat}
    (hat : s.children[i]? = some (some c)) (hle : s.children.count (some c) ≤ 1) (hx : x ≠ some c) :
    some c ∉ s.childrenAfter i x := by
  have hcount := count_childrenAfter x c hat
  have hpos : 0 < s.children.count (some c) :=
    List.count_pos_iff.2 (List.mem_of_getElem? hat)
  rw [if_pos rfl, if_neg hx] at hcount
  intro hmem
  have := List.count_pos_iff.2 hmem
  omega

/-- An element found at two positions occurs twice. -/
theorem two_le_count_of_getElem? {α : Type} [BEq α] [LawfulBEq α] {l : List α} {a : α} {i j : Nat}
    (hi : l[i]? = some a) (hj : l[j]? = some a) (hij : i < j) : 2 ≤ l.count a := by
  have h₁ : a ∈ l.take j := List.mem_of_getElem? (by rw [List.getElem?_take_of_lt hij]; exact hi)
  have h₂ : a ∈ l.drop j := List.mem_of_getElem? (i := 0) (by rw [List.getElem?_drop, Nat.add_zero]; exact hj)
  rw [← List.take_append_drop j l, List.count_append]
  have := List.count_pos_iff.2 h₁
  have := List.count_pos_iff.2 h₂
  omega

/-- An element that occurs at most once has at most one position. -/
theorem eq_of_getElem?_of_count_le_one {α : Type} [BEq α] [LawfulBEq α] {l : List α} {a : α} {i j : Nat}
    (hle : l.count a ≤ 1) (hi : l[i]? = some a) (hj : l[j]? = some a) : i = j := by
  rcases Nat.lt_trichotomy i j with hij | hij | hij
  · have := two_le_count_of_getElem? hi hj hij
    omega
  · exact hij
  · have := two_le_count_of_getElem? hj hi hij
    omega

/-- A chain of steps, each of which is a step of `R` when it starts elsewhere than at `r`,
is a chain of `R`, or reaches `r` by a chain of `R` and goes on from there. -/
theorem transGen_split {α : Type} {R R' : α → α → Prop} {r : α} (hR : ∀ x y, x ≠ r → R' x y → R x y)
    {n a : α} (h : Relation.TransGen R' n a) :
    Relation.TransGen R n a ∨ (Relation.ReflTransGen R n r ∧ Relation.TransGen R' r a) := by
  induction h using Relation.TransGen.head_induction_on with
  | @single n hna =>
    by_cases hn : n = r
    · subst hn
      exact .inr ⟨.refl, .single hna⟩
    · exact .inl (.single (hR _ _ hn hna))
  | @head n m hnm hma ih =>
    by_cases hn : n = r
    · subst hn
      exact .inr ⟨.refl, .head hnm hma⟩
    · rcases ih with ih | ⟨hmr, hra⟩
      · exact .inl (.head (hR _ _ hn hnm) ih)
      · exact .inr ⟨.head (hR _ _ hn hnm) hmr, hra⟩

/-! ## The surgery as one or two relinkings -/

/-- A successful surgery relinks `old` at `p`, after relinking `repl` away from its parent
when that parent is another node. -/
theorem replaceChild_steps {f f' : Forest} {p o : Nat} {repl : Option Nat}
    (h : f.replaceChild (some p) (some o) repl = (f', none)) :
    ((∀ r q, repl = some r → f.parentOf r = some q → q = p) ∧ f.relink p o repl = .ok f') ∨
      ∃ r q f₁, repl = some r ∧ f.parentOf r = some q ∧ q ≠ p ∧ f.relink q r none = .ok f₁ ∧
        f₁.relink p o repl = .ok f' := by
  cases repl with
  | none =>
    simp only [Forest.replaceChild] at h
    split at h
    · cases h
    · rename_i f₂ hrel
      cases h
      exact .inl ⟨fun r q h _ => (by cases h), hrel⟩
  | some r =>
    simp only [Forest.replaceChild] at h
    cases hq : f.parentOf r with
    | none =>
      -- `repl` has no parent: nothing to detach
      simp only [hq] at h
      split at h
      · cases h
      · rename_i f₂ hrel
        cases h
        refine .inl ⟨fun r' q h' hq' => ?_, hrel⟩
        cases h'
        rw [hq] at hq'
        cases hq'
    | some q =>
      by_cases hqp : q = p
      · -- `repl` is under `p` already: nothing to detach
        subst hqp
        simp only [hq, ↓reduceIte] at h
        split at h
        · cases h
        · rename_i f₂ hrel
          cases h
          refine .inl ⟨fun r' q' h' hq' => ?_, hrel⟩
          cases h'
          rw [hq] at hq'
          exact (Option.some.inj hq').symm
      · simp only [hq, hqp, ↓reduceIte] at h
        cases h₁ : f.relink q r none with
        | error e =>
          simp only [h₁] at h
          cases h
        | ok f₁ =>
          simp only [h₁] at h
          split at h
          · cases h
          · rename_i f₂ hrel
            cases h
            exact .inr ⟨r, q, f₁, rfl, hq, hqp, h₁, hrel⟩

/-- What a successful surgery does: `p` held `old` at position `i` of its children, which
gives way to `repl`; the former parent of `repl`, when another node, loses it the same way;
`repl` takes `p` as its parent and `old` loses its own; every other node is as it was. -/
structure Replaced (f f' : Forest) (p old : Nat) (repl : Option Nat) (s : Shape) (i : Nat) : Prop where
  shape : f.shapeOf p = some s
  old_at : s.children[i]? = some (some old)
  children_self : f'.childrenOf p = s.childrenAfter i repl
  children_former : ∀ r q, repl = some r → f.parentOf r = some q → q ≠ p →
    ∃ s' j, f.shapeOf q = some s' ∧ s'.children[j]? = some (some r) ∧
      f'.childrenOf q = s'.childrenAfter j none
  children_ne : ∀ h, h ≠ p → (∀ r, repl = some r → f.parentOf r ≠ some h) →
    f'.childrenOf h = f.childrenOf h
  parent : ∀ n, f'.parentOf n = if repl = some n then some p else if n = old then none else f.parentOf n
  get?_ne : ∀ n, n ≠ p → n ≠ old → repl ≠ some n → (∀ r, repl = some r → f.parentOf r ≠ some n) →
    f'.get? n = f.get? n

/-- A successful surgery with a node of the forest, other than `p`, as `repl` does what
`Replaced` says. -/
theorem replaced_of_replaceChild {f f' : Forest} {p old : Nat} {repl : Option Nat}
    (hnode : ∀ r, repl = some r → r < f.nodes.size) (hp : repl ≠ some p)
    (h : f.replaceChild (some p) (some old) repl = (f', none)) :
    ∃ s i, Replaced f f' p old repl s i := by
  rcases replaceChild_steps h with ⟨hprev, hrel⟩ | ⟨r, q, f₁, rfl, hq, hqp, h₁, hrel⟩
  · -- one relinking at `p`
    obtain ⟨s, i, hR⟩ := relinked_of_relink hrel
    refine ⟨s, i, hR.shape, hR.old_at, hR.children_self, ?_, fun h hh _ => hR.children_ne h hh, ?_,
      fun n hnp hno hnr _ => hR.get?_ne n hnp hno hnr⟩
    · intro r q hr hq hqp
      exact absurd (hprev r q hr hq) hqp
    · intro n
      rw [hR.parent]
      by_cases hn : repl = some n
      · rw [if_pos ⟨hn, hnode n hn⟩, if_pos hn]
      · rw [if_neg (fun h => hn h.1), if_neg hn]
  · -- `repl` relinked away from its parent `q` first, then `old` relinked at `p`
    obtain ⟨s₁, j, hR₁⟩ := relinked_of_relink h₁
    obtain ⟨s, i, hR⟩ := relinked_of_relink hrel
    have hpq : p ≠ q := Ne.symm hqp
    refine ⟨s, i, ?_, hR.old_at, hR.children_self, ?_, ?_, ?_, ?_⟩
    · rw [← hR₁.shape_ne p hpq]
      exact hR.shape
    · intro r' q' hr' hq' _
      cases hr'
      rw [hq] at hq'
      cases hq'
      refine ⟨s₁, j, hR₁.shape, hR₁.old_at, ?_⟩
      rw [hR.children_ne q hqp, hR₁.children_self]
    · intro h hhp hh
      have hhq : h ≠ q := fun hhq => hh r rfl (hhq ▸ hq)
      rw [hR.children_ne h hhp, hR₁.children_ne h hhq]
    · intro n
      rw [hR.parent, hR₁.size, hR₁.parent]
      by_cases hrn : r = n
      · subst hrn
        simp [hnode r rfl]
      · have hnr : n ≠ r := Ne.symm hrn
        simp [hrn, hnr]
    · intro n hnp hno hnr hnq
      have hnq' : n ≠ q := fun h => hnq r rfl (h ▸ hq)
      have hnr' : n ≠ r := fun h => hnr (congrArg some h.symm)
      rw [hR.get?_ne n hnp hno hnr, hR₁.get?_ne n hnq' hnr' (by simp)]

theorem childrenOf_of_shapeOf {f : Forest} {h : Nat} {s : Shape} (hs : f.shapeOf h = some s) :
    f.childrenOf h = s.children := by
  rw [childrenOf_eq, hs]
  rfl

section Replaced

variable {f f' : Forest} {p old : Nat} {repl : Option Nat} {s : Shape} {i : Nat}

/-- After a surgery a node holds children it held before, and `p` may hold `repl`. -/
theorem Replaced.mem_children (hR : Replaced f f' p old repl s i) {h c : Nat}
    (hc : some c ∈ f'.childrenOf h) : some c ∈ f.childrenOf h ∨ (h = p ∧ repl = some c) := by
  by_cases hhp : h = p
  · subst hhp
    rw [hR.children_self] at hc
    rcases mem_childrenAfter hc with hc | hc
    · exact .inl (by rwa [childrenOf_of_shapeOf hR.shape])
    · exact .inr ⟨rfl, hc⟩
  · by_cases hq : ∃ r, repl = some r ∧ f.parentOf r = some h
    · obtain ⟨r, hr, hrq⟩ := hq
      obtain ⟨s', j, hs', -, hch⟩ := hR.children_former r h hr hrq hhp
      rw [hch] at hc
      rcases mem_childrenAfter hc with hc | hc
      · exact .inl (by rwa [childrenOf_of_shapeOf hs'])
      · cases hc
    · rw [hR.children_ne h hhp fun r hr hrq => hq ⟨r, hr, hrq⟩] at hc
      exact .inl hc

theorem Replaced.old_mem (hR : Replaced f f' p old repl s i) : some old ∈ f.childrenOf p := by
  rw [childrenOf_of_shapeOf hR.shape]
  exact List.mem_of_getElem? hR.old_at

/-- `old` is in no slot after the surgery, unless it replaced itself. -/
theorem Replaced.old_not_mem (hR : Replaced f f' p old repl s i) (hf : f.WellLinked)
    (hx : repl ≠ some old) (h : Nat) : some old ∉ f'.childrenOf h := by
  intro hc'
  rcases hR.mem_children hc' with hc | ⟨-, hc⟩
  · -- the only holder of `old` was `p`, where it gave way
    have hhp : h = p :=
      Option.some.inj ((hf.parent_of_child hc).symm.trans (hf.parent_of_child hR.old_mem))
    subst hhp
    rw [hR.children_self] at hc'
    have hle := hf.count_le_one h old
    rw [childrenOf_of_shapeOf hR.shape] at hle
    exact not_mem_childrenAfter hR.old_at hle hx hc'
  · exact hx hc

/-- The former parent of `repl` does not hold it any more. -/
theorem Replaced.repl_not_mem_former (hR : Replaced f f' p old repl s i) (hf : f.WellLinked)
    {r q : Nat} (hr : repl = some r) (hq : f.parentOf r = some q) (hqp : q ≠ p) :
    some r ∉ f'.childrenOf q := by
  obtain ⟨s', j, hs', hat, hch⟩ := hR.children_former r q hr hq hqp
  have hle := hf.count_le_one q r
  rw [childrenOf_of_shapeOf hs'] at hle
  rw [hch]
  exact not_mem_childrenAfter hat hle (by simp)

/-- The links still agree after a surgery, when `repl` was not held by `p` in another slot
than the one of `old`. -/
theorem Replaced.wellLinked (hR : Replaced f f' p old repl s i) (hf : f.WellLinked)
    (hsib : ∀ r, repl = some r → some r ∈ f.childrenOf p → r = old) : f'.WellLinked where
  parent_of_child := by
    intro h c hc'
    rw [hR.parent c]
    rcases hR.mem_children hc' with hc | ⟨rfl, hrc⟩
    · by_cases hrc : repl = some c
      · -- `repl` is held only by `p` now
        rw [if_pos hrc]
        by_cases hhp : h = p
        · rw [hhp]
        · exact absurd hc' (hR.repl_not_mem_former hf hrc (hf.parent_of_child hc) hhp)
      · rw [if_neg hrc]
        by_cases hco : c = old
        · subst hco
          exact absurd hc' (hR.old_not_mem hf hrc h)
        · rw [if_neg hco]
          exact hf.parent_of_child hc
    · rw [if_pos hrc]
  count_le_one := by
    intro h c
    by_cases hhp : h = p
    · subst hhp
      rw [hR.children_self]
      have hcount := count_childrenAfter repl c hR.old_at
      have hle := hf.count_le_one h c
      rw [childrenOf_of_shapeOf hR.shape] at hle
      by_cases hrc : repl = some c
      · by_cases hco : old = c
        · subst hco
          simp only [if_pos hrc, ↓reduceIte] at hcount
          omega
        · -- a new child: `repl` was not held by `p` before
          have hnot : some c ∉ s.children := fun hm =>
            hco (hsib c hrc (by rwa [childrenOf_of_shapeOf hR.shape])).symm
          have h0 := List.count_eq_zero.2 hnot
          simp only [Option.some.injEq, hco, if_false, if_pos hrc] at hcount
          omega
      · simp only [if_neg hrc] at hcount
        split at hcount <;> omega
    · by_cases hq : ∃ r, repl = some r ∧ f.parentOf r = some h
      · obtain ⟨r, hr, hrq⟩ := hq
        obtain ⟨s', j, hs', hat, hch⟩ := hR.children_former r h hr hrq hhp
        rw [hch]
        have hcount := count_childrenAfter none c hat
        have hle := hf.count_le_one h c
        rw [childrenOf_of_shapeOf hs'] at hle
        simp only [reduceCtorEq, if_false] at hcount
        split at hcount <;> omega
      · rw [hR.children_ne h hhp fun r hr hrq => hq ⟨r, hr, hrq⟩]
        exact hf.count_le_one h c

/-- No cycle appears: going up after the surgery, only `repl` has a new parent, `p`, and
`p` does not reach `repl` going up, as `repl` is neither `p` nor an ancestor of `p`. -/
theorem Replaced.acyclic (hR : Replaced f f' p old repl s i) (hf : f.WellFormed)
    (hrepl : ∀ r, repl = some r → r ≠ p ∧ ¬ f.Above r p) (n : Nat) : ¬ f'.Above n n := by
  have hstep : ∀ x y, repl ≠ some x → f'.Up x y → f.Up x y := by
    intro x y hx hxy
    unfold Up at hxy ⊢
    rw [hR.parent, if_neg hx] at hxy
    split at hxy
    · cases hxy
    · exact hxy
  intro hn
  cases hr : repl with
  | none =>
    exact hf.acyclic n (Relation.TransGen.mono (fun x y => hstep x y (by simp [hr])) _ _ hn)
  | some r =>
    obtain ⟨hrp, hanc⟩ := hrepl r hr
    have hstep' : ∀ x y, x ≠ r → f'.Up x y → f.Up x y := fun x y hx =>
      hstep x y (by rw [hr]; exact fun h => hx (Option.some.inj h).symm)
    have hpr : ¬ Relation.ReflTransGen f.Up p r := by
      intro h
      rcases Relation.reflTransGen_iff_eq_or_transGen.1 h with h | h
      · exact hrp h
      · exact hanc h
    have hup : f'.Up r p := by
      unfold Up
      rw [hR.parent, if_pos hr]
    rcases transGen_split hstep' hn with h | ⟨hnr, hrn⟩
    · exact hf.acyclic n h
    · -- the cycle leaves `repl` for `p`, so `p` reaches `n` and `n` reaches `repl`
      obtain ⟨m, hrm, hmn⟩ := Relation.TransGen.head'_iff.1 hrn
      have hm : m = p := by
        unfold Up at hrm hup
        rw [hrm] at hup
        exact Option.some.inj hup
      subst hm
      rcases Relation.reflTransGen_iff_eq_or_transGen.1 hmn with hnm | hmn
      · subst hnm
        exact hpr hnr
      · rcases transGen_split hstep' hmn with h | ⟨h, -⟩
        · exact hpr (Relation.ReflTransGen.trans h.to_reflTransGen hnr)
        · exact hpr h

end Replaced

theorem getElem?_childrenAfter_self {s : Shape} {i : Nat} {y : Option Nat} (r : Nat)
    (hat : s.children[i]? = some y) : (s.childrenAfter i (some r))[i]? = some (some r) := by
  have hi : i < s.children.length := (List.getElem?_eq_some_iff.1 hat).1
  simp [Shape.childrenAfter, hi]

/-- Replacing a child of a well-formed forest keeps it well formed, when `repl` is a node
of the forest that is neither `p` nor an ancestor of `p`, and `p` holds it in no other slot
than that of `old`. The surgery does what `Replaced` says; then `old` is left with no
parent and in no slot, unless it replaced itself, and `repl` has `p` as its parent and
fills exactly the slot of `old`. -/
theorem replaceChild_relinks {f f' : Forest} {p old : Nat} {repl : Option Nat} (hf : f.WellFormed)
    (hnode : ∀ r, repl = some r → r < f.nodes.size)
    (hrepl : ∀ r, repl = some r → r ≠ p ∧ ¬ f.Above r p)
    (hsib : ∀ r, repl = some r → some r ∈ f.childrenOf p → r = old)
    (h : f.replaceChild (some p) (some old) repl = (f', none)) :
    f'.WellFormed ∧ ∃ s i, Replaced f f' p old repl s i ∧
      (repl ≠ some old → f'.parentOf old = none ∧ ∀ h, some old ∉ f'.childrenOf h) ∧
      ∀ r, repl = some r → f'.parentOf r = some p ∧ (f'.childrenOf p)[i]? = some (some r) ∧
        ∀ h j, (f'.childrenOf h)[j]? = some (some r) → h = p ∧ j = i := by
  have hp : repl ≠ some p := fun hr => (hrepl p hr).1 rfl
  obtain ⟨s, i, hR⟩ := replaced_of_replaceChild hnode hp h
  have hwl : f'.WellLinked := hR.wellLinked hf.toWellLinked hsib
  refine ⟨⟨hwl, hR.acyclic hf hrepl⟩, s, i, hR, fun hx => ⟨?_, hR.old_not_mem hf.toWellLinked hx⟩, ?_⟩
  · rw [hR.parent, if_neg hx, if_pos rfl]
  · intro r hr
    have hpar : f'.parentOf r = some p := by rw [hR.parent, if_pos hr]
    have hat : (f'.childrenOf p)[i]? = some (some r) := by
      rw [hR.children_self, hr]
      exact getElem?_childrenAfter_self r hR.old_at
    refine ⟨hpar, hat, fun q j hj => ?_⟩
    -- the holder of a slot of `repl` is its parent, and `p` holds it once
    have hq : q = p :=
      Option.some.inj ((hwl.parent_of_child (List.mem_of_getElem? hj)).symm.trans hpar)
    subst hq
    exact ⟨rfl, eq_of_getElem?_of_count_le_one (hwl.count_le_one q r) hj hat⟩

/-- Two trees: the root `0` over `A && B` (nodes `1` to `3`) and the root `4` over
`C || D` (nodes `5` to `7`). -/
def twoTrees : Forest where
  nodes := #[⟨.root (some 1), none⟩, ⟨.and [2, 3], some 0⟩, ⟨.field "A", some 1⟩,
    ⟨.field "B", some 1⟩, ⟨.root (some 5), none⟩, ⟨.or [6, 7], some 4⟩, ⟨.field "C", some 5⟩,
    ⟨.field "D", some 5⟩]

theorem twoTrees_wellFormed : twoTrees.WellFormed :=
  wellFormed_of_parentsFirst (linksAgree_iff.1 (by decide)) (by decide)

/-- Moving `C` from the second tree into the place of `A` in the first. -/
theorem replaceChild_relinks_across_trees :
    (twoTrees.replaceChild (some 1) (some 2) (some 6)).2 = none ∧
      (twoTrees.replaceChild (some 1) (some 2) (some 6)).1.WellFormed := by
  have h2 : (twoTrees.replaceChild (some 1) (some 2) (some 6)).2 = none := by decide
  have h : twoTrees.replaceChild (some 1) (some 2) (some 6) =
      ((twoTrees.replaceChild (some 1) (some 2) (some 6)).1, none) := Prod.ext rfl h2
  refine ⟨h2, (replaceChild_relinks twoTrees_wellFormed (fun r hr => ?_) (fun r hr => ?_)
    (fun r hr => ?_) h).1⟩
  · cases hr
    decide
  · cases hr
    exact ⟨by decide, not_above_of_parentsFirst (by decide) (by decide)⟩
  · cases hr
    decide

/-- A node already held by `p` in another slot is not detached first, and ends in two slots:
in `A && B`, putting `B` in the place of `A` gives `B && B` with one node twice. -/
theorem replaceChild_sibling_breaks_links :
    twoTrees.WellFormed ∧ ¬ twoTrees.Above 3 1 ∧
      (twoTrees.replaceChild (some 1) (some 2) (some 3)).2 = none ∧
      (twoTrees.replaceChild (some 1) (some 2) (some 3)).1.childrenOf 1 = [some 3, some 3] ∧
      ¬ (twoTrees.replaceChild (some 1) (some 2) (some 3)).1.WellLinked :=
  ⟨twoTrees_wellFormed, not_above_of_parentsFirst (by decide) (by decide), by decide, by decide,
    by decide⟩

end Forest

end EdgeQuery.Query
