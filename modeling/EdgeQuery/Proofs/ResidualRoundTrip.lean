import EdgeQuery.Proofs.CompileParens
import EdgeQuery.Proofs.FlattenEvaluation
/-! # The residual of a filter

A filter is normalized before it is evaluated or planned (`Expr.normalize`), and a plan
carries the normalized filter as text, its residual, which is read and compiled again where
records are evaluated. The main theorem, `compileQuery_render_normalize`, says that nothing
is lost on the way: for every text that reads as a filter, the printed normal form is empty
exactly when normalization takes the whole filter out; otherwise it reads back, and compiling
that text (reading and normalizing it again) succeeds exactly when compiling the normal form
does, with the same evaluation of every context and document.

The empty residual is the exception: `filter:isNull()` checks no field and is taken out, and
its empty text does not read, while the emptied filter compiles to a condition that holds of
nothing (`compileQuery_emptied_filter`).

The proof follows the trees. Normalization turns a tree that reading gives into a residual
tree (`Expr.Residual`): a skeleton of conjunctions, disjunctions, negations and parentheses
over leaves that reading gives and that are no null checks (`Expr.normalize_residual`). Such
a tree is printable, so its text reads back as the tree `reread` gives, which is again a
skeleton and calls no null check; normalizing that only flattens it
(`Expr.normalize_reread`). Flattening evaluates alike (`flatten_compilesAlike`), and so does
reading back (`evaluatesAlike_reread`): a leaf reads back as itself up to parentheses, which
compilation looks through, and a chain of one term reads back as that term, which a junction
of one term evaluates as. -/

namespace EdgeQuery.Query

namespace Expr

/-! ## Skeletons -/

/-- Whether a node is a call of a null check, `filter:isNull` or `filter:isNotNull`. -/
def isNullCheck : Expr → Bool
  | call ns name _ => (nullCheck? ns name).isSome
  | _ => false

/-- A boolean skeleton over leaves that `P` admits: conjunctions and disjunctions with terms,
negations and parentheses, down to leaves that are no connectives. -/
inductive Skeleton (P : Expr → Prop) : Expr → Prop
  | leaf {e : Expr} : P e → e.isConnective = false → Skeleton P e
  | and {ts : List Expr} : ts ≠ [] → (∀ t ∈ ts, Skeleton P t) → Skeleton P (and ts)
  | or {ts : List Expr} : ts ≠ [] → (∀ t ∈ ts, Skeleton P t) → Skeleton P (or ts)
  | not {t : Expr} : Skeleton P t → Skeleton P (not t)
  | paren {t : Expr} : Skeleton P t → Skeleton P (paren t)

/-- The trees normalization leaves of a filter that reading gives, when it leaves one: a
skeleton over leaves that reading gives and that are no null checks. -/
def Residual (e : Expr) : Prop := e.Skeleton fun x => x.Parsed ∧ x.isNullCheck = false

/-- `x` stands in `e` where only parentheses, negations, conjunctions and disjunctions lead
to it: the nodes that the expansion of null checks looks through. -/
inductive InSkeleton : Expr → Expr → Prop
  | self (e : Expr) : InSkeleton e e
  | not {t x : Expr} : InSkeleton t x → InSkeleton (not t) x
  | paren {t x : Expr} : InSkeleton t x → InSkeleton (paren t) x
  | and {ts : List Expr} {t x : Expr} : t ∈ ts → InSkeleton t x → InSkeleton (and ts) x
  | or {ts : List Expr} {t x : Expr} : t ∈ ts → InSkeleton t x → InSkeleton (or ts) x

/-- No null check stands in the boolean skeleton of a tree. Unlike a `Skeleton`, the tree
may have empty slots and junctions without terms, as tree surgery leaves them. -/
def CheckFree (e : Expr) : Prop := ∀ x, InSkeleton e x → x.isNullCheck = false

namespace Skeleton

variable {P : Expr → Prop}

theorem ne_hole {e : Expr} (h : e.Skeleton P) : e ≠ hole := by
  cases h with
  | leaf _ hc =>
    rintro rfl
    simp [isConnective] at hc
  | _ => simp

theorem of_paren {t : Expr} (h : (Expr.paren t).Skeleton P) : t.Skeleton P := by
  cases h with
  | leaf _ hc => simp [isConnective] at hc
  | paren ht => exact ht

theorem of_not {t : Expr} (h : (Expr.not t).Skeleton P) : t.Skeleton P := by
  cases h with
  | leaf _ hc => simp [isConnective] at hc
  | not ht => exact ht

theorem of_and {ts : List Expr} (h : (Expr.and ts).Skeleton P) :
    ts ≠ [] ∧ ∀ t ∈ ts, t.Skeleton P := by
  cases h with
  | leaf _ hc => simp [isConnective] at hc
  | and hne hts => exact ⟨hne, hts⟩

theorem of_or {ts : List Expr} (h : (Expr.or ts).Skeleton P) :
    ts ≠ [] ∧ ∀ t ∈ ts, t.Skeleton P := by
  cases h with
  | leaf _ hc => simp [isConnective] at hc
  | or hne hts => exact ⟨hne, hts⟩

/-- A skeleton is printable when its leaves are. -/
theorem printable (hP : ∀ x, P x → x.Printable) {e : Expr} (h : e.Skeleton P) :
    e.Printable := by
  induction h with
  | leaf hp _ => exact hP _ hp
  | and hne _ ih => exact .and hne ih
  | or hne _ ih => exact .or hne ih
  | not _ ih => exact .not ih
  | paren _ ih => exact .paren ih

/-- What a skeleton gives to a conjunction: its own terms if it is one, else itself. -/
theorem andPieces {e : Expr} (h : e.Skeleton P) :
    e.andPieces ≠ [] ∧ ∀ u ∈ e.andPieces, u.Skeleton P := by
  cases e with
  | and ts => exact h.of_and
  | _ => exact ⟨by simp [Expr.andPieces], by simpa [Expr.andPieces] using h⟩

theorem orPieces {e : Expr} (h : e.Skeleton P) :
    e.orPieces ≠ [] ∧ ∀ u ∈ e.orPieces, u.Skeleton P := by
  cases e with
  | or ts => exact h.of_or
  | _ => exact ⟨by simp [Expr.orPieces], by simpa [Expr.orPieces] using h⟩

theorem deref : (e : Expr) → e.Skeleton P → e.deref.Skeleton P
  | .paren t, h => by
    match t, h.of_paren with
    | .hole, ht => exact absurd rfl ht.ne_hole
    | .paren u, ht => rw [Expr.deref]; exact deref (.paren u) ht
    | .field _, ht | .lit _, ht | .compare .., ht | .arith .., ht | .and _, ht | .or _, ht
    | .not _, ht | .call .., ht => exact ht
  | .field _, h | .lit _, h | .compare .., h | .arith .., h | .and _, h | .or _, h | .not _, h
  | .call .., h | .hole, h => h

theorem junction {mk : List Expr → Expr}
    (hmk : ∀ L, L ≠ [] → (∀ u ∈ L, u.Skeleton P) → (mk L).Skeleton P) {L : List Expr}
    (hne : L ≠ []) (hL : ∀ u ∈ L, u.Skeleton P) : (Expr.junction mk L).Skeleton P := by
  match L, hne, hL with
  | [u], _, hL => exact hL u (by simp)
  | [], hne, _ => exact absurd rfl hne
  | _ :: _ :: _, hne, hL => exact hmk _ hne hL

/-- Splicing keeps the terms of a junction skeletons. -/
theorem spliceAnd {L : List Expr} (hL : ∀ t ∈ L, t.Skeleton P) :
    ∀ u ∈ Expr.spliceAnd L, u.Skeleton P := by
  intro u hu
  obtain ⟨t, ht, hu⟩ := List.mem_flatMap.1 hu
  exact ((hL t ht).deref t).andPieces.2 u hu

theorem spliceOr {L : List Expr} (hL : ∀ t ∈ L, t.Skeleton P) :
    ∀ u ∈ Expr.spliceOr L, u.Skeleton P := by
  intro u hu
  obtain ⟨t, ht, hu⟩ := List.mem_flatMap.1 hu
  exact ((hL t ht).deref t).orPieces.2 u hu

/-- The terms a junction keeps, spliced or not, are skeletons when its kept terms are. -/
theorem spliced {splice : List Expr → List Expr}
    (hsplice : ∀ {L}, (∀ t ∈ L, t.Skeleton P) → ∀ u ∈ splice L, u.Skeleton P) (c : Bool)
    {L : List Expr} (hL : ∀ t ∈ L, t.Skeleton P) :
    ∀ u ∈ (if c then splice L else L), u.Skeleton P := by
  cases c
  · exact hL
  · exact hsplice hL

end Skeleton

/-! ## Null checks in the skeleton -/

/-- Only the node itself stands in the skeleton of a node that is no connective. -/
theorem InSkeleton.eq_of_isConnective {e x : Expr} (h : InSkeleton e x)
    (he : e.isConnective = false) : x = e := by
  cases h with
  | self => rfl
  | _ => simp [isConnective] at he

namespace CheckFree

theorem of_not {t : Expr} (h : (not t).CheckFree) : t.CheckFree := fun x hx => h x (.not hx)

theorem of_paren {t : Expr} (h : (paren t).CheckFree) : t.CheckFree := fun x hx => h x (.paren hx)

theorem of_and {ts : List Expr} (h : (and ts).CheckFree) : ∀ t ∈ ts, t.CheckFree :=
  fun _ ht x hx => h x (.and ht hx)

theorem of_or {ts : List Expr} (h : (or ts).CheckFree) : ∀ t ∈ ts, t.CheckFree :=
  fun _ ht x hx => h x (.or ht hx)

theorem nullCheck?_eq_none {ns name : String} {args : List Expr} (h : (call ns name args).CheckFree) :
    nullCheck? ns name = none := by
  simpa [isNullCheck] using h _ (.self _)

end CheckFree

theorem checkFree_leaf {e : Expr} (he : e.isConnective = false) (hc : e.isNullCheck = false) :
    e.CheckFree :=
  fun _ hx => (hx.eq_of_isConnective he) ▸ hc

theorem checkFree_hole : hole.CheckFree := by
  intro _ hx
  cases hx
  rfl

theorem checkFree_not {t : Expr} (ht : t.CheckFree) : (not t).CheckFree := by
  intro x hx
  cases hx with
  | self => rfl
  | not hx => exact ht x hx

theorem checkFree_paren {t : Expr} (ht : t.CheckFree) : (paren t).CheckFree := by
  intro x hx
  cases hx with
  | self => rfl
  | paren hx => exact ht x hx

theorem checkFree_and {ts : List Expr} (hts : ∀ t ∈ ts, t.CheckFree) : (and ts).CheckFree := by
  intro x hx
  cases hx with
  | self => rfl
  | and ht hx => exact hts _ ht x hx

theorem checkFree_or {ts : List Expr} (hts : ∀ t ∈ ts, t.CheckFree) : (or ts).CheckFree := by
  intro x hx
  cases hx with
  | self => rfl
  | or ht hx => exact hts _ ht x hx

/-- A skeleton whose leaves are no null checks has none in its skeleton. -/
theorem Skeleton.checkFree {Q : Expr → Prop} (hQ : ∀ x, Q x → x.isNullCheck = false) {e : Expr}
    (h : e.Skeleton Q) : e.CheckFree := by
  induction h with
  | leaf hq hc => exact checkFree_leaf hc (hQ _ hq)
  | and _ _ ih => exact checkFree_and ih
  | or _ _ ih => exact checkFree_or ih
  | not _ ih => exact checkFree_not ih
  | paren _ ih => exact checkFree_paren ih

mutual

theorem Skeleton.flatten {P : Expr → Prop} : (e : Expr) → e.Skeleton P → e.flatten.Skeleton P
  | .paren t, h => by
    have ht := h.of_paren
    rw [flatten_paren ht.ne_hole]
    exact Skeleton.flatten t ht
  | .not t, h => by
    have ht := h.of_not
    rw [flatten_not ht.ne_hole]
    exact .not (Skeleton.flatten t ht)
  | .and ts, h => by
    obtain ⟨hne, hts⟩ := h.of_and
    obtain ⟨hne', hts'⟩ := Skeleton.flattenAnd ts hts
    exact Skeleton.junction (fun _ => .and) (hne' hne) hts'
  | .or ts, h => by
    obtain ⟨hne, hts⟩ := h.of_or
    obtain ⟨hne', hts'⟩ := Skeleton.flattenOr ts hts
    exact Skeleton.junction (fun _ => .or) (hne' hne) hts'
  | .field _, h | .lit _, h | .compare .., h | .arith .., h | .call .., h => h
  | .hole, h => absurd rfl h.ne_hole

theorem Skeleton.flattenAnd {P : Expr → Prop} :
    (ts : List Expr) → (∀ t ∈ ts, t.Skeleton P) →
      (ts ≠ [] → flattenAnd ts ≠ []) ∧ ∀ u ∈ flattenAnd ts, u.Skeleton P
  | [], _ => ⟨fun h => absurd rfl h, by simp [Expr.flattenAnd]⟩
  | t :: ts, h => by
    have ht := (Skeleton.flatten t (h t List.mem_cons_self)).andPieces
    have hrest := Skeleton.flattenAnd ts fun u hu => h u (List.mem_cons_of_mem _ hu)
    refine ⟨fun _ => by simp [Expr.flattenAnd, ht.1], fun u hu => ?_⟩
    rcases List.mem_append.1 hu with hu | hu
    · exact ht.2 u hu
    · exact hrest.2 u hu

theorem Skeleton.flattenOr {P : Expr → Prop} :
    (ts : List Expr) → (∀ t ∈ ts, t.Skeleton P) →
      (ts ≠ [] → flattenOr ts ≠ []) ∧ ∀ u ∈ flattenOr ts, u.Skeleton P
  | [], _ => ⟨fun h => absurd rfl h, by simp [Expr.flattenOr]⟩
  | t :: ts, h => by
    have ht := (Skeleton.flatten t (h t List.mem_cons_self)).orPieces
    have hrest := Skeleton.flattenOr ts fun u hu => h u (List.mem_cons_of_mem _ hu)
    refine ⟨fun _ => by simp [Expr.flattenOr, ht.1], fun u hu => ?_⟩
    rcases List.mem_append.1 hu with hu | hu
    · exact ht.2 u hu
    · exact hrest.2 u hu

end

/-- A tree that reading gives is a skeleton over leaves that reading gives. -/
theorem Printable.skeleton {e : Expr} (hp : e.Printable) (hw : e.Wide) :
    e.Skeleton Parsed := by
  induction hp with
  | field hn => exact .leaf ⟨.field hn, hw⟩ rfl
  | lit hl => exact .leaf ⟨.lit hl, hw⟩ rfl
  | compare hl hr => exact .leaf ⟨.compare hl hr, hw⟩ rfl
  | arith hl hr => exact .leaf ⟨.arith hl hr, hw⟩ rfl
  | call hns hname hargs => exact .leaf ⟨.call hns hname hargs, hw⟩ rfl
  | and hne _ ih =>
    cases hw with
    | and _ hts => exact .and hne fun t ht => ih t ht (hts t ht)
  | or hne _ ih =>
    cases hw with
    | or _ hts => exact .or hne fun t ht => ih t ht (hts t ht)
  | not _ ih =>
    cases hw with
    | not ht => exact .not (ih ht)
  | paren _ ih =>
    cases hw with
    | paren ht => exact .paren (ih ht)

/-! ## Expanding null checks -/

theorem fieldsAll_eq_flatMap (ts : List Expr) : fieldsAll ts = ts.flatMap fields := by
  induction ts with
  | nil => rfl
  | cons t ts ih => simp [fieldsAll, ih]

/-- Every field a printable tree mentions is a name. -/
theorem Printable.isName_of_mem_fields {e : Expr} (h : e.Printable) :
    ∀ n ∈ e.fields, IsName n := by
  induction h with
  | field hn =>
    intro n hmem
    simp only [fields, List.mem_singleton] at hmem
    exact hmem ▸ hn
  | lit => simp [fields]
  | compare _ _ ihl ihr | arith _ _ ihl ihr =>
    intro n hmem
    rcases List.mem_append.1 hmem with hmem | hmem
    · exact ihl n hmem
    · exact ihr n hmem
  | and _ _ ih | or _ _ ih | call _ _ _ ih =>
    intro n hmem
    simp only [fields, fieldsAll_eq_flatMap, List.mem_flatMap] at hmem
    obtain ⟨t, ht, hn⟩ := hmem
    exact ih t ht n hn
  | not _ ih | paren _ ih => exact ih

/-- The comparisons replacing a null check form a skeleton over leaves that are no null
checks, when each comparison `name == null` is a leaf that `P` admits. -/
theorem skeleton_of_checkFields {P : Expr → Prop} {present : Bool} {names : List String}
    {e : Expr} {spread : Bool} (hnames : ∀ n ∈ names, P (isNullOf n))
    (h : checkFields present names = some (e, spread)) :
    e.Skeleton fun z => P z ∧ z.isNullCheck = false := by
  have hone : ∀ n ∈ names, (if present then Expr.not (isNullOf n) else isNullOf n).Skeleton
      fun z => P z ∧ z.isNullCheck = false := by
    intro n hn
    have hleaf : (isNullOf n).Skeleton fun z => P z ∧ z.isNullCheck = false :=
      .leaf ⟨hnames n hn, rfl⟩ rfl
    cases present
    · exact hleaf
    · exact .not hleaf
  match names, hnames, hone, h with
  | [], _, _, h => simp [checkFields] at h
  | [n], _, hone, h =>
    simp only [checkFields, Option.some.injEq, Prod.mk.injEq] at h
    rw [← h.1]
    exact hone n (by simp)
  | n :: m :: rest, _, hone, h =>
    simp only [checkFields, Option.some.injEq, Prod.mk.injEq] at h
    rw [← h.1]
    have hterms : ∀ t ∈ (n :: m :: rest).map
        (fun k => if present then Expr.not (isNullOf k) else isNullOf k),
        t.Skeleton fun z => P z ∧ z.isNullCheck = false := by
      intro t ht
      obtain ⟨k, hk, rfl⟩ := List.mem_map.1 ht
      exact hone k hk
    cases present
    · exact .and (by simp) hterms
    · exact .or (by simp) hterms

/-- `name == null` reads back when the name is one that a call reading gives mentions. -/
theorem parsed_isNullOf {ns name : String} {args : List Expr} (h : (call ns name args).Parsed) :
    ∀ n ∈ fieldsAll args, (isNullOf n).Parsed :=
  fun n hn => ⟨.compare (.field (h.1.isName_of_mem_fields n hn)) (.lit trivial), .compare .field .lit⟩

theorem expansion_around_eq_kept {wrap : Expr → Expr} {x : Expansion} {y : Expr} {s : Bool}
    (h : x.around wrap = .kept y s) : ∃ y', x = .kept y' s ∧ y = wrap y' := by
  cases x with
  | removed => cases h
  | kept y' s' =>
    cases h
    exact ⟨y', rfl, rfl⟩

theorem expandNulls_not {t : Expr} (ht : t ≠ hole) :
    expandNulls (not t) = (expandNulls t).around not := by
  cases t with
  | hole => exact absurd rfl ht
  | _ => rfl

theorem expandNulls_paren {t : Expr} (ht : t ≠ hole) :
    expandNulls (paren t) = (expandNulls t).around paren := by
  cases t with
  | hole => exact absurd rfl ht
  | _ => rfl

/-- A junction that normalization keeps is a skeleton when its kept terms are: it keeps some
term, since it had some. -/
theorem Skeleton.keptJunction {P : Expr → Prop} (node : List Expr → Expr)
    (hnode : ∀ {L}, L ≠ [] → (∀ u ∈ L, u.Skeleton P) → (node L).Skeleton P)
    {ts terms : List Expr} {spread : Bool} {y : Expr} (hne : ts ≠ [])
    (hterms : ∀ u ∈ terms, u.Skeleton P)
    (hx : (if (!ts.isEmpty && terms.isEmpty) = true then Expansion.removed
      else .kept (node terms) false) = .kept y spread) :
    y.Skeleton P := by
  split at hx
  · cases hx
  · rename_i hkeep
    cases hx
    have hsome : terms ≠ [] := by
      rintro rfl
      simp [hne] at hkeep
    exact hnode hsome hterms

mutual

/-- What the expansion keeps of a skeleton is a skeleton whose leaves are no null checks,
when the comparisons it writes for the fields of a call are leaves that `P` admits. -/
theorem skeleton_of_expandNulls {P : Expr → Prop}
    (hP : ∀ {ns name : String} {args : List Expr}, P (call ns name args) →
      ∀ n ∈ fieldsAll args, P (isNullOf n)) :
    (x : Expr) → x.Skeleton P → ∀ {y : Expr} {spread : Bool}, expandNulls x = .kept y spread →
      y.Skeleton fun z => P z ∧ z.isNullCheck = false
  | .call ns name args, h, y, spread, hx => by
    have hp : P (call ns name args) := by
      cases h with
      | leaf hp _ => exact hp
    simp only [expandNulls] at hx
    split at hx
    · rename_i hnone
      cases hx
      exact .leaf ⟨hp, by simp [isNullCheck, hnone]⟩ rfl
    · split at hx
      · cases hx
      · rename_i hcf
        cases hx
        exact skeleton_of_checkFields (hP hp) hcf
  | .not t, h, y, spread, hx => by
    have ht := h.of_not
    rw [expandNulls_not ht.ne_hole] at hx
    obtain ⟨y', he, rfl⟩ := expansion_around_eq_kept hx
    exact .not (skeleton_of_expandNulls hP t ht he)
  | .paren t, h, y, spread, hx => by
    have ht := h.of_paren
    rw [expandNulls_paren ht.ne_hole] at hx
    obtain ⟨y', he, rfl⟩ := expansion_around_eq_kept hx
    exact .paren (skeleton_of_expandNulls hP t ht he)
  | .and ts, h, y, spread, hx => by
    obtain ⟨hne, hts⟩ := h.of_and
    simp only [expandNulls] at hx
    exact Skeleton.keptJunction Expr.and (fun hL hLs => .and hL hLs) hne
      (Skeleton.spliced Skeleton.spliceAnd _ (skeleton_terms_of_expandNullsAll hP ts hts)) hx
  | .or ts, h, y, spread, hx => by
    obtain ⟨hne, hts⟩ := h.of_or
    simp only [expandNulls] at hx
    exact Skeleton.keptJunction Expr.or (fun hL hLs => .or hL hLs) hne
      (Skeleton.spliced Skeleton.spliceOr _ (skeleton_terms_of_expandNullsAll hP ts hts)) hx
  | .field _, h, y, spread, hx | .lit _, h, y, spread, hx | .compare .., h, y, spread, hx
  | .arith .., h, y, spread, hx => by
    simp only [expandNulls] at hx
    cases hx
    cases h with
    | leaf hp hc => exact .leaf ⟨hp, rfl⟩ hc
  | .hole, h, _, _, _ => absurd rfl h.ne_hole

theorem skeleton_terms_of_expandNullsAll {P : Expr → Prop}
    (hP : ∀ {ns name : String} {args : List Expr}, P (call ns name args) →
      ∀ n ∈ fieldsAll args, P (isNullOf n)) :
    (ts : List Expr) → (∀ t ∈ ts, t.Skeleton P) →
      ∀ u ∈ (expandNullsAll ts).map Prod.fst, u.Skeleton fun z => P z ∧ z.isNullCheck = false
  | [], _ => by simp [expandNullsAll]
  | t :: ts, h => by
    intro u hu
    have hrest :=
      skeleton_terms_of_expandNullsAll hP ts fun u hu => h u (List.mem_cons_of_mem _ hu)
    simp only [expandNullsAll] at hu
    split at hu
    · exact hrest u hu
    · rename_i y s he
      rcases List.mem_cons.1 hu with rfl | hu
      · exact skeleton_of_expandNulls hP t (h t List.mem_cons_self) he
      · exact hrest u hu

end

/-- What normalization keeps of a tree that reading gives is a residual tree. -/
theorem residual_of_expandNulls (x : Expr) (h : x.Skeleton Parsed) {y : Expr} {spread : Bool}
    (hx : expandNulls x = .kept y spread) : y.Residual :=
  skeleton_of_expandNulls parsed_isNullOf x h hx

/-- Normalizing a tree that reading gives empties it or leaves a residual tree. -/
theorem normalize_residual {e : Expr} (h : e.Parsed) :
    e.normalize = hole ∨ e.normalize.Residual := by
  have hf := (Printable.skeleton h.1 h.2).flatten e
  unfold normalize expandNullChecks
  cases hx : expandNulls e.flatten with
  | removed => exact .inl rfl
  | kept y s => exact .inr (residual_of_expandNulls _ hf hx)

/-! ## Reading a residual tree back -/

theorem chainTree_eq_junction (node : List Expr → Expr) (L : List Expr) :
    chainTree node L = Expr.junction node L := by
  match L with
  | [] | [_] | _ :: _ :: _ => rfl

/-- A leaf reads back as a leaf of the same kind: a call of the same function. -/
theorem reread_leaf {x : Expr} (hx : x.isConnective = false) :
    x.reread.isConnective = false ∧ x.reread.isNullCheck = x.isNullCheck := by
  cases x <;> simp_all [reread, isConnective, isNullCheck]

theorem mem_rereadOperands {u : Expr} {ts : List Expr} {min : Nat}
    (hu : u ∈ rereadOperands ts min) : ∃ t ∈ ts, u = operandTree t min (reread t) := by
  induction ts with
  | nil => simp [rereadOperands] at hu
  | cons t ts ih =>
    simp only [rereadOperands, List.mem_cons] at hu
    rcases hu with rfl | hu
    · exact ⟨t, List.mem_cons_self, rfl⟩
    · obtain ⟨t', ht', rfl⟩ := ih hu
      exact ⟨t', List.mem_cons_of_mem _ ht', rfl⟩

theorem rereadOperands_ne_nil {ts : List Expr} (hne : ts ≠ []) (min : Nat) :
    rereadOperands ts min ≠ [] := by
  rw [← List.length_pos_iff, length_rereadOperands]
  exact List.length_pos_iff.2 hne

/-- Junction terms read back as skeletons, in parentheses or not, when each term does. -/
theorem Skeleton.rereadOperands {Q : Expr → Prop} {ts : List Expr} (min : Nat)
    (h : ∀ t ∈ ts, t.reread.Skeleton Q) : ∀ u ∈ rereadOperands ts min, u.Skeleton Q := by
  intro u hu
  obtain ⟨t, ht, rfl⟩ := mem_rereadOperands hu
  unfold operandTree
  split
  · exact .paren (h t ht)
  · exact h t ht

/-- A skeleton over leaves that are no null checks reads back as a skeleton that calls no
null check. -/
theorem Skeleton.reread_checkFree {Q : Expr → Prop} (hQ : ∀ x, Q x → x.isNullCheck = false)
    {e : Expr} (h : e.Skeleton Q) : e.reread.Skeleton fun x => x.isNullCheck = false := by
  induction h with
  | leaf hq hc =>
    obtain ⟨hc', hcall⟩ := reread_leaf hc
    exact .leaf (hcall.trans (hQ _ hq)) hc'
  | @and ts hne _ ih =>
    rw [Expr.reread, chainTree_eq_junction]
    exact Skeleton.junction (fun _ => .and) (rereadOperands_ne_nil hne 3)
      (Skeleton.rereadOperands 3 ih)
  | @or ts hne _ ih =>
    rw [Expr.reread, chainTree_eq_junction]
    exact Skeleton.junction (fun _ => .or) (rereadOperands_ne_nil hne 2)
      (Skeleton.rereadOperands 2 ih)
  | not _ ih =>
    simp only [Expr.reread]
    split
    · exact .not ih
    · exact .not (.paren ih)
  | paren _ ih => exact .paren ih

/-- A residual tree reads back as a skeleton that calls no null check. -/
theorem Residual.reread {e : Expr} (h : e.Residual) :
    e.reread.Skeleton fun x => x.isNullCheck = false :=
  Skeleton.reread_checkFree (fun _ hx => hx.2) h

mutual

/-- The expansion finds nothing to do in a tree with no null check in its skeleton, whatever
empty slots and empty junctions it has. -/
theorem expandNulls_of_checkFree : (z : Expr) → z.CheckFree → expandNulls z = .kept z false
  | .call ns name args, h => by
    simp only [expandNulls, h.nullCheck?_eq_none]
  | .not t, h => by
    by_cases ht : t = hole
    · subst ht
      rfl
    · rw [expandNulls_not ht, expandNulls_of_checkFree t h.of_not]
      rfl
  | .paren t, h => by
    by_cases ht : t = hole
    · subst ht
      rfl
    · rw [expandNulls_paren ht, expandNulls_of_checkFree t h.of_paren]
      rfl
  | .and ts, h => by
    simp [expandNulls, expandNullsAll_of_checkFree ts h.of_and, Function.comp_def]
  | .or ts, h => by
    simp [expandNulls, expandNullsAll_of_checkFree ts h.of_or, Function.comp_def]
  | .field _, _ | .lit _, _ | .compare .., _ | .arith .., _ | .hole, _ => rfl

theorem expandNullsAll_of_checkFree : (ts : List Expr) → (∀ t ∈ ts, t.CheckFree) →
    expandNullsAll ts = ts.map fun t => (t, false)
  | [], _ => rfl
  | t :: ts, h => by
    simp only [expandNullsAll, expandNulls_of_checkFree t (h t List.mem_cons_self),
      expandNullsAll_of_checkFree ts fun u hu => h u (List.mem_cons_of_mem _ hu), List.map_cons]

end

/-- Normalizing the tree a residual tree reads back as only flattens it. -/
theorem normalize_reread {e : Expr} (h : e.Residual) : e.reread.normalize = e.reread.flatten := by
  unfold normalize expandNullChecks
  rw [expandNulls_of_checkFree _ ((h.reread.flatten _).checkFree fun _ hx => hx)]

end Expr

end EdgeQuery.Query

namespace EdgeQuery.Eval

open Query

/-! ## Compilations that succeed alike -/

/-- Two compilations that both fail, or give filters that evaluate alike in every scope;
unlike `CompilesAlike`, the two errors may differ. -/
def EvaluatesAlike : Except CompileError Condition → Except CompileError Condition → Prop
  | .error _, .error _ => True
  | .ok c, .ok d => ∀ s, c.eval s = d.eval s
  | _, _ => False

/-- Two compilations of the terms of a junction that both fail, or give terms that evaluate
alike one by one. -/
def TermsEvaluateAlike :
    Except CompileError (List Condition) → Except CompileError (List Condition) → Prop
  | .error _, .error _ => True
  | .ok cs, .ok ds => List.Forall₂ (fun c d => ∀ s, c.eval s = d.eval s) cs ds
  | _, _ => False

namespace EvaluatesAlike

variable {x y z : Except CompileError Condition}

theorem of_toOption (h : x.toOption = y.toOption) : EvaluatesAlike x y := by
  cases x <;> cases y <;> simp_all [Except.toOption, EvaluatesAlike]

theorem of_compilesAlike (h : CompilesAlike x y) : EvaluatesAlike x y := by
  rcases h.cases with ⟨a, rfl, rfl⟩ | ⟨c, d, rfl, rfl, hcd⟩
  · trivial
  · exact hcd

theorem trans (hxy : EvaluatesAlike x y) (hyz : EvaluatesAlike y z) : EvaluatesAlike x z := by
  cases x <;> cases y <;> cases z <;> simp_all [EvaluatesAlike]

theorem not (h : EvaluatesAlike x y) : EvaluatesAlike (.not <$> x) (.not <$> y) := by
  cases x <;> cases y <;> simp_all [EvaluatesAlike]
  intro s
  simp only [Condition.eval, h s]

end EvaluatesAlike

/-- A junction evaluates alike over terms that evaluate alike one by one. -/
theorem Condition.junction_congr {stop : Truth} {step : Truth → Truth → Truth} {s : Scope}
    {cs ds : List Condition} (h : List.Forall₂ (fun c d => ∀ s, c.eval s = d.eval s) cs ds)
    (acc : Truth) :
    Condition.junction stop step s acc cs = Condition.junction stop step s acc ds := by
  induction h generalizing acc with
  | nil => rfl
  | cons hcd _ ih =>
    simp only [Condition.junction, hcd s, ih]

namespace TermsEvaluateAlike

variable {xs ys : Except CompileError (List Condition)}

theorem cons {x y : Except CompileError Condition} (h : EvaluatesAlike x y)
    (hs : TermsEvaluateAlike xs ys) :
    TermsEvaluateAlike (do let c ← x; let cs ← xs; pure (c :: cs))
      (do let d ← y; let ds ← ys; pure (d :: ds)) := by
  cases x <;> cases y <;> cases xs <;> cases ys
  all_goals first
    | trivial
    | exact (h : False).elim
    | exact (hs : False).elim
    | exact List.Forall₂.cons h hs

theorem and (h : TermsEvaluateAlike xs ys) : EvaluatesAlike (.and <$> xs) (.and <$> ys) := by
  cases xs <;> cases ys <;> simp_all [EvaluatesAlike, TermsEvaluateAlike]
  intro s
  rw [Condition.eval_and, Condition.eval_and, Condition.junction_congr h]

theorem or (h : TermsEvaluateAlike xs ys) : EvaluatesAlike (.or <$> xs) (.or <$> ys) := by
  cases xs <;> cases ys <;> simp_all [EvaluatesAlike, TermsEvaluateAlike]
  intro s
  rw [Condition.eval_or, Condition.eval_or, Condition.junction_congr h]

end TermsEvaluateAlike

/-! ## The residual evaluates as the normal form -/

theorem Condition.ofExpr_operandTree (e : Expr) (min : Nat) (t : Expr) :
    Condition.ofExpr (Expr.operandTree e min t) = Condition.ofExpr t := by
  unfold Expr.operandTree
  split <;> rfl

theorem termsEvaluateAlike_rereadOperands {ts : List Expr} (min : Nat)
    (h : ∀ t ∈ ts, EvaluatesAlike (Condition.ofExpr t.reread) (Condition.ofExpr t)) :
    TermsEvaluateAlike (Condition.ofExprs (Expr.rereadOperands ts min)) (Condition.ofExprs ts) := by
  induction ts with
  | nil => exact List.Forall₂.nil
  | cons t ts ih =>
    simp only [Expr.rereadOperands, Condition.ofExprs, Condition.ofExpr_operandTree]
    exact .cons (h t List.mem_cons_self) (ih fun u hu => h u (List.mem_cons_of_mem _ hu))

/-- A residual tree and the tree it reads back as evaluate alike. -/
theorem evaluatesAlike_reread {e : Expr} (h : e.Residual) :
    EvaluatesAlike (Condition.ofExpr e.reread) (Condition.ofExpr e) := by
  induction h with
  | leaf hp _ =>
    -- a leaf reads back as itself, up to parentheses
    apply EvaluatesAlike.of_toOption
    rw [← Condition.ofExpr_unparen, Expr.unparen_reread hp.1.2, Condition.ofExpr_unparen]
  | @and ts _ _ ih =>
    rw [Expr.reread, Expr.chainTree_eq_junction]
    exact (EvaluatesAlike.of_compilesAlike (Truth.andLaws.junction_compilesAlike
      Condition.eval_and (fun _ => rfl) (TermsAlike.refl _))).trans
      (termsEvaluateAlike_rereadOperands 3 ih).and
  | @or ts _ _ ih =>
    rw [Expr.reread, Expr.chainTree_eq_junction]
    exact (EvaluatesAlike.of_compilesAlike (Truth.orLaws.junction_compilesAlike
      Condition.eval_or (fun _ => rfl) (TermsAlike.refl _))).trans
      (termsEvaluateAlike_rereadOperands 2 ih).or
  | not _ ih =>
    simp only [Expr.reread]
    split <;> exact ih.not
  | paren _ ih => exact ih

/-- Filters whose conditions evaluate alike compile alike and evaluate alike. -/
theorem Evaluation.evaluate_of_evaluatesAlike {x y : Expr} (opts : Options)
    (h : EvaluatesAlike (Condition.ofExpr x) (Condition.ofExpr y)) :
    (Evaluation.compile x opts).toOption.map Evaluation.evaluate =
      (Evaluation.compile y opts).toOption.map Evaluation.evaluate := by
  unfold Evaluation.compile
  cases hx : Condition.ofExpr x <;> cases hy : Condition.ofExpr y <;> rw [hx, hy] at h
  · rfl
  · exact (h : False).elim
  · exact (h : False).elim
  · rename_i c d
    have hcd : ∀ s, c.eval s = d.eval s := h
    simp only [Except.toOption, Option.map_some, Option.some.injEq]
    funext ctx doc
    simp only [Evaluation.evaluate, hcd]

/-- The empty text does not read as a filter. -/
theorem parse_empty : parse "" = .error .emptyQuery := by
  have htext : Stream.ofText "" = .eof 0 := by
    rw [Stream.ofText, show Bytes.ofString "" = [] by simp [Bytes.ofString_eq], Lexer.tokens]
  simp only [parse, htext]

/-- A residual tree prints as a text that is not empty: the empty text does not read. -/
theorem render_ne_empty_of_residual {e : Expr} (h : e.Residual) : e.render ≠ "" := by
  intro h0
  have hparse := Grammar.parse_render (h.printable fun x hx => hx.1.1)
  rw [h0, parse_empty] at hparse
  cases hparse

/-- The tree a residual tree's print reads back as, flattened as compiling a filter text
flattens it, evaluates as the residual tree. -/
theorem evaluatesAlike_reread_flatten {e : Expr} (h : e.Residual) :
    EvaluatesAlike (Condition.ofExpr e.reread.flatten) (Condition.ofExpr e) :=
  (EvaluatesAlike.of_compilesAlike (flatten_compilesAlike _)).trans (evaluatesAlike_reread h)

theorem isName_filter : IsName "filter" :=
  ⟨[102, 105, 108, 116, 101, 114], ⟨by decide, by decide +kernel⟩, by decide, by decide +kernel⟩

theorem isName_isNull : IsName "isNull" :=
  ⟨[105, 115, 78, 117, 108, 108], ⟨by decide, by decide +kernel⟩, by decide, by decide +kernel⟩

/-- The residual of a filter is faithful to it: for every text that reads as a filter, its
normal form prints as the empty text exactly when normalization takes the whole filter out;
otherwise the printed form reads, and compiling it succeeds exactly when compiling the normal
form does, with the same outcome against every context and document. -/
theorem compileQuery_render_normalize {q : String} {e : Expr} (h : parse q = .ok e)
    (opts : Options) :
    (e.normalize.render = "" ↔ e.normalize = .hole) ∧
    (e.normalize.render ≠ "" →
      (∃ e', parse e.normalize.render = .ok e') ∧
        (Evaluation.compileQuery e.normalize.render opts).toOption.map Evaluation.evaluate =
          (Evaluation.compile e.normalize opts).toOption.map Evaluation.evaluate) := by
  rcases Expr.normalize_residual (Grammar.parsed_of_parse h) with hhole | hres
  · -- the whole filter is taken out: it prints as nothing
    rw [hhole]
    exact ⟨by simp [Expr.render], fun hne => absurd rfl hne⟩
  · have hparse := Grammar.parse_render (hres.printable fun x hx => hx.1.1)
    have hne := render_ne_empty_of_residual hres
    refine ⟨⟨fun h0 => absurd h0 hne, fun h0 => absurd h0 hres.ne_hole⟩,
      fun _ => ⟨⟨_, hparse⟩, ?_⟩⟩
    have hcq : Evaluation.compileQuery e.normalize.render opts =
        Evaluation.compile e.normalize.reread.flatten opts := by
      simp only [Evaluation.compileQuery, hparse, Expr.normalize_reread hres]
    rw [hcq]
    exact Evaluation.evaluate_of_evaluatesAlike opts (evaluatesAlike_reread_flatten hres)

/-- A negated null check of two fields normalizes to a negated conjunction of comparisons,
which prints, reads back and compiles as the normal form. -/
theorem compileQuery_render_negated_check :
    ∃ e, parse "!filter:isNull(A, B)" = .ok e ∧
      (e.normalize.render = "" ↔ e.normalize = .hole) ∧
      (e.normalize.render ≠ "" →
        (∃ e', parse e.normalize.render = .ok e') ∧
          (Evaluation.compileQuery e.normalize.render {}).toOption.map Evaluation.evaluate =
            (Evaluation.compile e.normalize {}).toOption.map Evaluation.evaluate) := by
  have hA : IsName "A" := ⟨[65], ⟨by decide, by decide +kernel⟩, by decide, by decide +kernel⟩
  have hB : IsName "B" := ⟨[66], ⟨by decide, by decide +kernel⟩, by decide, by decide +kernel⟩
  have hp : (Expr.not (.call "filter" "isNull" [.field "A", .field "B"])).Printable :=
    .not (.call (.inr isName_filter) isName_isNull
      (by simp [Expr.Printable.field hA, Expr.Printable.field hB]))
  have htext : (Expr.not (.call "filter" "isNull" [.field "A", .field "B"])).render =
      "!filter:isNull(A, B)" := by
    decide
  have h := Grammar.parse_render hp
  rw [htext] at h
  exact ⟨_, h, compileQuery_render_normalize h {}⟩

/-- A null check of no field is taken out by normalization, and the emptied filter prints as
the empty text, which does not read, while the emptied filter itself compiles. -/
theorem compileQuery_emptied_filter :
    ∃ e, parse "filter:isNull()" = .ok e ∧ e.normalize = .hole ∧ e.normalize.render = "" ∧
      (Evaluation.compileQuery e.normalize.render {}).toOption = none ∧
      (Evaluation.compile e.normalize {}).toOption.isSome := by
  have hp : (Expr.call "filter" "isNull" []).Printable :=
    .call (.inr isName_filter) isName_isNull (by simp)
  have htext : (Expr.call "filter" "isNull" []).render = "filter:isNull()" := by decide
  have h := Grammar.parse_render hp
  rw [htext] at h
  have hnorm : (Expr.call "filter" "isNull" []).reread.normalize = .hole := by rfl
  refine ⟨_, h, hnorm, ?_, ?_, ?_⟩
  · rw [hnorm]
    rfl
  · rw [hnorm, show Expr.hole.render = "" from rfl]
    simp [Evaluation.compileQuery, parse_empty, Except.toOption]
  · rw [hnorm]
    rfl

end EdgeQuery.Eval
