import EdgeQuery.Proofs.PhraseSearch
/-! # Proximity search

`content:within(F, w, 'q1', ..., 'qk')` matches a record when an occurrence of each
lower-cased word, in one record of `F`'s term-frequency list, lies within `w` offsets of the
others: the largest minus the smallest is at most `w` (`Proximate`). The search tries only
windows `[s, s + w]` that start at an offset `s` of one of the words, and in each finds the
first occurrence of every word at or after `s` by halving. That is complete: the smallest
occurrence of a proximate choice is such a start, and the window from it holds the chosen
occurrences of every word (`withinHits_ne_nil_iff_proximate`).

The end `s + w` of a window is computed in 64-bit arithmetic and wraps around past
`2^63 - 1`. So the search is exact while every offset of the words plus the window stays
below `2^63` (`within_matches_iff_proximate`); where the end of every window wraps around
below its start, it finds nothing (`withinHits_eq_nil_of_wraps`), and with the widest window
`2^63 - 1` the words `a` at offset 1 and `b` at offset 2 are not found
(`within_widest_window_unmatched`). -/

namespace EdgeQuery.Frequencies

/-- A record with an offset of a term is among the term's records. -/
theorem mem_records_of_mem_offsets {f : Frequencies} {t : String} {r : Bytes} {o : Int}
    (h : o ∈ f.offsets t r) : r ∈ f.records t := by
  unfold offsets at h
  unfold records
  split at h
  · rename_i recs _
    cases hr : recs.find? (·.1 == r) with
    | none => simp [hr] at h
    | some p =>
      have hp := List.mem_of_find?_eq_some hr
      have hpr : p.1 = r := by simpa using List.find?_some hr
      exact (List.mergeSort_perm _ _).mem_iff.2 (List.mem_map.2 ⟨p, hp, hpr⟩)
  · simp at h

end EdgeQuery.Frequencies

namespace EdgeQuery.Eval

open Query

/-! ## Searching sorted offsets -/

section Search

variable {a : Array Int} {x y : Int}

/-- The search finds the first value at or above `x`. -/
theorem firstAtLeast?_eq_some (hs : a.toList.Pairwise (· ≤ ·)) (h : firstAtLeast? a x = some y) :
    y ∈ a.toList ∧ x ≤ y ∧ ∀ z ∈ a.toList, x ≤ z → y ≤ z := by
  obtain ⟨-, hsize, hbelow, habove⟩ := lowerBound_inv (x := x) hs
  simp only [firstAtLeast?] at h
  split at h
  · rename_i hlt
    obtain rfl : a[lowerBound a x] = y := by simpa [getD_of_lt hlt] using h
    refine ⟨Array.getElem_mem_toList hlt, habove _ hlt (Nat.le_refl _), fun z hz hxz => ?_⟩
    obtain ⟨j, hj, rfl⟩ := List.getElem_of_mem hz
    have hj' : j < a.size := by simpa using hj
    rw [Array.getElem_toList]
    -- the values before the one found are below `x`
    have hle : lowerBound a x ≤ j := Nat.le_of_not_lt fun hgt => by
      have := hbelow j hj' hgt
      rw [Array.getElem_toList] at hxz
      omega
    exact sorted_getElem_le hs hle hlt hj'
  · cases h

/-- The search finds nothing when every value is below `x`. -/
theorem firstAtLeast?_eq_none (hs : a.toList.Pairwise (· ≤ ·)) (h : firstAtLeast? a x = none) :
    ∀ z ∈ a.toList, z < x := by
  obtain ⟨-, hsize, hbelow, -⟩ := lowerBound_inv (x := x) hs
  simp only [firstAtLeast?] at h
  split at h
  · cases h
  · rename_i hge
    intro z hz
    obtain ⟨j, hj, rfl⟩ := List.getElem_of_mem hz
    have hj' : j < a.size := by simpa using hj
    rw [Array.getElem_toList]
    exact hbelow j hj' (by omega)

/-- The first value at or above `lo` is at most `hi` exactly when some value lies in
`[lo, hi]`. -/
theorem any_firstAtLeast?_iff (hs : a.toList.Pairwise (· ≤ ·)) (lo hi : Int) :
    ((firstAtLeast? a lo).any fun y => decide (y ≤ hi)) = true ↔
      ∃ z ∈ a.toList, lo ≤ z ∧ z ≤ hi := by
  cases h : firstAtLeast? a lo with
  | none =>
    have := firstAtLeast?_eq_none hs h
    simp only [Option.any_none, Bool.false_eq_true, false_iff, not_exists, not_and]
    intro z hz hlo
    have := this z hz
    omega
  | some y =>
    obtain ⟨hy, hlo, hmin⟩ := firstAtLeast?_eq_some hs h
    simp only [Option.any_some, decide_eq_true_eq]
    exact ⟨fun hyh => ⟨y, hy, hlo, hyh⟩, fun ⟨z, hz, hlz, hzh⟩ => Int.le_trans (hmin z hz hlz) hzh⟩

end Search

/-- A fold in `Option` whose steps fail or not whatever the state succeeds exactly when
every step does. -/
theorem foldlM_isSome {σ α : Type} {f : σ → α → Option σ} {g : α → Bool}
    (hf : ∀ s a, (f s a).isSome = g a) : ∀ (l : List α) (s : σ), (l.foldlM f s).isSome = l.all g
  | [], _ => rfl
  | a :: l, s => by
    rw [List.foldlM_cons, List.all_cons, ← hf s a]
    cases f s a with
    | none => rfl
    | some s' => exact foldlM_isSome hf l s'

/-- A window `[lo, hi]` is found when each sorted list has a value in it. -/
theorem windowEnd_isSome (lists : List (Array Int)) (lo hi : Int) :
    (windowEnd lists lo hi).isSome = lists.all fun a => (firstAtLeast? a lo).any fun y => decide (y ≤ hi) := by
  unfold windowEnd
  refine foldlM_isSome (fun s a => ?_) lists lo
  cases firstAtLeast? a lo with
  | none => rfl
  | some y =>
    by_cases hy : y > hi
    · simp [hy]
    · simp [hy]
      omega

/-- A 64-bit sum that stays within 64 bits is the sum of the whole numbers, whatever the
operands. -/
theorem offsetAdd_eq_of_range {a b : Int} (hlo : -9223372036854775808 ≤ a + b)
    (hhi : a + b < 9223372036854775808) : offsetAdd a b = a + b := by
  have hsize : Int64.size = 18446744073709551616 := rfl
  simp only [offsetAdd, Int64.toInt_add, Int64.toInt_ofInt, hsize, Int.add_bmod_bmod, Int.bmod_add_bmod]
  exact Int.bmod_eq_of_le (by omega) (by omega)

/-- Occurrences of the terms, one for each in turn, in one record of `f`, the largest at
most `window` above the smallest. -/
def Proximate (f : Frequencies) (terms : List String) (window : Int) : Prop :=
  ∃ rid os, List.Forall₂ (fun t o => o ∈ f.offsets t rid) terms os ∧
    ∀ a ∈ os, ∀ b ∈ os, a - b ≤ window

theorem Proximate.mono {f : Frequencies} {terms : List String} {w w' : Int}
    (h : Proximate f terms w) (hle : w ≤ w') : Proximate f terms w' := by
  obtain ⟨rid, os, hos, hspread⟩ := h
  exact ⟨rid, os, hos, fun a ha b hb => Int.le_trans (hspread a ha b hb) hle⟩

section Choices

variable {α β : Type} {R : α → β → Prop}

theorem exists_forall₂ {P : β → Prop} :
    ∀ {l : List α}, (∀ a ∈ l, ∃ b, R a b ∧ P b) → ∃ bs, List.Forall₂ R l bs ∧ ∀ b ∈ bs, P b
  | [], _ => ⟨[], .nil, by simp⟩
  | a :: l, h => by
    obtain ⟨b, hab, hb⟩ := h a List.mem_cons_self
    obtain ⟨bs, hbs, hP⟩ := exists_forall₂ fun a' ha' => h a' (List.mem_cons_of_mem a ha')
    exact ⟨b :: bs, .cons hab hbs, by simpa [hb] using hP⟩

theorem exists_mem_of_forall₂_left {l : List α} {bs : List β} (h : List.Forall₂ R l bs) {a : α}
    (ha : a ∈ l) : ∃ b ∈ bs, R a b := by
  induction h with
  | nil => cases ha
  | cons hab _ ih =>
    rcases List.mem_cons.1 ha with rfl | ha
    · exact ⟨_, List.mem_cons_self, hab⟩
    · obtain ⟨b, hb, hr⟩ := ih ha
      exact ⟨b, List.mem_cons_of_mem _ hb, hr⟩

theorem exists_mem_of_forall₂_right {l : List α} {bs : List β} (h : List.Forall₂ R l bs) {b : β}
    (hb : b ∈ bs) : ∃ a ∈ l, R a b := by
  induction h with
  | nil => cases hb
  | cons hab _ ih =>
    rcases List.mem_cons.1 hb with rfl | hb
    · exact ⟨_, List.mem_cons_self, hab⟩
    · obtain ⟨a, ha, hr⟩ := ih hb
      exact ⟨a, List.mem_cons_of_mem _ ha, hr⟩

end Choices

/-! ## The hits of a proximity search -/

/-- The proximity search has hits when some record of the first term has a window, starting
at an offset of one of the terms, in which the search finds every term. -/
theorem withinHits_ne_nil_iff (f : Frequencies) (window : Nat) (first : String)
    (rest : List String) :
    (withinHits f window (first :: rest)).isEmpty = false ↔
      ∃ rid ∈ f.records first, ∃ start ∈ ((first :: rest).map (f.offsets · rid)).flatten,
        (windowEnd (((first :: rest).map (f.offsets · rid)).map List.toArray) start
          (offsetAdd start window)).isSome := by
  simp only [withinHits, List.isEmpty_eq_false_iff_exists_mem, List.mem_flatMap,
    List.mem_filterMap, Option.map_eq_some_iff, mem_sortedOffsets, Option.isSome_iff_exists]
  constructor
  · rintro ⟨_, rid, hrid, start, hstart, stop, hstop, -⟩
    exact ⟨rid, hrid, start, hstart, stop, hstop⟩
  · rintro ⟨rid, hrid, start, hstart, stop, hstop⟩
    exact ⟨_, rid, hrid, start, hstart, stop, hstop, rfl⟩

/-- Where no offset plus the window passes `2^63 - 1`, a window starting at an offset of one
of the terms is found exactly when every term occurs in it. -/
theorem windowEnd_isSome_iff_covers {f : Frequencies} {terms : List String} {w : Int}
    (hw : 0 ≤ w) (hsorted : ∀ t ∈ terms, ∀ r, (f.offsets t r).Pairwise (· < ·))
    (hfit : ∀ t ∈ terms, ∀ r, ∀ o ∈ f.offsets t r,
      -9223372036854775808 ≤ o ∧ o + w < 9223372036854775808)
    {rid : Bytes} {start : Int} (hstart : start ∈ (terms.map (f.offsets · rid)).flatten) :
    (windowEnd ((terms.map (f.offsets · rid)).map List.toArray) start
        (offsetAdd start w.toNat)).isSome ↔
      ∀ t ∈ terms, ∃ o ∈ f.offsets t rid, start ≤ o ∧ o ≤ start + w := by
  obtain ⟨os, hos, hsos⟩ := List.mem_flatten.1 hstart
  obtain ⟨t, ht, rfl⟩ := List.mem_map.1 hos
  have hst := hfit t ht rid start hsos
  -- the end of the window does not wrap
  have hsum : offsetAdd start w.toNat = start + w := by
    rw [Int.toNat_of_nonneg hw]
    exact offsetAdd_eq_of_range (by omega) hst.2
  rw [hsum, windowEnd_isSome, List.all_eq_true]
  simp only [List.map_map, List.mem_map, Function.comp_apply, forall_exists_index, and_imp,
    forall_apply_eq_imp_iff₂]
  refine forall₂_congr fun t' ht' => ?_
  have hs := (hsorted t' ht' rid).imp Int.le_of_lt
  rw [any_firstAtLeast?_iff (by simpa using hs)]

/-- Where no offset plus the window passes `2^63 - 1`, the proximity search has hits
exactly when the terms occur close enough together in some record. -/
theorem withinHits_ne_nil_iff_proximate {f : Frequencies} {terms : List String}
    (hne : terms ≠ []) {w : Int} (hw : 0 ≤ w)
    (hsorted : ∀ t ∈ terms, ∀ r, (f.offsets t r).Pairwise (· < ·))
    (hfit : ∀ t ∈ terms, ∀ r, ∀ o ∈ f.offsets t r,
      -9223372036854775808 ≤ o ∧ o + w < 9223372036854775808) :
    (withinHits f w.toNat terms).isEmpty = false ↔ Proximate f terms w := by
  obtain ⟨first, rest, rfl⟩ := List.exists_cons_of_ne_nil hne
  rw [withinHits_ne_nil_iff]
  constructor
  · rintro ⟨rid, -, start, hstart, hsome⟩
    -- the occurrences found all lie in `[start, start + w]`
    have hcovers := (windowEnd_isSome_iff_covers hw hsorted hfit hstart).1 hsome
    obtain ⟨os, hos, hin⟩ := exists_forall₂ hcovers
    refine ⟨rid, os, hos, fun a ha b hb => ?_⟩
    have := hin a ha
    have := hin b hb
    omega
  · rintro ⟨rid, os, hos, hspread⟩
    -- the smallest chosen occurrence starts a window that holds all the others
    obtain ⟨m, hm⟩ : ∃ m, os.min? = some m := by
      cases hmin : os.min? with
      | some m => exact ⟨m, rfl⟩
      | none =>
        rw [List.min?_eq_none_iff] at hmin
        subst hmin
        cases hos
    obtain ⟨hmem, hmin⟩ := List.min?_eq_some_iff.1 hm
    obtain ⟨t, ht, hmt⟩ := exists_mem_of_forall₂_right hos hmem
    obtain ⟨o₁, -, ho₁⟩ := exists_mem_of_forall₂_left hos List.mem_cons_self
    have hstart : m ∈ ((first :: rest).map (f.offsets · rid)).flatten :=
      List.mem_flatten.2 ⟨_, List.mem_map.2 ⟨t, ht, rfl⟩, hmt⟩
    refine ⟨rid, Frequencies.mem_records_of_mem_offsets ho₁, m, hstart,
      (windowEnd_isSome_iff_covers hw hsorted hfit hstart).2 fun t' ht' => ?_⟩
    obtain ⟨o, ho, hot⟩ := exists_mem_of_forall₂_left hos ht'
    have := hspread o ho m hmem
    exact ⟨o, hot, hmin o ho, by omega⟩

/-- Where the end of every window wraps around below its start, the proximity search finds
nothing. -/
theorem withinHits_eq_nil_of_wraps {f : Frequencies} {terms : List String} {window : Nat}
    (hsorted : ∀ t ∈ terms, ∀ r, (f.offsets t r).Pairwise (· < ·))
    (hwrap : ∀ t ∈ terms, ∀ r, ∀ o ∈ f.offsets t r, offsetAdd o window < o) :
    (withinHits f window terms).isEmpty = true := by
  cases terms with
  | nil => rfl
  | cons first rest =>
    apply Bool.eq_true_of_not_eq_false
    rw [withinHits_ne_nil_iff]
    rintro ⟨rid, -, start, hstart, hsome⟩
    obtain ⟨os, hos, hsos⟩ := List.mem_flatten.1 hstart
    obtain ⟨t, ht, rfl⟩ := List.mem_map.1 hos
    have hend := hwrap t ht rid start hsos
    -- the first word has no offset in `[start, offsetAdd start window]`, which is empty
    rw [windowEnd_isSome, List.all_eq_true] at hsome
    have hfirst := hsome _ (List.mem_map.2 ⟨_, List.mem_map.2 ⟨first, List.mem_cons_self, rfl⟩, rfl⟩)
    have hs := (hsorted first List.mem_cons_self rid).imp Int.le_of_lt
    obtain ⟨z, -, hlo, hhi⟩ := (any_firstAtLeast?_iff (by simpa using hs) _ _).1 hfirst
    omega

/-! ## The proximity call -/

/-- The call `content:within(F, w, 'q1', ..., 'qk')` of the words `q1 ... qk`. -/
def withinCall (field : String) (window : Int) (words : List (List Char)) : Expr :=
  .call "content" "within"
    (.field field :: .lit (.int window) :: words.map fun w => .lit (.str (String.ofList w)))

/-- The proximity call compiles to a proximity search for its lower-cased words. -/
theorem compile_withinCall (field : String) {window : Int} (hw : 0 ≤ window)
    (qs : List (List Char)) (h : 2 ≤ qs.length) (opts : Options) :
    Evaluation.compile (withinCall field window qs) opts =
      .ok ⟨withinCall field window qs,
        .builtin (.within (Bytes.ofString field) window.toNat (qs.map queryTerm)), opts⟩ := by
  have hneg : ¬ window < 0 := Int.not_lt.2 hw
  simp only [Evaluation.compile, withinCall, Condition.ofExpr, Builtin.ofCall?, Expr.qualifiedName]
  simp [fieldArg?, Expr.deref, hneg, phraseTerms_strings qs h, Except.map]

/-- The outcome of a proximity search: a match when there are hits. -/
theorem evaluate_within_matched {ev : Evaluation} {ctx : Context} {field : Bytes} {window : Nat}
    {terms : List String} {f : Frequencies} (hcond : ev.condition = .builtin (.within field window terms))
    (hf : ctx.frequencies? field = some f) (doc : Option Document) :
    (ev.evaluate ctx doc).1.matched = !(withinHits f window terms).isEmpty :=
  (evaluate_evalPhrases hcond (fun _ => rfl) hf doc).1

section Window

variable (F : String) {w : Int} (qs : List (List Char)) {f : Frequencies}

/-- The compiled proximity call matches exactly when its lower-cased words are proximate,
while no offset plus the window passes `2^63 - 1`. -/
theorem evaluate_withinCall (hw : 0 ≤ w) (hk : 2 ≤ qs.length) (opts : Options) (ctx : Context)
    (hctx : ctx.frequencies? (Bytes.ofString F) = some f)
    (hsorted : ∀ q ∈ qs, ∀ r, (f.offsets (queryTerm q) r).Pairwise (· < ·))
    (hfit : ∀ q ∈ qs, ∀ r, ∀ o ∈ f.offsets (queryTerm q) r,
      -9223372036854775808 ≤ o ∧ o + w < 9223372036854775808)
    (doc : Option Document) :
    ((⟨withinCall F w qs, .builtin (.within (Bytes.ofString F) w.toNat (qs.map queryTerm)), opts⟩ :
        Evaluation).evaluate ctx doc).1.matched = true ↔ Proximate f (qs.map queryTerm) w := by
  have hne : qs.map queryTerm ≠ [] := by
    intro h
    rw [List.map_eq_nil_iff] at h
    simp [h] at hk
  rw [evaluate_within_matched rfl hctx doc, Bool.not_eq_true', ← withinHits_ne_nil_iff_proximate hne hw]
  · simp only [List.mem_map, forall_exists_index, and_imp, forall_apply_eq_imp_iff₂]
    exact hsorted
  · simp only [List.mem_map, forall_exists_index, and_imp, forall_apply_eq_imp_iff₂]
    exact hfit

/-- `content:within(F, w, 'q1', ..., 'qk')` with `k ≥ 2` words and a window `w ≥ 0` compiles,
and over a term-frequency list of `F` whose offset lists of the words are sorted and free of
repeats, it matches exactly when some record has an occurrence of each lower-cased word, in
turn, with the largest at most `w` above the smallest; so a match stays a match for every
wider window. This holds while every offset of the words plus the window stays below `2^63`,
where the 64-bit end of the window does not wrap around. -/
theorem within_matches_iff_proximate (hw : 0 ≤ w) (hk : 2 ≤ qs.length) (opts : Options)
    (ctx : Context) (hctx : ctx.frequencies? (Bytes.ofString F) = some f)
    (hsorted : ∀ q ∈ qs, ∀ r, (f.offsets (queryTerm q) r).Pairwise (· < ·))
    (hfit : ∀ q ∈ qs, ∀ r, ∀ o ∈ f.offsets (queryTerm q) r,
      -9223372036854775808 ≤ o ∧ o + w < 9223372036854775808)
    (doc : Option Document) :
    ∃ ev, Evaluation.compile (withinCall F w qs) opts = .ok ev ∧
      ((ev.evaluate ctx doc).1.matched = true ↔ Proximate f (qs.map queryTerm) w) ∧
      ∀ w', w ≤ w' → (∀ q ∈ qs, ∀ r, ∀ o ∈ f.offsets (queryTerm q) r, o + w' < 9223372036854775808) →
        ∃ ev', Evaluation.compile (withinCall F w' qs) opts = .ok ev' ∧
          ((ev.evaluate ctx doc).1.matched = true → (ev'.evaluate ctx doc).1.matched = true) := by
  have hmatch := evaluate_withinCall F qs hw hk opts ctx hctx hsorted hfit doc
  refine ⟨_, compile_withinCall F hw qs hk opts, hmatch, fun w' hle hfit' => ?_⟩
  have hw' : 0 ≤ w' := Int.le_trans hw hle
  -- the wider window fits too: offsets keep their lower bound
  have hfitw' : ∀ q ∈ qs, ∀ r, ∀ o ∈ f.offsets (queryTerm q) r,
      -9223372036854775808 ≤ o ∧ o + w' < 9223372036854775808 :=
    fun q hq r o ho => ⟨(hfit q hq r o ho).1, hfit' q hq r o ho⟩
  refine ⟨_, compile_withinCall F hw' qs hk opts, fun h => ?_⟩
  exact (evaluate_withinCall F qs hw' hk opts ctx hctx hsorted hfitw' doc).2 ((hmatch.1 h).mono hle)

/-- `content:within(BODY, 3, 'quick', 'fox')` matches a record with `quick` at offset 1
and `fox` at offset 4. -/
theorem within_quick_fox :
    let f := ({} : Frequencies).addAll (Bytes.ofString "r") [("quick", [1]), ("fox", [4])]
    let ctx : Context := { offsets := some { lists := [(Bytes.ofString "BODY", f)] } }
    ∃ ev, Evaluation.compile (withinCall "BODY" 3 ["quick".toList, "fox".toList]) {} = .ok ev ∧
      (ev.evaluate ctx none).1.matched = true := by
  intro f ctx
  have hctx : ctx.frequencies? (Bytes.ofString "BODY") = some f := by
    simp [ctx, Context.frequencies?, OffsetMap.frequencies?]
  have hq : queryTerm "quick".toList = "quick" := by decide +kernel
  have hf : queryTerm "fox".toList = "fox" := by decide +kernel
  have hsorted : ∀ q ∈ ["quick".toList, "fox".toList], ∀ r,
      (f.offsets (queryTerm q) r).Pairwise (· < ·) :=
    fun q _ r => Frequencies.pairwise_offsets_addAll_empty _ _ _ r
  have hfit : ∀ q ∈ ["quick".toList, "fox".toList], ∀ r, ∀ o ∈ f.offsets (queryTerm q) r,
      -9223372036854775808 ≤ o ∧ o + 3 < 9223372036854775808 := by
    intro q _ r o ho
    obtain ⟨-, os, hos, hmem⟩ := (Frequencies.mem_offsets_addAll_empty _ _).1 ho
    simp only [List.mem_cons, Prod.mk.injEq, List.not_mem_nil, or_false] at hos
    -- the offsets are 1 and 4
    rcases hos with ⟨-, rfl⟩ | ⟨-, rfl⟩
    · obtain rfl := List.mem_singleton.1 hmem
      omega
    · obtain rfl := List.mem_singleton.1 hmem
      omega
  obtain ⟨ev, hc, hiff, -⟩ := within_matches_iff_proximate "BODY" ["quick".toList, "fox".toList]
    (by decide) (by decide) {} ctx hctx hsorted hfit none
  refine ⟨ev, hc, hiff.2 ⟨Bytes.ofString "r", [1, 4], ?_, by decide⟩⟩
  simp only [List.map_cons, List.map_nil, hq, hf]
  exact .cons ((Frequencies.mem_offsets_addAll_empty _ _).2 ⟨rfl, [1], by simp, by simp⟩)
    (.cons ((Frequencies.mem_offsets_addAll_empty _ _).2 ⟨rfl, [4], by simp, by simp⟩) .nil)

end Window

/-- With the widest window, `2^63 - 1`, the words `a` at offset 1 and `b` at offset 2 are
proximate, but the search does not find them: every window it tries starts at offset 1 or
later, and its end wraps around below every offset. -/
theorem within_widest_window_unmatched :
    let f := ({} : Frequencies).addAll (Bytes.ofString "r") [("a", [1]), ("b", [2])]
    let ctx : Context := { offsets := some { lists := [(Bytes.ofString "F", f)] } }
    Proximate f ["a", "b"] 9223372036854775807 ∧
      ∃ ev, Evaluation.compile (withinCall "F" 9223372036854775807 ["a".toList, "b".toList]) {} =
          .ok ev ∧ (ev.evaluate ctx none).1.matched = false := by
  intro f ctx
  have hctx : ctx.frequencies? (Bytes.ofString "F") = some f := by
    simp [ctx, Context.frequencies?, OffsetMap.frequencies?]
  have hterms : ["a".toList, "b".toList].map queryTerm = ["a", "b"] := by decide +kernel
  refine ⟨⟨Bytes.ofString "r", [1, 2], ?_, by decide⟩, _,
    compile_withinCall "F" (by decide) _ (by decide) {}, ?_⟩
  · exact .cons ((Frequencies.mem_offsets_addAll_empty _ _).2 ⟨rfl, [1], by simp, by simp⟩)
      (.cons ((Frequencies.mem_offsets_addAll_empty _ _).2 ⟨rfl, [2], by simp, by simp⟩) .nil)
  · -- the ends of the windows from offsets 1 and 2 wrap around to `-2^63` and `-2^63 + 1`
    have hwrap : ∀ t ∈ ["a", "b"], ∀ r, ∀ o ∈ f.offsets t r,
        offsetAdd o (Int.toNat 9223372036854775807) < o := by
      intro t _ r o ho
      obtain ⟨-, os, hos, hmem⟩ := (Frequencies.mem_offsets_addAll_empty _ _).1 ho
      simp only [List.mem_cons, Prod.mk.injEq, List.not_mem_nil, or_false] at hos
      rcases hos with ⟨-, rfl⟩ | ⟨-, rfl⟩
      · obtain rfl := List.mem_singleton.1 hmem
        decide
      · obtain rfl := List.mem_singleton.1 hmem
        decide
    rw [evaluate_within_matched rfl hctx none, hterms,
      withinHits_eq_nil_of_wraps (fun _ _ r => Frequencies.pairwise_offsets_addAll_empty _ _ _ r) hwrap]
    rfl


end EdgeQuery.Eval
