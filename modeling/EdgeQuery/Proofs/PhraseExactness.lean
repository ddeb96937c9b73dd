import Mathlib
import EdgeQuery.Proofs.ProximitySearch
import EdgeQuery.Proofs.PrefixRanges
import EdgeQuery.Proofs.ExcerptTransform
/-! # Exact phrase search

A term-frequency list built by adding offsets keeps, for each term, every record once and
the offsets of each record in strictly increasing order (`Frequencies.Built.sound`): adding
merges into a record's offsets by sorting them again, and puts a new record last. So the
search by halving that `content:phrase` runs on the later terms' offsets is exact, and its
hits come in the order of the records, which `records` sorts by bytes, and then of the
first term's offsets.

`content:phrase(F, 't1', ..., 'tk')` therefore matches exactly where the terms stand one
after another, and records each such place once, in ascending order
(`phrase_matches_exactly`). The offset of each later term is computed in 64-bit arithmetic,
so this holds while no offset of the terms is within `k - 1` of `2^63`; past that, the
offset after `2^63 - 1` wraps around to `-2^63` and the search finds phrases that are not
there (`phrase_wrapped_offsets_matched`). -/

namespace EdgeQuery.Frequencies

/-! ## Lists built by adding offsets -/

/-- A term's records: each once, each with its offsets in strictly increasing order. -/
structure SoundRecords (recs : List (Bytes × List Int)) : Prop where
  distinct : (recs.map (·.1)).Nodup
  sorted : ∀ p ∈ recs, p.2.Pairwise (· < ·)

/-- The records of every term are sound. -/
def Sound (f : Frequencies) : Prop := ∀ e ∈ f.byTerm, SoundRecords e.2

theorem soundRecords_single (record : Bytes) (offs : List Int) :
    SoundRecords [(record, sortedOffsets offs)] where
  distinct := List.nodup_singleton _
  sorted := by
    intro p hp
    rw [List.mem_singleton.1 hp]
    exact pairwise_sortedOffsets offs

/-- Merging offsets into one record's keeps the records sound: a record already there keeps
its place, a new one comes last. -/
theorem SoundRecords.mergeRecord {recs : List (Bytes × List Int)} (h : SoundRecords recs)
    (record : Bytes) (offs : List Int) : SoundRecords (mergeRecord recs record offs) := by
  unfold Frequencies.mergeRecord
  by_cases hany : recs.any (·.1 == record)
  · rw [if_pos hany]
    constructor
    · -- the update keeps every record id
      rw [List.map_map]
      convert h.distinct using 1
      apply List.map_congr_left
      rintro ⟨r, os⟩ -
      simp only [Function.comp_apply]
      split <;> rfl
    · intro p hp
      obtain ⟨⟨r, os⟩, hq, rfl⟩ := List.mem_map.1 hp
      dsimp only
      split
      · exact pairwise_sortedOffsets _
      · exact h.sorted _ hq
  · rw [if_neg hany]
    have hnew : record ∉ recs.map (·.1) := by
      intro hmem
      obtain ⟨p, hp, rfl⟩ := List.mem_map.1 hmem
      exact hany (List.any_eq_true.2 ⟨p, hp, beq_self_eq_true _⟩)
    constructor
    · rw [List.map_append, List.nodup_append]
      refine ⟨h.distinct, List.nodup_singleton _, fun a ha b hb => ?_⟩
      rw [List.map_singleton, List.mem_singleton] at hb
      subst hb
      rintro rfl
      exact hnew ha
    · intro p hp
      rcases List.mem_append.1 hp with hp | hp
      · exact h.sorted p hp
      · exact (soundRecords_single record offs).sorted p hp

/-- Merging the terms of one record keeps every term's records sound. -/
theorem soundRecords_mergeTerms (record : Bytes) (fuel : Nat)
    (xs : List (String × List (Bytes × List Int))) (gs : List (String × List Int))
    (hxs : ∀ e ∈ xs, SoundRecords e.2) : ∀ e ∈ mergeTerms record fuel xs gs, SoundRecords e.2 := by
  fun_induction mergeTerms record fuel xs gs with
  | case1 => exact hxs
  | case2 => exact hxs
  | case3 gs =>
    intro e he
    obtain ⟨⟨g, os⟩, -, rfl⟩ := List.mem_map.1 he
    exact soundRecords_single record os
  | case4 fuel t recs xs g os gs _ ih =>
    intro e he
    rcases List.mem_cons.1 he with rfl | he
    · exact hxs _ List.mem_cons_self
    · exact ih (fun e he => hxs e (List.mem_cons_of_mem _ he)) e he
  | case5 fuel t recs xs g os gs _ _ ih =>
    intro e he
    rcases List.mem_cons.1 he with rfl | he
    · exact (hxs _ List.mem_cons_self).mergeRecord record os
    · exact ih (fun e he => hxs e (List.mem_cons_of_mem _ he)) e he
  | case6 fuel t recs xs g os gs _ _ ih =>
    intro e he
    rcases List.mem_cons.1 he with rfl | he
    · exact soundRecords_single record os
    · exact ih hxs e he

/-- Adding the offsets of terms within a record keeps a list sound. -/
theorem Sound.addAll {f : Frequencies} (h : f.Sound) (record : Bytes)
    (groups : List (String × List Int)) : (f.addAll record groups).Sound :=
  soundRecords_mergeTerms record _ _ _ h

/-- Term-frequency lists built from the empty one by adding offsets, one term and record at
a time. -/
inductive Built : Frequencies → Prop
  | empty : Built {}
  | add {f : Frequencies} {term : String} {record : Bytes} {offs : List Int} :
      Built f → Built (f.add term record offs)

/-- Every list built by adding offsets is sound. -/
theorem Built.sound {f : Frequencies} (h : f.Built) : f.Sound := by
  induction h with
  | empty =>
    intro e he
    cases he
  | add _ ih => exact ih.addAll _ _

/-! ## Offsets and records of a sound list -/

/-- The offsets of a term in a record of a sound list increase strictly. -/
theorem Sound.pairwise_offsets {f : Frequencies} (h : f.Sound) (t : String) (r : Bytes) :
    (f.offsets t r).Pairwise (· < ·) := by
  unfold offsets
  split
  · rename_i recs hfind
    have hrecs := h _ (List.mem_of_find?_eq_some hfind)
    cases hr : recs.find? (·.1 == r) with
    | none => exact List.Pairwise.nil
    | some p => exact hrecs.sorted p (List.mem_of_find?_eq_some hr)
  · exact List.Pairwise.nil

/-- The records of a term in a sound list are in strictly increasing byte order. -/
theorem Sound.pairwise_records {f : Frequencies} (h : f.Sound) (t : String) :
    (f.records t).Pairwise fun a b => Bytes.cmp a b = .lt := by
  unfold records
  split
  · rename_i recs hfind
    have hrecs := h _ (List.mem_of_find?_eq_some hfind)
    have hnodup := (List.mergeSort_perm (recs.map (·.1)) PhraseIndexes.bytesLe).nodup_iff.2 hrecs.distinct
    -- the records are sorted by "not above", and distinct
    refine ((Excerpt.pairwise_mergeSort_isLE _).and hnodup).imp fun ⟨hle, hne⟩ => ?_
    exact (Bytes.cmp_ne_gt_iff.1 (Ordering.isLE_iff_ne_gt.1 hle)).resolve_right hne
  · exact List.Pairwise.nil

end EdgeQuery.Frequencies

namespace EdgeQuery

/-- Positions in ascending order of record, in byte order, and within a record of start. -/
def Position.Precedes (a b : Position) : Prop :=
  Bytes.cmp a.record b.record = .lt ∨ (a.record = b.record ∧ a.start < b.start)

end EdgeQuery

namespace EdgeQuery.Eval

open Query Frequencies

/-! ## Phrase hits -/

/-- The phrase positions an outcome records for a field: none without a phrase. -/
def Outcome.phrasePositions (o : Outcome) (field : Bytes) : List Position :=
  (o.phrases.map (·.positions field)).getD []

/-- The terms stand one after another in record `r` from offset `s`: the `i`-th at `s + i`. -/
def PhraseAt (f : Frequencies) (terms : List String) (r : Bytes) (s : Int) : Prop :=
  ∀ (i : Nat) (h : i < terms.length), s + i ∈ f.offsets terms[i] r

theorem phraseAt_cons_iff {f : Frequencies} {first : String} {rest : List String} {r : Bytes}
    {s : Int} :
    PhraseAt f (first :: rest) r s ↔
      s ∈ f.offsets first r ∧ ∀ (m : Nat) (h : m < rest.length), s + 1 + m ∈ f.offsets rest[m] r := by
  constructor
  · intro h
    have h0 := h 0 (by simp)
    rw [List.getElem_cons_zero, Nat.cast_zero, Int.add_zero] at h0
    refine ⟨h0, fun m hm => ?_⟩
    have hm' := h (m + 1) (by simpa using hm)
    rwa [List.getElem_cons_succ, show s + ((m + 1 : Nat) : Int) = s + 1 + m by omega] at hm'
  · rintro ⟨h0, hs⟩ i hi
    cases i with
    | zero =>
      rw [List.getElem_cons_zero, Nat.cast_zero, Int.add_zero]
      exact h0
    | succ m =>
      rw [List.getElem_cons_succ, show s + ((m + 1 : Nat) : Int) = s + 1 + m by omega]
      exact hs m (by simpa using hi)

section Exact

variable {f : Frequencies} {first : String} {rest : List String}

/-- While the phrase from `s` stays below `2^63`, the later terms follow `s` exactly when
they stand at `s + 1`, `s + 2`, ... -/
theorem consecutive_offsets_iff (hsound : f.Sound) {r : Bytes} {s : Int}
    (hrange : -9223372036854775808 ≤ s ∧ s + rest.length < 9223372036854775808) :
    consecutive (rest.map fun t => (f.offsets t r).toArray) (offsetAdd s 1) = true ↔
      ∀ (m : Nat) (h : m < rest.length), s + 1 + m ∈ f.offsets rest[m] r := by
  rw [consecutive_iff]
  simp only [List.length_map, List.getElem_map]
  refine forall₂_congr fun m hm => ?_
  have hsorted := (hsound.pairwise_offsets rest[m] r).imp Int.le_of_lt
  rw [offsetAdd_eq_of_range (a := s) (b := 1) (by omega) (by omega),
    offsetAdd_eq_of_range (by omega) (by omega), holds_iff_mem (by simpa using hsorted),
    List.toList_toArray]

/-- While no offset of the first term is within `rest.length` of `2^63`, the hits of a
sound list are the places where the phrase stands, from its first offset to its last. -/
theorem mem_phraseHits_iff (hsound : f.Sound)
    (hfit : ∀ r, ∀ s ∈ f.offsets first r,
      -9223372036854775808 ≤ s ∧ s + rest.length < 9223372036854775808)
    {hit : Bytes × Int × Int} :
    hit ∈ phraseHits f (first :: rest) ↔
      ∃ r s, PhraseAt f (first :: rest) r s ∧ hit = (r, s, s + rest.length) := by
  rw [mem_phraseHits]
  constructor
  · rintro ⟨r, s, -, hs, hcons, rfl⟩
    have hrange := hfit r s hs
    refine ⟨r, s, phraseAt_cons_iff.2 ⟨hs, (consecutive_offsets_iff hsound hrange).1 hcons⟩, ?_⟩
    rw [offsetAdd_eq_of_range (by omega) (by omega)]
  · rintro ⟨r, s, hat, rfl⟩
    obtain ⟨hs, hnext⟩ := phraseAt_cons_iff.1 hat
    have hrange := hfit r s hs
    refine ⟨r, s, mem_records_of_mem_offsets hs, hs, (consecutive_offsets_iff hsound hrange).2 hnext, ?_⟩
    rw [offsetAdd_eq_of_range (by omega) (by omega)]

/-- The hits of a sound list come in ascending order of record, in byte order, and within a
record of first offset. -/
theorem pairwise_phraseHits (hsound : f.Sound) (terms : List String) :
    (phraseHits f terms).Pairwise fun a b => Bytes.cmp a.1 b.1 = .lt ∨ (a.1 = b.1 ∧ a.2.1 < b.2.1) := by
  cases terms with
  | nil => exact List.Pairwise.nil
  | cons first rest =>
    simp only [phraseHits]
    rw [List.pairwise_flatMap]
    constructor
    · -- within a record, the hits follow the first term's offsets
      intro r _
      rw [List.pairwise_map]
      exact ((hsound.pairwise_offsets first r).filter _).imp fun h => Or.inr ⟨rfl, h⟩
    · -- across records, they follow the records
      refine (hsound.pairwise_records first).imp fun hlt x hx y hy => Or.inl ?_
      obtain ⟨_, -, rfl⟩ := List.mem_map.1 hx
      obtain ⟨_, -, rfl⟩ := List.mem_map.1 hy
      exact hlt

end Exact

/-! ## The phrase call -/

/-- Hits whose first offset is at most their last are recorded as they are. -/
theorem positions_addAll_empty_of_le (field : Bytes) {hits : List (Bytes × Int × Int)}
    (h : ∀ hit ∈ hits, hit.2.1 ≤ hit.2.2) :
    (({} : PhraseIndexes).addAll field hits).positions field =
      hits.map fun hit => ⟨hit.1, hit.2.1, hit.2.2⟩ := by
  rw [positions_addAll_empty]
  apply List.map_congr_left
  rintro ⟨r, s, e⟩ hmem
  have hle : s ≤ e := h _ hmem
  dsimp only
  rw [if_neg (Int.not_lt.2 hle)]

/-- A phrase search records its hits as the field's phrase positions, each as it is when
its first offset is at most its last. -/
theorem phrasePositions_evaluate_phrase {ev : Evaluation} {ctx : Context} {field : Bytes}
    {terms : List String} {f : Frequencies} (hcond : ev.condition = .builtin (.phrase field terms))
    (hf : ctx.frequencies? field = some f) (doc : Option Document)
    (hle : ∀ hit ∈ phraseHits f terms, hit.2.1 ≤ hit.2.2) :
    (ev.evaluate ctx doc).1.phrasePositions field =
      (phraseHits f terms).map fun hit => ⟨hit.1, hit.2.1, hit.2.2⟩ := by
  unfold Outcome.phrasePositions
  rw [(evaluate_phrase hcond hf doc).2]
  by_cases hempty : (phraseHits f terms).isEmpty
  · rw [if_pos hempty, List.isEmpty_iff.1 hempty]
    rfl
  · rw [if_neg hempty]
    exact positions_addAll_empty_of_le field hle

/-- The lower-cased terms of a phrase are their own query terms. -/
theorem map_queryTerm_of_lower {ts : List String} (hlower : ∀ t ∈ ts, t.map Unicode.toLower = t) :
    (ts.map String.toList).map queryTerm = ts := by
  rw [List.map_map]
  conv => rhs; rw [← List.map_id ts]
  apply List.map_congr_left
  intro t ht
  rw [Function.comp_apply, queryTerm, ← String.map_eq_internal, hlower t ht, id]

/-- `content:phrase(F, 't1', ..., 'tk')` with `k ≥ 2` lower-cased terms compiles, and over a
term-frequency list of `F` built by adding offsets it matches exactly where the terms stand
one after another: some record `r` has `ti` at offset `s + i - 1` for every `i`. It records
every such place `(r, s, s + k - 1)` as a phrase position of `F`, and nothing else, in
ascending order of record and start. This holds while no offset of the terms is within
`k - 1` of `2^63`, where the 64-bit offsets of the later terms would wrap around. -/
theorem phrase_matches_exactly (F : String) (ts : List String) (hk : 2 ≤ ts.length)
    (hlower : ∀ t ∈ ts, t.map Unicode.toLower = t) {f : Frequencies} (hf : f.Built)
    (hfit : ∀ t ∈ ts, ∀ r ∈ f.records t, ∀ s ∈ f.offsets t r,
      -9223372036854775808 ≤ s ∧ s + ts.length ≤ 9223372036854775808)
    (opts : Options) (ctx : Context) (hctx : ctx.frequencies? (Bytes.ofString F) = some f)
    (doc : Option Document) :
    ∃ ev, Evaluation.compile (phraseCall F (ts.map String.toList)) opts = .ok ev ∧
      ((ev.evaluate ctx doc).1.matched = true ↔ ∃ r s, PhraseAt f ts r s) ∧
      (∀ pos, pos ∈ (ev.evaluate ctx doc).1.phrasePositions (Bytes.ofString F) ↔
        ∃ r s, PhraseAt f ts r s ∧ pos = ⟨r, s, s + ts.length - 1⟩) ∧
      ((ev.evaluate ctx doc).1.phrasePositions (Bytes.ofString F)).Pairwise Position.Precedes := by
  have hsound := hf.sound
  obtain ⟨first, rest, rfl⟩ := List.exists_cons_of_length_pos (by omega : 0 < ts.length)
  have hterms := map_queryTerm_of_lower hlower
  have hcompile := compile_phraseCall F ((first :: rest).map String.toList) (by simpa using hk) opts
  rw [hterms] at hcompile
  refine ⟨_, hcompile, ?_⟩
  have hcond : (⟨phraseCall F ((first :: rest).map String.toList),
      .builtin (.phrase (Bytes.ofString F) (first :: rest)), opts⟩ : Evaluation).condition =
      .builtin (.phrase (Bytes.ofString F) (first :: rest)) := rfl
  -- only the first term's offsets bound the phrase: the others are found from them
  have hfirst : ∀ r, ∀ s ∈ f.offsets first r,
      -9223372036854775808 ≤ s ∧ s + rest.length < 9223372036854775808 := fun r s hs => by
    have := hfit first List.mem_cons_self r (mem_records_of_mem_offsets hs) s hs
    simp only [List.length_cons, Nat.cast_add, Nat.cast_one] at this
    omega
  have hhits := fun hit => @mem_phraseHits_iff _ _ _ hsound hfirst hit
  have hpositions := phrasePositions_evaluate_phrase hcond hctx doc fun hit hhit => by
    obtain ⟨r, s, -, rfl⟩ := (hhits hit).1 hhit
    show s ≤ s + rest.length
    omega
  refine ⟨?matched, fun pos => ?positions, ?order⟩
  case matched =>
    rw [(evaluate_phrase hcond hctx doc).1, Bool.not_eq_true', List.isEmpty_eq_false_iff_exists_mem]
    constructor
    · rintro ⟨hit, hhit⟩
      obtain ⟨r, s, hat, -⟩ := (hhits hit).1 hhit
      exact ⟨r, s, hat⟩
    · rintro ⟨r, s, hat⟩
      exact ⟨_, (hhits _).2 ⟨r, s, hat, rfl⟩⟩
  case positions =>
    -- the last offset of a phrase of `k` terms from `s` is `s + (k - 1)`
    have hstop : ∀ s : Int, s + ((first :: rest).length : Int) - 1 = s + rest.length := fun s => by
      simp only [List.length_cons, Nat.cast_add, Nat.cast_one]
      omega
    simp only [hpositions, List.mem_map, hstop]
    constructor
    · rintro ⟨hit, hhit, rfl⟩
      obtain ⟨r, s, hat, rfl⟩ := (hhits hit).1 hhit
      exact ⟨r, s, hat, rfl⟩
    · rintro ⟨r, s, hat, rfl⟩
      exact ⟨_, (hhits _).2 ⟨r, s, hat, rfl⟩, rfl⟩
  case order =>
    rw [hpositions, List.pairwise_map]
    exact pairwise_phraseHits hsound _

/-- `content:phrase(BODY, 'quick', 'brown', 'fox')` matches a record with the three words at
offsets 1, 2 and 3, and records the phrase from offset 1 to offset 3. -/
theorem phrase_quick_brown_fox :
    let f := ((({} : Frequencies).add "quick" (Bytes.ofString "r") [1]).add "brown"
      (Bytes.ofString "r") [2]).add "fox" (Bytes.ofString "r") [3]
    let ctx : Context := { offsets := some { lists := [(Bytes.ofString "BODY", f)] } }
    f.Built ∧ ∃ ev, Evaluation.compile (phraseCall "BODY" (["quick", "brown", "fox"].map String.toList)) {} =
        .ok ev ∧ (ev.evaluate ctx none).1.matched = true ∧
      ⟨Bytes.ofString "r", 1, 3⟩ ∈ (ev.evaluate ctx none).1.phrasePositions (Bytes.ofString "BODY") := by
  intro f ctx
  have hf : f.Built := .add (.add (.add .empty))
  have hctx : ctx.frequencies? (Bytes.ofString "BODY") = some f := by
    simp [ctx, Context.frequencies?, OffsetMap.frequencies?]
  have hfit : ∀ t ∈ ["quick", "brown", "fox"], ∀ r ∈ f.records t, ∀ s ∈ f.offsets t r,
      -9223372036854775808 ≤ s ∧ s + (["quick", "brown", "fox"].length : Int) ≤ 9223372036854775808 := by
    decide +kernel
  have hat : PhraseAt f ["quick", "brown", "fox"] (Bytes.ofString "r") 1 := by
    unfold PhraseAt
    decide +kernel
  obtain ⟨ev, hc, hmatched, hpositions, -⟩ := phrase_matches_exactly "BODY" ["quick", "brown", "fox"]
    (by decide) (by decide +kernel) hf hfit {} ctx hctx none
  exact ⟨hf, ev, hc, hmatched.2 ⟨_, _, hat⟩, (hpositions _).2 ⟨_, _, hat, rfl⟩⟩

/-- With `a` at offset `2^63 - 1` and `b` at offset `-2^63` of record `r`, the phrase `a b`
stands nowhere, but the search finds it, as the offset after `2^63 - 1` wraps around to
`-2^63`; it records the place with its ends swapped, from `-2^63` to `2^63 - 1`. -/
theorem phrase_wrapped_offsets_matched :
    let f := (({} : Frequencies).add "a" (Bytes.ofString "r") [9223372036854775807]).add "b"
      (Bytes.ofString "r") [-9223372036854775808]
    let ctx : Context := { offsets := some { lists := [(Bytes.ofString "F", f)] } }
    f.Built ∧ (¬ ∃ r s, PhraseAt f ["a", "b"] r s) ∧
      ∃ ev, Evaluation.compile (phraseCall "F" ["a".toList, "b".toList]) {} = .ok ev ∧
        (ev.evaluate ctx none).1.matched = true ∧
        (ev.evaluate ctx none).1.phrasePositions (Bytes.ofString "F") =
          [⟨Bytes.ofString "r", -9223372036854775808, 9223372036854775807⟩] := by
  intro f ctx
  have hctx : ctx.frequencies? (Bytes.ofString "F") = some f := by
    simp [ctx, Context.frequencies?, OffsetMap.frequencies?]
  have hterms : ["a".toList, "b".toList].map queryTerm = ["a", "b"] := by decide +kernel
  have hrecords : f.records "a" = [Bytes.ofString "r"] := by decide +kernel
  have ha : f.offsets "a" (Bytes.ofString "r") = [9223372036854775807] := by decide +kernel
  have hb : f.offsets "b" (Bytes.ofString "r") = [-9223372036854775808] := by decide +kernel
  have hhits : phraseHits f ["a", "b"] =
      [(Bytes.ofString "r", 9223372036854775807, -9223372036854775808)] := by decide +kernel
  have hcompile := compile_phraseCall "F" ["a".toList, "b".toList] (by decide) {}
  rw [hterms] at hcompile
  have hcond : (⟨phraseCall "F" ["a".toList, "b".toList], .builtin (.phrase (Bytes.ofString "F") ["a", "b"]),
      {}⟩ : Evaluation).condition = .builtin (.phrase (Bytes.ofString "F") ["a", "b"]) := rfl
  obtain ⟨hmatched, hphrases⟩ := evaluate_phrase hcond hctx none
  refine ⟨.add (.add .empty), ?nowhere, _, hcompile, ?matched, ?positions⟩
  case nowhere =>
    -- `a` stands only at `2^63 - 1` of `r`, and `b` not at `2^63`
    rintro ⟨r, s, hat⟩
    have h0 := hat 0 (by decide)
    have h1 := hat 1 (by decide)
    simp only [List.getElem_cons_zero, List.getElem_cons_succ, Nat.cast_zero, Nat.cast_one,
      Int.add_zero] at h0 h1
    have hr : r = Bytes.ofString "r" := by
      simpa [hrecords] using mem_records_of_mem_offsets h0
    rw [hr, ha, List.mem_singleton] at h0
    rw [hr, hb, List.mem_singleton] at h1
    omega
  case matched =>
    rw [hmatched, hhits]
    rfl
  case positions =>
    unfold Outcome.phrasePositions
    rw [hphrases, hhits, if_neg (by decide), Option.map_some, Option.getD_some,
      positions_addAll_empty]
    -- the stop wrapped below the start, so the two are swapped
    rfl

end EdgeQuery.Eval
