import Mathlib
import EdgeQuery.Proofs.PhraseExactness
/-! # Term-frequency lists built by adding offsets

A term-frequency list is built by adding, one call after another, offsets of a term within
a record. Each addition merges its offsets into those the record already has for the term,
sorting them again and dropping repeats, and puts a record or a term that is new in its
place. So whatever the additions are, in any order of terms and records and with offsets
repeated or out of order, the list reads back what they added: the offsets of a term
within a record are all those added for the two, strictly increasing; the records of a
term are those it was added under, in byte order; and the terms are those added, in order
(`Frequencies.ofAdds_canonical_lists`).

The list is looked up through `valuesAt`, the values of the first entry with a key, at both
of its levels: the terms, and the records of a term. Merging offsets into one record
(`valuesAt_mergeRecord`) and merging the groups of one record into the terms
(`valuesAt_mergeTerms`) are each stated through it once. An addition is the second with a
single group, and what a list holds after any additions follows by induction over them
(`reflects_ofAdds`). -/

namespace EdgeQuery.Frequencies

/-! ## Looking up a term and a record -/

section Lookup

variable {α β : Type} [BEq α]

/-- The values of the first entry with key `k`; none for a key that is not there. -/
def valuesAt (l : List (α × List β)) (k : α) : List β :=
  ((l.find? (·.1 == k)).map (·.2)).getD []

@[simp] theorem valuesAt_nil (k : α) : valuesAt ([] : List (α × List β)) k = [] := rfl

theorem valuesAt_cons (e : α × List β) (l : List (α × List β)) (k : α) :
    valuesAt (e :: l) k = if e.1 == k then e.2 else valuesAt l k := by
  cases h : e.1 == k <;> simp [valuesAt, h]

theorem valuesAt_eq_nil_of_not_mem [LawfulBEq α] {l : List (α × List β)} {k : α} (h : k ∉ l.map (·.1)) :
    valuesAt l k = [] := by
  have hnone : l.find? (·.1 == k) = none :=
    List.find?_eq_none.2 fun p hp hpk => h (List.mem_map.2 ⟨p, hp, by simpa using hpk⟩)
  simp [valuesAt, hnone]

/-- A change of entries that keeps their keys: each key finds its changed entry. -/
theorem valuesAt_map_of_fst [LawfulBEq α] {γ : Type} {F : α × List γ → α × List β}
    (hF : ∀ p, (F p).1 = p.1) (l : List (α × List γ)) (k : α) :
    valuesAt (l.map F) k = (((l.find? (·.1 == k)).map F).map (·.2)).getD [] := by
  unfold valuesAt
  rw [List.find?_map]
  have hpred : ((fun p : α × List β => p.1 == k) ∘ F) = fun p => p.1 == k := by
    funext p
    simp [hF]
  rw [hpred]

end Lookup

/-- The offsets of a term among groups of offsets, if the term has a group. -/
def groupOffsets (gs : List (String × List Int)) (t : String) : Option (List Int) :=
  (gs.find? (·.1 == t)).map (·.2)

theorem groupOffsets_cons (g : String × List Int) (gs : List (String × List Int)) (t : String) :
    groupOffsets (g :: gs) t = if g.1 = t then some g.2 else groupOffsets gs t := by
  by_cases h : g.1 = t <;> simp [groupOffsets, h]

theorem groupOffsets_eq_none_of_not_mem {gs : List (String × List Int)} {t : String}
    (h : t ∉ gs.map (·.1)) : groupOffsets gs t = none := by
  have hnone : gs.find? (·.1 == t) = none :=
    List.find?_eq_none.2 fun p hp hpt => h (List.mem_map.2 ⟨p, hp, by simpa using hpt⟩)
  simp [groupOffsets, hnone]

theorem offsets_eq_valuesAt (f : Frequencies) (t : String) (r : Bytes) :
    f.offsets t r = valuesAt (valuesAt f.byTerm t) r := by
  unfold offsets valuesAt
  cases f.byTerm.find? (·.1 == t) with
  | none => rfl
  | some e => rfl

theorem records_eq_mergeSort (f : Frequencies) (t : String) :
    f.records t = ((valuesAt f.byTerm t).map (·.1)).mergeSort PhraseIndexes.bytesLe := by
  unfold records valuesAt
  cases f.byTerm.find? (·.1 == t) with
  | none => simp
  | some e => rfl

/-! ## Merging offsets into a record -/

section MergeRecord

variable (recs : List (Bytes × List Int)) (record : Bytes) (offs : List Int)

theorem mergeRecord_nil : mergeRecord [] record offs = [(record, sortedOffsets offs)] := by
  simp [mergeRecord]

/-- Merging keeps the record ids and their order, and puts a new record last. -/
theorem keys_mergeRecord :
    (mergeRecord recs record offs).map (·.1) =
      if recs.any (·.1 == record) then recs.map (·.1) else recs.map (·.1) ++ [record] := by
  unfold mergeRecord
  split
  · rw [List.map_map]
    apply List.map_congr_left
    intro p _
    simp only [Function.comp_apply]
    split <;> rfl
  · simp

theorem mem_keys_mergeRecord (r : Bytes) :
    r ∈ (mergeRecord recs record offs).map (·.1) ↔ r ∈ recs.map (·.1) ∨ r = record := by
  rw [keys_mergeRecord]
  split
  · rename_i hany
    -- the record is there already
    obtain ⟨p, hp, hpr⟩ := List.any_eq_true.1 hany
    have : record ∈ recs.map (·.1) := List.mem_map.2 ⟨p, hp, by simpa using hpr⟩
    constructor
    · exact Or.inl
    · rintro (h | rfl)
      · exact h
      · exact this
  · simp

/-- Merging offsets into a record sorts them in with the record's own; other records keep
theirs. -/
theorem valuesAt_mergeRecord (r : Bytes) :
    valuesAt (mergeRecord recs record offs) r =
      if r = record then sortedOffsets (valuesAt recs record ++ offs) else valuesAt recs r := by
  unfold mergeRecord
  split
  · rename_i hany
    rw [valuesAt_map_of_fst]
    · -- the record is there: the entry found for `r` is updated exactly when `r` is the record
      cases hq : recs.find? (·.1 == r) with
      | none =>
        have hr : r ≠ record := by
          rintro rfl
          obtain ⟨p, hp, hpr⟩ := List.any_eq_true.1 hany
          exact absurd hpr (by simpa using List.find?_eq_none.1 hq p hp)
        simp [valuesAt, hq, hr]
      | some q =>
        obtain ⟨a, os⟩ := q
        have ha : a = r := by simpa using List.find?_some hq
        subst ha
        by_cases har : a = record
        · subst har
          simp [valuesAt, hq]
        · simp [valuesAt, hq, har]
    · intro p
      obtain ⟨a, os⟩ := p
      dsimp only
      split <;> rfl
  · rename_i hany
    -- a new record goes last, after every other
    unfold valuesAt
    rw [List.find?_append]
    by_cases hr : r = record
    · subst hr
      have hnone : recs.find? (·.1 == r) = none :=
        List.find?_eq_none.2 fun p hp hpr => hany (List.any_eq_true.2 ⟨p, hp, hpr⟩)
      simp [hnone]
    · have hne : (record == r) = false := by simpa using Ne.symm hr
      cases recs.find? (·.1 == r) <;> simp [hne, hr]

end MergeRecord

/-! ## Merging terms -/

section MergeTerms

variable (record : Bytes)

/-- Merging keeps the terms of both sides. -/
theorem mem_keys_mergeTerms (fuel : Nat) (xs : List (String × List (Bytes × List Int)))
    (gs : List (String × List Int)) (hfuel : xs.length + gs.length < fuel) (t : String) :
    t ∈ (mergeTerms record fuel xs gs).map (·.1) ↔ t ∈ xs.map (·.1) ∨ t ∈ gs.map (·.1) := by
  fun_induction mergeTerms record fuel xs gs with
  | case1 => omega
  | case2 => simp
  | case3 fuel gs _ =>
    -- every group becomes a new term
    simp only [List.map_map, List.mem_map, Function.comp_apply, List.map_nil, List.not_mem_nil, false_or]
  | case4 fuel t0 recs xs g os gs _ ih =>
    simp only [List.map_cons, List.mem_cons, List.length_cons] at ih hfuel ⊢
    rw [ih (by omega)]
    grind
  | case5 fuel t0 recs xs g os gs _ heq ih =>
    simp only [List.map_cons, List.mem_cons, List.length_cons] at ih hfuel ⊢
    rw [ih (by omega), show t0 = g by simpa using heq]
    grind
  | case6 fuel t0 recs xs g os gs _ _ ih =>
    simp only [List.map_cons, List.mem_cons, List.length_cons] at ih hfuel ⊢
    rw [ih (by omega)]
    grind

/-- A term below the first of terms in increasing order is none of them. -/
theorem not_mem_keys_of_lt {β : Type} {t u : String} {v : β} {l : List (String × β)}
    (hs : ((u, v) :: l).map (·.1) |>.Pairwise (· < ·)) (h : t < u) : t ∉ ((u, v) :: l).map (·.1) := by
  simp only [List.map_cons, List.pairwise_cons, List.mem_cons] at hs ⊢
  rintro (rfl | ht)
  · exact lt_irrefl _ h
  · exact lt_asymm h (hs.1 t ht)

/-- Merging two lists of terms in increasing order gives terms in increasing order. -/
theorem pairwise_keys_mergeTerms (fuel : Nat) (xs : List (String × List (Bytes × List Int)))
    (gs : List (String × List Int)) (hfuel : xs.length + gs.length < fuel)
    (hxs : (xs.map (·.1)).Pairwise (· < ·)) (hgs : (gs.map (·.1)).Pairwise (· < ·)) :
    ((mergeTerms record fuel xs gs).map (·.1)).Pairwise (· < ·) := by
  fun_induction mergeTerms record fuel xs gs with
  | case1 => omega
  | case2 => exact hxs
  | case3 fuel gs _ => simpa [List.map_map, Function.comp_def] using hgs
  | case4 fuel t0 recs xs g os gs hlt ih =>
    -- `t0` comes first: it is below the rest of `xs` and below `g`, the least group
    have hkeys := mem_keys_mergeTerms record fuel xs ((g, os) :: gs) (by simp at hfuel ⊢; omega)
    simp only [List.map_cons, List.pairwise_cons, List.length_cons, List.mem_cons] at hxs hgs hfuel ih hkeys ⊢
    refine ⟨fun u hu => ?_, ih (by omega) hxs.2 hgs⟩
    rcases (hkeys u).1 hu with hu | rfl | hu
    · exact hxs.1 u hu
    · exact hlt
    · exact lt_trans hlt (hgs.1 u hu)
  | case5 fuel t0 recs xs g os gs _ heq ih =>
    have hkeys := mem_keys_mergeTerms record fuel xs gs (by simp at hfuel; omega)
    have htg : t0 = g := by simpa using heq
    subst htg
    simp only [List.map_cons, List.pairwise_cons, List.length_cons] at hxs hgs hfuel ⊢
    refine ⟨fun u hu => ?_, ih (by omega) hxs.2 hgs.2⟩
    rcases (hkeys u).1 hu with hu | hu
    · exact hxs.1 u hu
    · exact hgs.1 u hu
  | case6 fuel t0 recs xs g os gs hnlt hne ih =>
    -- `g` comes first: it is below `t0`, the least of `xs`, and below the other groups
    have hgt : g < t0 := lt_of_le_of_ne (not_lt.1 hnlt) fun h => hne (by simp [h])
    have hkeys := mem_keys_mergeTerms record fuel ((t0, recs) :: xs) gs (by simp at hfuel ⊢; omega)
    simp only [List.map_cons, List.pairwise_cons, List.length_cons] at hxs hgs hfuel hkeys ⊢
    refine ⟨fun u hu => ?_, ih (by simp; omega) (List.pairwise_cons.2 hxs) hgs.2⟩
    simp only [List.mem_cons] at hkeys
    rcases (hkeys u).1 hu with (rfl | hu) | hu
    · exact hgt
    · exact lt_trans hgt (hxs.1 u hu)
    · exact hgs.1 u hu

/-- Merging gives a term of the groups the records of the list merged with its group's
offsets, and any other term its records in the list. -/
theorem valuesAt_mergeTerms (fuel : Nat) (xs : List (String × List (Bytes × List Int)))
    (gs : List (String × List Int)) (hfuel : xs.length + gs.length < fuel)
    (hxs : (xs.map (·.1)).Pairwise (· < ·)) (hgs : (gs.map (·.1)).Pairwise (· < ·)) (t : String) :
    valuesAt (mergeTerms record fuel xs gs) t =
      (groupOffsets gs t).elim (valuesAt xs t) (mergeRecord (valuesAt xs t) record) := by
  fun_induction mergeTerms record fuel xs gs with
  | case1 => omega
  | case2 => rfl
  | case3 fuel gs _ =>
    -- every group becomes a new term with the record alone
    rw [valuesAt_map_of_fst]
    · unfold groupOffsets
      cases gs.find? (·.1 == t) with
      | none => rfl
      | some q => simp [mergeRecord_nil]
    · intro p
      rfl
  | case4 fuel t0 recs xs g os gs hlt ih =>
    rw [valuesAt_cons, valuesAt_cons]
    by_cases ht : t0 = t
    · -- `t0` is below every group, so it has none
      subst ht
      rw [groupOffsets_eq_none_of_not_mem (not_mem_keys_of_lt hgs hlt)]
      simp
    · have hne : (t0 == t) = false := by simpa using ht
      simp only [hne, Bool.false_eq_true, if_false]
      exact ih (by simp at hfuel ⊢; omega) hxs.of_cons hgs
  | case5 fuel t0 recs xs g os gs _ heq ih =>
    have htg : t0 = g := by simpa using heq
    subst htg
    rw [valuesAt_cons, valuesAt_cons, groupOffsets_cons]
    by_cases ht : t0 = t
    · subst ht
      simp
    · have hne : (t0 == t) = false := by simpa using ht
      simp only [hne, ht, Bool.false_eq_true, if_false]
      exact ih (by simp at hfuel ⊢; omega) hxs.of_cons hgs.of_cons
  | case6 fuel t0 recs xs g os gs hnlt hne ih =>
    have hgt : g < t0 := lt_of_le_of_ne (not_lt.1 hnlt) fun h => hne (by simp [h])
    rw [valuesAt_cons, groupOffsets_cons]
    by_cases ht : g = t
    · -- `g` is below every term of the list, so it is a new term
      subst ht
      rw [valuesAt_eq_nil_of_not_mem (not_mem_keys_of_lt hxs hgt)]
      simp [mergeRecord_nil]
    · have hne : (g == t) = false := by simpa using ht
      simp only [hne, ht, Bool.false_eq_true, if_false]
      exact ih (by simp at hfuel ⊢; omega) hxs hgs.of_cons

end MergeTerms

/-! ## Adding offsets of a term within a record -/

theorem gather_singleton (p : String × List Int) : gather [p] = [p] := by
  rw [gather_eq, List.mergeSort_singleton]
  rfl

theorem add_byTerm (f : Frequencies) (term : String) (record : Bytes) (offs : List Int) :
    (f.add term record offs).byTerm =
      mergeTerms record (f.byTerm.length + 1 + 1) f.byTerm [(term, offs)] := by
  simp only [add, addAll, gather_singleton, List.length_singleton]

/-- What adding keeps of a list: its terms in increasing order, each once, and every term's
records sound. -/
structure Canonical (f : Frequencies) : Prop where
  sorted : (f.byTerm.map (·.1)).Pairwise (· < ·)
  sound : f.Sound

theorem canonical_empty : Canonical {} := ⟨List.Pairwise.nil, fun _ h => by cases h⟩

/-- The terms of a canonical list, sorted, are its terms as they stand. -/
theorem Canonical.terms_eq {f : Frequencies} (hf : f.Canonical) : f.terms = f.byTerm.map (·.1) :=
  List.mergeSort_of_pairwise (hf.sorted.imp fun h => decide_eq_true (le_of_lt h))

theorem mem_keys_add (f : Frequencies) (g : String) (record : Bytes) (offs : List Int) (t : String) :
    t ∈ (f.add g record offs).byTerm.map (·.1) ↔ t ∈ f.byTerm.map (·.1) ∨ t = g := by
  rw [add_byTerm, mem_keys_mergeTerms record _ _ _ (by simp)]
  simp

section Add

variable {f : Frequencies} (hf : f.Canonical) (g : String) (record : Bytes) (offs : List Int)
include hf

theorem Canonical.add : (f.add g record offs).Canonical where
  sorted := by
    rw [add_byTerm]
    exact pairwise_keys_mergeTerms record _ _ _ (by simp) hf.sorted (List.pairwise_singleton _ _)
  sound := hf.sound.addAll record [(g, offs)]

/-- Adding merges into the records of the term added, and leaves other terms as they are. -/
theorem Canonical.valuesAt_add (t : String) :
    valuesAt (f.add g record offs).byTerm t =
      if t = g then mergeRecord (valuesAt f.byTerm g) record offs else valuesAt f.byTerm t := by
  rw [add_byTerm, valuesAt_mergeTerms record _ _ _ (by simp) hf.sorted (List.pairwise_singleton _ _)]
  by_cases ht : t = g
  · subst ht
    simp [groupOffsets]
  · simp [groupOffsets, ht, Ne.symm ht]

/-- Adding sorts the offsets in with those of the term and record added; all others stay. -/
theorem Canonical.offsets_add (t : String) (r : Bytes) :
    (f.add g record offs).offsets t r =
      if t = g ∧ r = record then sortedOffsets (f.offsets g record ++ offs) else f.offsets t r := by
  rw [offsets_eq_valuesAt, offsets_eq_valuesAt, offsets_eq_valuesAt, hf.valuesAt_add]
  by_cases ht : t = g
  · subst ht
    rw [if_pos rfl, valuesAt_mergeRecord]
    by_cases hr : r = record <;> simp [hr]
  · simp [ht]

/-- Adding gives the term added the record added. -/
theorem Canonical.mem_records_add (t : String) (r : Bytes) :
    r ∈ (valuesAt (f.add g record offs).byTerm t).map (·.1) ↔
      r ∈ (valuesAt f.byTerm t).map (·.1) ∨ (t = g ∧ r = record) := by
  rw [hf.valuesAt_add]
  by_cases ht : t = g
  · subst ht
    simp [mem_keys_mergeRecord]
  · simp [ht]

end Add

/-! ## Lists built by additions -/

/-- The list built from the empty one by adding, one after another, offsets of a term within
a record. -/
def ofAdds (adds : List (String × Bytes × List Int)) : Frequencies :=
  adds.foldl (fun f a => f.add a.1 a.2.1 a.2.2) {}

theorem ofAdds_append_singleton (adds : List (String × Bytes × List Int))
    (a : String × Bytes × List Int) : ofAdds (adds ++ [a]) = (ofAdds adds).add a.1 a.2.1 a.2.2 := by
  simp [ofAdds, List.foldl_append]

/-- A list reflects additions when it is canonical and holds exactly the offsets, records and
terms they added. -/
structure Reflects (adds : List (String × Bytes × List Int)) (f : Frequencies) : Prop where
  canonical : f.Canonical
  offsets : ∀ t r x, x ∈ f.offsets t r ↔ ∃ os, (t, r, os) ∈ adds ∧ x ∈ os
  records : ∀ t r, r ∈ (valuesAt f.byTerm t).map (·.1) ↔ ∃ os, (t, r, os) ∈ adds
  terms : ∀ t, t ∈ f.byTerm.map (·.1) ↔ ∃ r os, (t, r, os) ∈ adds

/-- One more addition is reflected by adding it. -/
theorem Reflects.add {adds : List (String × Bytes × List Int)} {f : Frequencies}
    (h : Reflects adds f) (a : String × Bytes × List Int) :
    Reflects (adds ++ [a]) (f.add a.1 a.2.1 a.2.2) := by
  obtain ⟨g, record, offs⟩ := a
  refine ⟨h.canonical.add g record offs, fun t r x => ?_, fun t r => ?_, fun t => ?_⟩
  · rw [h.canonical.offsets_add]
    by_cases htr : t = g ∧ r = record
    · obtain ⟨rfl, rfl⟩ := htr
      simp [mem_sortedOffsets, h.offsets, or_and_right, exists_or]
    · rw [if_neg htr, h.offsets]
      simp only [List.mem_append, List.mem_singleton, Prod.mk.injEq]
      -- the new addition is for another term or record
      constructor
      · rintro ⟨os, hmem, hx⟩
        exact ⟨os, Or.inl hmem, hx⟩
      · rintro ⟨os, hmem | ⟨rfl, rfl, -⟩, hx⟩
        · exact ⟨os, hmem, hx⟩
        · exact absurd ⟨rfl, rfl⟩ htr
  · rw [h.canonical.mem_records_add, h.records]
    simp [exists_or]
  · rw [mem_keys_add, h.terms]
    simp [exists_or]

/-- A list built by additions reflects them. -/
theorem reflects_ofAdds (adds : List (String × Bytes × List Int)) : Reflects adds (ofAdds adds) := by
  induction adds using List.reverseRecOn with
  | nil =>
    refine ⟨canonical_empty, fun t r x => ?_, fun t r => ?_, fun t => ?_⟩ <;>
      simp [ofAdds, offsets_eq_valuesAt]
  | append_singleton adds a ih =>
    rw [ofAdds_append_singleton]
    exact ih.add a

/-- After any additions, the offsets of a term within a record are all those added for them,
in strictly increasing order; the records of a term are those it was added under, in strictly
increasing byte order; and the terms are those added, in strictly increasing order. -/
theorem ofAdds_canonical_lists (adds : List (String × Bytes × List Int)) :
    (∀ t r, ((ofAdds adds).offsets t r).Pairwise (· < ·) ∧
        ∀ x, x ∈ (ofAdds adds).offsets t r ↔ ∃ os, (t, r, os) ∈ adds ∧ x ∈ os) ∧
      (∀ t, ((ofAdds adds).records t).Pairwise (fun a b => Bytes.cmp a b = .lt) ∧
        ∀ r, r ∈ (ofAdds adds).records t ↔ ∃ os, (t, r, os) ∈ adds) ∧
      ((ofAdds adds).terms.Pairwise (· < ·) ∧
        ∀ t, t ∈ (ofAdds adds).terms ↔ ∃ r os, (t, r, os) ∈ adds) := by
  have h := reflects_ofAdds adds
  refine ⟨fun t r => ⟨h.canonical.sound.pairwise_offsets t r, h.offsets t r⟩,
    fun t => ⟨h.canonical.sound.pairwise_records t, fun r => ?_⟩, ?_, fun t => ?_⟩
  · rw [records_eq_mergeSort, List.mem_mergeSort, h.records]
  · rw [h.canonical.terms_eq]
    exact h.canonical.sorted
  · rw [h.canonical.terms_eq, h.terms]

end EdgeQuery.Frequencies
