import EdgeQuery.Terms.Tokenizer
import EdgeQuery.Proofs.LexPieces
import EdgeQuery.Proofs.MsgpackRead
/-! # The term index of a text

A text is indexed by its terms: the tokenizer reads its characters, cuts them into words
(the maximal runs of letters, digits and underscores) and keeps of each word its lower-cased
characters, as many as fit in the term's byte budget. The term-frequency list of a record
then maps each term to the sorted offsets of its words.

This module states each of these steps by what it produces:

* `Tokenizer.tokens_eq`: the tokens of a text are its `words`, numbered in order, each read
  as `termOf` the word; a word that fits is kept whole (`termOf_of_fits`), and no term is
  longer than the budget (`termOf_encodes`);
* `Frequencies.mem_offsets_addAll_empty`, `Frequencies.records_addAll_empty`: the list of
  one record holds, for each term, the offsets given for it, sorted and each once;
* `holds_iff_mem`: the search by halving finds exactly the offsets of a sorted array. -/

namespace EdgeQuery

/-! ## Sorted offsets -/

/-- Puts an offset in front of increasing offsets, unless it is the first of them. -/
def repeatStep (x : Int) (acc : List Int) : List Int :=
  match acc with
  | y :: _ => if x == y then acc else x :: acc
  | [] => [x]

/-- The repeats of neighbouring offsets dropped, as `sortedOffsets` drops them. -/
def dropRepeats (l : List Int) : List Int := l.foldr repeatStep []

theorem sortedOffsets_eq (xs : List Int) :
    sortedOffsets xs = dropRepeats (xs.mergeSort (· ≤ ·)) := rfl

theorem mem_repeatStep {a x : Int} {acc : List Int} : x ∈ repeatStep a acc ↔ x = a ∨ x ∈ acc := by
  cases acc with
  | nil => simp [repeatStep]
  | cons y ys =>
    by_cases hay : a = y
    · subst hay
      simp [repeatStep]
    · simp [repeatStep, hay]

theorem pairwise_repeatStep {a : Int} {acc : List Int} (hacc : acc.Pairwise (· < ·))
    (ha : ∀ z ∈ acc, a ≤ z) : (repeatStep a acc).Pairwise (· < ·) := by
  cases acc with
  | nil => simp [repeatStep]
  | cons y ys =>
    by_cases hay : a = y
    · subst hay
      simpa [repeatStep] using hacc
    · -- `a` is below `y`, the least of the rest
      simp only [repeatStep, beq_iff_eq, hay, if_false]
      have hy := List.pairwise_cons.1 hacc
      refine List.pairwise_cons.2 ⟨fun z hz => ?_, hacc⟩
      have hay' : a < y := by have := ha y List.mem_cons_self; omega
      rcases List.mem_cons.1 hz with rfl | hz'
      · exact hay'
      · exact Int.lt_trans hay' (hy.1 z hz')

theorem mem_dropRepeats {l : List Int} {x : Int} : x ∈ dropRepeats l ↔ x ∈ l := by
  induction l with
  | nil => simp [dropRepeats]
  | cons a l ih =>
    show x ∈ repeatStep a (dropRepeats l) ↔ _
    rw [mem_repeatStep, ih, List.mem_cons]

/-- Dropping the repeats of a sorted list leaves it strictly increasing. -/
theorem pairwise_dropRepeats {l : List Int} (hl : l.Pairwise (· ≤ ·)) :
    (dropRepeats l).Pairwise (· < ·) := by
  induction l with
  | nil => simp [dropRepeats]
  | cons a l ih =>
    rw [List.pairwise_cons] at hl
    exact pairwise_repeatStep (ih hl.2) fun z hz => hl.1 z (mem_dropRepeats.1 hz)

/-- The offsets of `sortedOffsets` are those given, increasing, each once. -/
theorem mem_sortedOffsets {xs : List Int} {x : Int} : x ∈ sortedOffsets xs ↔ x ∈ xs := by
  rw [sortedOffsets_eq, mem_dropRepeats, List.mem_mergeSort]

theorem pairwise_sortedOffsets (xs : List Int) : (sortedOffsets xs).Pairwise (· < ·) := by
  rw [sortedOffsets_eq]
  apply pairwise_dropRepeats
  have h := @List.pairwise_mergeSort _ (fun a b : Int => decide (a ≤ b))
    (fun a b c hab hbc => by simp only [decide_eq_true_eq] at *; omega)
    (fun a b => by simp only [Bool.or_eq_true, decide_eq_true_eq]; omega) xs
  exact h.imp fun hab => by simpa using hab

/-! ## Finding an offset by halving -/

section Search

variable {a : Array Int} {x : Int}

/-- What the search knows of `[lo, hi)`: every value before `lo` is below `x`, and every
value from `hi` on is at least `x`. -/
def SearchInv (a : Array Int) (x : Int) (lo hi : Nat) : Prop :=
  lo ≤ hi ∧ hi ≤ a.size ∧
    (∀ i (h : i < a.size), i < lo → a[i] < x) ∧
    (∀ i (h : i < a.size), hi ≤ i → x ≤ a[i])

theorem sorted_getElem_le (hs : a.toList.Pairwise (· ≤ ·)) {i j : Nat} (hij : i ≤ j)
    (hi : i < a.size) (hj : j < a.size) : a[i] ≤ a[j] := by
  rcases Nat.lt_or_eq_of_le hij with h | rfl
  · have := List.pairwise_iff_getElem.1 hs i j (by simpa using Nat.lt_trans h hj) (by simpa using hj) h
    simpa using this
  · exact Int.le_refl _

theorem getD_of_lt {i : Nat} (h : i < a.size) : a.getD i 0 = a[i] := by
  simp [Array.getD, h]

/-- With a step of fuel for each value left between `lo` and `hi`, the search ends where the
invariant pins a single point. -/
theorem lowerBoundIn_inv (hs : a.toList.Pairwise (· ≤ ·)) :
    ∀ (fuel lo hi : Nat), SearchInv a x lo hi → hi - lo < fuel →
      SearchInv a x (lowerBoundIn a x fuel lo hi) (lowerBoundIn a x fuel lo hi)
  | 0, _, _, _, hfuel => absurd hfuel (Nat.not_lt_zero _)
  | fuel + 1, lo, hi, h, hfuel => by
    obtain ⟨hle, hsize, hbelow, habove⟩ := h
    rw [lowerBoundIn]
    by_cases hlt : lo < hi
    · rw [if_pos hlt]
      have hm : (lo + hi) / 2 < a.size := by omega
      dsimp only
      rw [getD_of_lt hm]
      by_cases hmid : a[(lo + hi) / 2] < x
      · -- the answer lies above the middle
        rw [if_pos hmid]
        refine lowerBoundIn_inv hs fuel _ _ ⟨by omega, hsize, fun i hi hlt' => ?_, habove⟩ (by omega)
        by_cases hil : i < lo
        · exact hbelow i hi hil
        · exact Int.lt_of_le_of_lt (sorted_getElem_le hs (by omega) hi hm) hmid
      · -- the answer lies at the middle or below
        rw [if_neg hmid]
        refine lowerBoundIn_inv hs fuel _ _ ⟨by omega, by omega, hbelow, fun i hi hle' => ?_⟩ (by omega)
        exact Int.le_trans (by omega) (sorted_getElem_le hs hle' hm hi)
    · rw [if_neg hlt]
      have heq : hi = lo := by omega
      subst heq
      exact ⟨hle, hsize, hbelow, habove⟩

/-- The search finds the first index whose value is at least `x`. -/
theorem lowerBound_inv (hs : a.toList.Pairwise (· ≤ ·)) :
    SearchInv a x (lowerBound a x) (lowerBound a x) :=
  lowerBoundIn_inv hs _ 0 a.size
    ⟨Nat.zero_le _, Nat.le_refl _, fun _ _ h => absurd h (Nat.not_lt_zero _),
      fun _ hi hle => absurd hi (Nat.not_lt_of_le hle)⟩ (by omega)

/-- An offset the search finds is a value of the array, sorted or not. -/
theorem mem_of_holds (h : holds a x = true) : x ∈ a.toList := by
  simp only [holds, firstAtLeast?, beq_iff_eq] at h
  split at h
  · next hlt =>
    simp only [Option.some.injEq] at h
    rw [← h]
    exact Array.getElem_mem_toList hlt
  · simp at h

/-- A sorted array holds exactly its values. -/
theorem holds_iff_mem (hs : a.toList.Pairwise (· ≤ ·)) : holds a x = true ↔ x ∈ a.toList := by
  refine ⟨mem_of_holds, fun hx => ?_⟩
  obtain ⟨_, hsize, hbelow, habove⟩ := lowerBound_inv (x := x) hs
  simp only [holds, firstAtLeast?, beq_iff_eq]
  obtain ⟨j, hj, hxj⟩ := List.getElem_of_mem hx
  have hj' : j < a.size := by simpa using hj
  rw [Array.getElem_toList] at hxj
  -- the first value at least `x` comes at or before `j`, and is at most `a[j] = x`
  have hle : lowerBound a x ≤ j :=
    Nat.le_of_not_lt fun hgt => absurd (hbelow j hj' hgt) (by omega)
  have hlt : lowerBound a x < a.size := by omega
  rw [if_pos hlt, getD_of_lt hlt]
  have h1 := habove _ hlt (Nat.le_refl _)
  have h2 := sorted_getElem_le hs hle hlt hj'
  congr 1
  omega

end Search

end EdgeQuery

namespace EdgeQuery.Frequencies

/-! ## Gathering the offsets of each term -/

/-- Puts a term's offsets in front of gathered terms, joining them with the first one when
it is the same term. -/
def gatherStep : String × List Int → List (String × List Int) → List (String × List Int)
  | (t, os), acc =>
    match acc with
    | (t', os') :: rest => if t == t' then (t, os ++ os') :: rest else (t, os) :: acc
    | [] => [(t, os)]

theorem gather_eq (groups : List (String × List Int)) :
    gather groups = (groups.mergeSort fun a b => a.1 ≤ b.1).foldr gatherStep [] := rfl

/-- What gathering keeps of a list of groups: its terms, and which offsets each term has. -/
structure Gathers (l r : List (String × List Int)) : Prop where
  /-- The gathered terms are distinct. -/
  nodup : (r.map (·.1)).Nodup
  /-- The same terms. -/
  terms : ∀ t, t ∈ r.map (·.1) ↔ t ∈ l.map (·.1)
  /-- The same offsets for each term. -/
  offsets : ∀ t x, (∃ os, (t, os) ∈ r ∧ x ∈ os) ↔ (∃ os, (t, os) ∈ l ∧ x ∈ os)

/-- The offsets a list of groups gives a term, with one group in front. -/
theorem exists_mem_cons_offsets {t u : String} {x : Int} {os : List Int} {r : List (String × List Int)} :
    (∃ ps, (u, ps) ∈ (t, os) :: r ∧ x ∈ ps) ↔ (u = t ∧ x ∈ os) ∨ ∃ ps, (u, ps) ∈ r ∧ x ∈ ps := by
  simp only [List.mem_cons, Prod.mk.injEq]
  constructor
  · rintro ⟨ps, ⟨rfl, rfl⟩ | hmem, hx⟩
    · exact Or.inl ⟨rfl, hx⟩
    · exact Or.inr ⟨ps, hmem, hx⟩
  · rintro (⟨rfl, hx⟩ | ⟨ps, hmem, hx⟩)
    · exact ⟨os, Or.inl ⟨rfl, rfl⟩, hx⟩
    · exact ⟨ps, Or.inr hmem, hx⟩

/-- One more group in front of a list sorted by term: it joins the first gathered term or
comes before all of them. -/
theorem Gathers.cons {l r : List (String × List Int)} (h : Gathers l r)
    (hhead : (r.map (·.1)).head? = (l.map (·.1)).head?) (t : String) (os : List Int)
    (hle : ∀ g ∈ l, t ≤ g.1) (hsorted : (l.map (·.1)).Pairwise (· ≤ ·)) :
    Gathers ((t, os) :: l) (gatherStep (t, os) r) := by
  obtain ⟨hnodup, hterms, hoffs⟩ := h
  match r, hnodup, hterms, hoffs, hhead with
  | [], _, hterms, hoffs, hhead =>
    -- nothing gathered: the rest is empty too
    have hl : l = [] := by
      cases l with
      | nil => rfl
      | cons g l => simp at hhead
    subst hl
    exact ⟨by simp [gatherStep], by simp [gatherStep], by simp [gatherStep]⟩
  | (t', os') :: rest, hnodup, hterms, hoffs, hhead =>
    by_cases htt : t = t'
    · -- the same term as the first gathered one: the offsets are joined
      subst htt
      refine ⟨by simpa [gatherStep] using hnodup, fun u => ?_, fun u x => ?_⟩
      · have := hterms u
        simp only [gatherStep, beq_self_eq_true, if_true, List.map_cons, List.mem_cons] at this ⊢
        rw [← this, ← or_assoc, or_self]
      · -- the joined group holds the offsets of both
        have := hoffs u x
        simp only [gatherStep, beq_self_eq_true, if_true, exists_mem_cons_offsets] at this ⊢
        rw [← this, List.mem_append, and_or_left, or_assoc]
    · -- a new term, which comes before every gathered term, so it is not among them
      have hfresh : t ∉ ((t', os') :: rest).map (·.1) := by
        intro hmem
        obtain ⟨g, hg, hgt⟩ := List.mem_map.1 ((hterms t).1 hmem)
        -- the first term of the rest is `t'`, at most every term of the rest
        cases l with
        | nil => simp at hhead
        | cons g0 l =>
          simp only [List.map_cons, List.head?_cons, Option.some.injEq] at hhead
          have ht' : t ≤ t' := hhead ▸ hle g0 List.mem_cons_self
          have hgt' : t' ≤ g.1 := by
            rcases List.mem_cons.1 hg with rfl | hg
            · exact hhead ▸ String.le_refl _
            · rw [hhead]
              exact List.rel_of_pairwise_cons hsorted (List.mem_map_of_mem hg)
          exact htt (String.le_antisymm ht' (hgt ▸ hgt'))
      have hstep : gatherStep (t, os) ((t', os') :: rest) = (t, os) :: (t', os') :: rest := by
        simp [gatherStep, htt]
      rw [hstep]
      refine ⟨List.nodup_cons.2 ⟨hfresh, hnodup⟩, fun u => ?_, fun u x => ?_⟩
      · have := hterms u
        simp only [List.map_cons, List.mem_cons] at this ⊢
        rw [this]
      · have := hoffs u x
        simp only [exists_mem_cons_offsets] at this ⊢
        rw [this]

/-- The first gathered term is the first term of the groups. -/
theorem head?_gatherStep (g : String × List Int) (r : List (String × List Int)) :
    ((gatherStep g r).map (·.1)).head? = some g.1 := by
  obtain ⟨t, os⟩ := g
  cases r with
  | nil => rfl
  | cons p rest =>
    obtain ⟨t', os'⟩ := p
    by_cases htt : t = t' <;> simp [gatherStep, htt]

/-- Gathering a list sorted by term, group by group from the end. -/
theorem gathers_foldr (l : List (String × List Int)) (hsorted : (l.map (·.1)).Pairwise (· ≤ ·)) :
    Gathers l (l.foldr gatherStep []) ∧
      ((l.foldr gatherStep []).map (·.1)).head? = (l.map (·.1)).head? := by
  induction l with
  | nil => exact ⟨⟨List.nodup_nil, by simp, by simp⟩, rfl⟩
  | cons g l ih =>
    rw [List.map_cons, List.pairwise_cons] at hsorted
    obtain ⟨hg, hrest⟩ := ih hsorted.2
    exact ⟨hg.cons hrest g.1 g.2 (fun g' hg' => hsorted.1 _ (List.mem_map_of_mem hg')) hsorted.2,
      head?_gatherStep g _⟩

/-- Gathering puts the offsets of each term together, whatever the order of the groups. -/
theorem gathers_gather (groups : List (String × List Int)) : Gathers groups (gather groups) := by
  have hperm := List.mergeSort_perm groups fun a b => decide (a.1 ≤ b.1)
  have hsorted := @List.pairwise_mergeSort _ (fun a b : String × List Int => decide (a.1 ≤ b.1))
    (fun a b c hab hbc => by simp only [decide_eq_true_eq] at *; exact String.le_trans hab hbc)
    (fun a b => by simpa only [Bool.or_eq_true, decide_eq_true_eq] using String.le_total a.1 b.1)
    groups
  obtain ⟨hnodup, hterms, hoffs⟩ :=
    (gathers_foldr _ (List.pairwise_map.2 (hsorted.imp fun h => by simpa using h))).1
  rw [gather_eq]
  refine ⟨hnodup, fun t => (hterms t).trans ?_, fun t x => (hoffs t x).trans ?_⟩
  · exact (hperm.map _).mem_iff
  · simp only [hperm.mem_iff]

/-- Distinct terms: a term has one group. -/
theorem eq_of_nodup_terms {r : List (String × List Int)} (h : (r.map (·.1)).Nodup) {t : String}
    {a b : List Int} (ha : (t, a) ∈ r) (hb : (t, b) ∈ r) : a = b := by
  induction r with
  | nil => simp at ha
  | cons p r ih =>
    rw [List.map_cons, List.nodup_cons] at h
    rcases List.mem_cons.1 ha with rfl | ha <;> rcases List.mem_cons.1 hb with hb' | hb
    · exact (Prod.mk.inj hb').2.symm
    · exact absurd (List.mem_map_of_mem (f := (·.1)) hb) h.1
    · rw [← hb'] at h
      exact absurd (List.mem_map_of_mem (f := (·.1)) ha) h.1
    · exact ih h.2 ha hb

/-! ## The list of one record -/

/-- Adding groups to the empty list gives each gathered term the record alone. -/
theorem addAll_empty (record : Bytes) (groups : List (String × List Int)) :
    ({} : Frequencies).addAll record groups =
      ⟨(gather groups).map fun (g, os) => (g, [(record, sortedOffsets os)])⟩ := by
  simp only [addAll]
  cases gather groups with
  | nil => rfl
  | cons g gs => rfl

section OneRecord

variable (record : Bytes) (groups : List (String × List Int))

/-- The gathered group of a term, if the term has one. -/
theorem find?_byTerm_addAll (t : String) :
    (({} : Frequencies).addAll record groups).byTerm.find? (·.1 == t) =
      ((gather groups).find? (·.1 == t)).map fun (g, os) => (g, [(record, sortedOffsets os)]) := by
  rw [addAll_empty, List.find?_map]
  rfl

/-- The offsets of a term in a record of a list built from one record: those of its groups
when the record is that one, sorted, each once. -/
theorem mem_offsets_addAll_empty {t : String} {r : Bytes} {x : Int} :
    x ∈ (({} : Frequencies).addAll record groups).offsets t r ↔
      r = record ∧ ∃ os, (t, os) ∈ groups ∧ x ∈ os := by
  obtain ⟨hnodup, hterms, hoffs⟩ := gathers_gather groups
  rw [offsets, find?_byTerm_addAll]
  cases hfind : (gather groups).find? (·.1 == t) with
  | none =>
    -- the term has no group
    simp only [Option.map_none, List.not_mem_nil, false_iff, not_and, not_exists]
    intro _ os hos hx
    obtain ⟨ps, hps, _⟩ := (hoffs t x).2 ⟨os, hos, hx⟩
    have := List.find?_eq_none.1 hfind _ hps
    simp at this
  | some p =>
    obtain ⟨g, os⟩ := p
    have hg : g = t := by simpa using List.find?_some hfind
    subst hg
    have hmem := List.mem_of_find?_eq_some hfind
    simp only [Option.map_some, List.find?]
    by_cases hr : record = r
    · subst hr
      simp only [beq_self_eq_true, Option.map_some, Option.getD_some, mem_sortedOffsets, true_and]
      -- the gathered group holds every offset of the term
      constructor
      · intro hx
        exact (hoffs g x).1 ⟨os, hmem, hx⟩
      · intro hx
        obtain ⟨ps, hps, hxp⟩ := (hoffs g x).2 hx
        rwa [eq_of_nodup_terms hnodup hmem hps]
    · have : (record == r) = false := by simpa using hr
      simp [this, Ne.symm hr]

theorem pairwise_offsets_addAll_empty (t : String) (r : Bytes) :
    ((({} : Frequencies).addAll record groups).offsets t r).Pairwise (· < ·) := by
  rw [offsets, find?_byTerm_addAll]
  cases (gather groups).find? (·.1 == t) with
  | none => exact List.Pairwise.nil
  | some p =>
    simp only [Option.map_some, List.find?]
    cases record == r
    · exact List.Pairwise.nil
    · exact pairwise_sortedOffsets _

/-- The records of a term: the one record if the term has a group, none otherwise. -/
theorem records_addAll_empty (t : String) :
    (({} : Frequencies).addAll record groups).records t =
      if t ∈ groups.map (·.1) then [record] else [] := by
  obtain ⟨_, hterms, _⟩ := gathers_gather groups
  rw [records, find?_byTerm_addAll]
  cases hfind : (gather groups).find? (·.1 == t) with
  | none =>
    have hnot : t ∉ groups.map (·.1) := by
      intro ht
      obtain ⟨p, hp, hpt⟩ := List.mem_map.1 ((hterms t).2 ht)
      have := List.find?_eq_none.1 hfind p hp
      simp [hpt] at this
    simp [hnot]
  | some p =>
    have ht : t ∈ groups.map (·.1) := by
      refine (hterms t).1 (List.mem_map.2 ⟨p, List.mem_of_find?_eq_some hfind, ?_⟩)
      simpa using List.find?_some hfind
    simp [ht]

end OneRecord

end EdgeQuery.Frequencies

namespace EdgeQuery.Utf8

/-- ASCII bytes read as one character each. -/
theorem chars_of_ascii {bs : Bytes} (h : ∀ b ∈ bs, b.toNat < 128) :
    chars bs = bs.map fun b => Char.ofNat b.toNat := by
  induction bs with
  | nil => simp [chars]
  | cons b bs ih =>
    have hb : b.toNat < 128 := h b List.mem_cons_self
    rw [chars]
    simp only [decodeHead, show b.toNat < 0x80 from hb, if_true, List.drop_zero, List.map_cons]
    rw [ih fun b' hb' => h b' (List.mem_cons_of_mem _ hb')]

end EdgeQuery.Utf8

namespace EdgeQuery.Tokenizer

/-- The words of decoded text: its maximal runs of term characters, in order. -/
def words (cs : List Char) : List (List Char) :=
  (cs.splitOnP fun c => !isTermChar c).filter (!·.isEmpty)

/-- One step of building a term: the lower-cased character is added if it still fits. -/
def keepChar (maxLen : Nat) (t : Bytes) (c : Char) : Bytes :=
  let enc := Utf8.encode (Unicode.toLower c)
  if t.length + enc.length ≤ maxLen then t ++ enc else t

/-- The bytes a term keeps of a word. -/
def keep (maxLen : Nat) (w : List Char) : Bytes := w.foldl (keepChar maxLen) []

/-- The term of a word. -/
def termOf (maxLen : Nat) (w : List Char) : String := Bytes.toUtf8 (keep maxLen w)

/-- Reading the rest of a text, with the characters `acc` of an unfinished word already
read, gives one term per remaining word, the first one continuing `acc`. -/
theorem collect_eq (maxLen : Nat) (cs acc : List Char) (off : Nat) :
    collect maxLen cs (if acc.isEmpty then none else some (keep maxLen acc)) off =
      ((((cs.splitOnP fun c => !isTermChar c).modifyHead (acc ++ ·)).filter
        (!·.isEmpty)).zipIdx off).map fun (w, j) => (termOf maxLen w, j) := by
  induction cs generalizing acc off with
  | nil =>
    cases acc with
    | nil => simp [collect]
    | cons a as => simp [collect, termOf]
  | cons c cs ih =>
    have hcur : (if acc.isEmpty then none else some (keep maxLen acc)).getD [] = keep maxLen acc := by
      cases acc <;> rfl
    have hid : ∀ l : List (List Char), l.modifyHead (fun x => x) = l := fun l => by cases l <;> rfl
    rw [List.splitOnP_cons_eq_if_modifyHead]
    by_cases hc : isTermChar c
    · -- the character continues the word being read
      have hnext : (if (acc ++ [c]).isEmpty then none else some (keep maxLen (acc ++ [c]))) =
          some (keepChar maxLen (keep maxLen acc) c) := by
        simp [keep, List.foldl_append]
      have := ih (acc ++ [c]) off
      rw [hnext] at this
      simp only [collect, hc, if_true, hcur, Bool.not_true, Bool.false_eq_true, if_false,
        List.modifyHead_modifyHead]
      simpa [keepChar, Function.comp_def] using this
    · -- the character ends the word being read, if any
      have := ih [] (off + 1)
      have h0 := ih [] off
      simp only [List.isEmpty_nil, if_true, List.nil_append, hid] at this h0
      simp only [collect, hc, Bool.not_false, if_true, Bool.false_eq_true, if_false,
        List.modifyHead_cons, List.append_nil]
      cases acc with
      | nil => simpa using h0
      | cons a as => simp [this, termOf]

/-- The terms of a text are its words, numbered in order, each read as the term it keeps. -/
theorem tokens_eq (text : Bytes) (maxLen : Nat) :
    tokens text maxLen =
      ((words (Utf8.chars text)).zipIdx).map fun (w, j) =>
        (termOf (if maxLen = 0 then defaultMaxLen else maxLen) w, j) := by
  have h := collect_eq (if maxLen = 0 then defaultMaxLen else maxLen) (Utf8.chars text) [] 0
  have hid : ∀ l : List (List Char), l.modifyHead (fun x => x) = l := fun l => by cases l <;> rfl
  simpa [hid, tokens, words] using h

/-- A word whose lower-cased form fits is kept whole. -/
theorem foldl_keepChar_of_fits (maxLen : Nat) (w : List Char) (t : Bytes)
    (h : t.length + (Utf8.encodeAll (w.map Unicode.toLower)).length ≤ maxLen) :
    w.foldl (keepChar maxLen) t = t ++ Utf8.encodeAll (w.map Unicode.toLower) := by
  induction w generalizing t with
  | nil => simp [Utf8.encodeAll]
  | cons c w ih =>
    simp only [Utf8.encodeAll, List.map_cons, List.flatMap_cons, List.length_append] at h
    have hfit : t.length + (Utf8.encode (Unicode.toLower c)).length ≤ maxLen := by omega
    rw [List.foldl_cons, keepChar, if_pos hfit, ih]
    · simp [Utf8.encodeAll]
    · simp only [List.length_append, Utf8.encodeAll]
      omega

/-- A kept term is the encoding of some of the word's lower-cased characters, and fits. -/
theorem foldl_keepChar_encodes (maxLen : Nat) (w : List Char) (cs : List Char)
    (h : (Utf8.encodeAll cs).length ≤ maxLen) :
    ∃ ds, w.foldl (keepChar maxLen) (Utf8.encodeAll cs) = Utf8.encodeAll ds ∧
      (Utf8.encodeAll ds).length ≤ maxLen := by
  induction w generalizing cs with
  | nil => exact ⟨cs, rfl, h⟩
  | cons c w ih =>
    rw [List.foldl_cons, keepChar]
    split
    · have henc : Utf8.encodeAll cs ++ Utf8.encode (Unicode.toLower c) =
          Utf8.encodeAll (cs ++ [Unicode.toLower c]) := by
        simp [Utf8.encodeAll]
      rw [henc]
      apply ih
      rw [← henc, List.length_append]
      assumption
    · exact ih cs h

/-- Reading the encoding of characters gives them back. -/
theorem encodeAll_eq_ofString (cs : List Char) : Utf8.encodeAll cs = Bytes.ofString (String.ofList cs) := by
  rw [Bytes.ofString_ofList]
  rfl

theorem toUtf8_encodeAll (cs : List Char) : Bytes.toUtf8 (Utf8.encodeAll cs) = String.ofList cs := by
  rw [encodeAll_eq_ofString, Bytes.toUtf8_ofString]

/-- A word whose lower-cased encoding fits the budget is its own term, lower-cased. -/
theorem termOf_of_fits {maxLen : Nat} {w : List Char}
    (h : (Utf8.encodeAll (w.map Unicode.toLower)).length ≤ maxLen) :
    termOf maxLen w = String.ofList (w.map Unicode.toLower) := by
  rw [termOf, keep, foldl_keepChar_of_fits maxLen w [] (by simpa using h), List.nil_append,
    toUtf8_encodeAll]

/-- Every term is the text of characters whose encoding fits the budget. -/
theorem termOf_encodes (maxLen : Nat) (w : List Char) :
    ∃ cs, termOf maxLen w = String.ofList cs ∧ (Utf8.encodeAll cs).length ≤ maxLen := by
  obtain ⟨ds, hds, hlen⟩ := foldl_keepChar_encodes maxLen w [] (by simp [Utf8.encodeAll])
  have hkeep : keep maxLen w = Utf8.encodeAll ds := hds
  exact ⟨ds, by rw [termOf, hkeep, toUtf8_encodeAll], hlen⟩

/-- A list has at most as many nonempty pieces between separators as elements. -/
theorem length_filter_splitOnP_le (p : Char → Bool) (cs : List Char) :
    ((cs.splitOnP p).filter (!·.isEmpty)).length ≤ cs.length := by
  induction cs with
  | nil => simp
  | cons c cs ih =>
    rw [List.splitOnP_cons_eq_if_modifyHead]
    split
    · -- a separator starts an empty piece, which is dropped
      simp only [List.filter_cons, List.isEmpty_nil, Bool.not_true, Bool.false_eq_true, if_false,
        List.length_cons]
      omega
    · -- the character joins the first piece, which is now nonempty
      obtain ⟨h, rest, hS⟩ : ∃ h rest, cs.splitOnP p = h :: rest := by
        cases hS : cs.splitOnP p with
        | nil => exact absurd hS (List.splitOnP_ne_nil _ _)
        | cons h rest => exact ⟨h, rest, rfl⟩
      rw [hS] at ih ⊢
      simp only [List.modifyHead_cons, List.filter_cons, List.isEmpty_cons, Bool.not_false,
        if_true, List.length_cons] at ih ⊢
      -- the first piece was empty and dropped before, or already counted
      split at ih
      · simp_all
        omega
      · simp_all

/-- A text has at most as many words as characters. -/
theorem length_words_le (cs : List Char) : (words cs).length ≤ cs.length :=
  length_filter_splitOnP_le _ cs

/-! ## The list of one text -/

section OneText

variable (record text : Bytes)

/-- The tokens of a text at the default budget. -/
theorem tokens_default :
    tokens text = ((words (Utf8.chars text)).zipIdx).map fun (w, j) => (termOf defaultMaxLen w, j) := by
  rw [tokens_eq]
  simp

/-- The groups a text's tokens give: each term with the offsets of its words. -/
theorem mem_tokenGroups {t : String} {x : Int} :
    (∃ os, (t, os) ∈ (tokens text).map (fun (term, offset) => (term, [(offset : Int)])) ∧ x ∈ os) ↔
      ∃ (j : Nat) (w : List Char), (words (Utf8.chars text))[j]? = some w ∧ termOf defaultMaxLen w = t ∧ x = j := by
  rw [tokens_default]
  constructor
  · rintro ⟨os, hmem, hx⟩
    obtain ⟨⟨w, j⟩, hwj, heq⟩ := List.mem_map.1 (List.map_map ▸ hmem)
    simp only at heq
    obtain ⟨rfl, rfl⟩ := heq
    refine ⟨j, w, List.mem_zipIdx_iff_getElem?.1 hwj, rfl, by simpa using hx⟩
  · rintro ⟨j, w, hw, rfl, rfl⟩
    refine ⟨[(j : Int)], ?_, List.mem_singleton_self _⟩
    rw [List.map_map]
    exact List.mem_map.2 ⟨(w, j), List.mem_zipIdx_iff_getElem?.2 hw, rfl⟩

/-- The offsets of a term in the list of one text: the numbers of the words whose term it
is, when the record is the text's. -/
theorem mem_offsets_addFrequencies {t : String} {r : Bytes} {x : Int} :
    x ∈ (addFrequencies {} record text).offsets t r ↔
      r = record ∧ ∃ (j : Nat) (w : List Char), (words (Utf8.chars text))[j]? = some w ∧ termOf defaultMaxLen w = t ∧ x = j := by
  rw [addFrequencies, Frequencies.mem_offsets_addAll_empty, mem_tokenGroups]

/-- The records of a term in the list of one text: the text's record if some word has that
term, none otherwise. -/
theorem records_addFrequencies (t : String) :
    (addFrequencies {} record text).records t =
      if t ∈ (words (Utf8.chars text)).map (termOf defaultMaxLen) then [record] else [] := by
  have hterms : t ∈ ((tokens text).map fun (term, offset) => (term, [(offset : Int)])).map (·.1) ↔
      t ∈ (words (Utf8.chars text)).map (termOf defaultMaxLen) := by
    rw [tokens_default]
    simp only [List.map_map, List.mem_map, Function.comp_def]
    constructor
    · rintro ⟨⟨w, j⟩, hwj, rfl⟩
      exact ⟨w, List.mem_of_getElem? (List.mem_zipIdx_iff_getElem?.1 hwj), rfl⟩
    · rintro ⟨w, hw, rfl⟩
      obtain ⟨j, hj, rfl⟩ := List.getElem_of_mem hw
      exact ⟨(_, j), List.mem_zipIdx_iff_getElem?.2 (List.getElem?_eq_getElem hj), rfl⟩
  rw [addFrequencies, Frequencies.records_addAll_empty]
  by_cases ht : t ∈ (words (Utf8.chars text)).map (termOf defaultMaxLen)
  · rw [if_pos (hterms.2 ht), if_pos ht]
  · rw [if_neg (mt hterms.1 ht), if_neg ht]

theorem pairwise_offsets_addFrequencies (t : String) (r : Bytes) :
    ((addFrequencies {} record text).offsets t r).Pairwise (· < ·) :=
  Frequencies.pairwise_offsets_addAll_empty _ _ t r

end OneText

end EdgeQuery.Tokenizer
