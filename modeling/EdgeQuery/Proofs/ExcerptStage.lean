import Mathlib
import EdgeQuery.Excerpt.Transform
import EdgeQuery.Proofs.TermIndex
import EdgeQuery.Proofs.ScanUnion
import EdgeQuery.Proofs.KeyOrder
import EdgeQuery.Proofs.KeyBytes
import EdgeQuery.Proofs.PhraseIndexText
/-! # The excerpt of a record

The text of a record's field is kept in the store as term entries: one entry per term, under
the record's row and family, with the qualifier `tf 00 FIELD 00 term` and the term's sorted
offsets as value (`Excerpt.termEntries`). The excerpt transform asks for tokens `[first, stop)`
of a field by scanning the record's row and family through an `excerpt` stage, which gathers
the terms of that field at offsets in the range and writes them out in offset order, joined
by blanks.

This module shows that over a table holding the term entries of texts, the scan gives back
the text's own tokens: the lookup of a range finds exactly `excerptOf` the text, the terms
of its tokens at offsets in the range, in offset order (`Transform.lookup_termTable`). The
proof follows the data through the scan:

* the prefix range of a row and family holds exactly the keys of that row and family
  (`contains_ofPrefix_family`), so the scan reads the term entries of one record;
* a term entry reads back as its field, its term and its offsets (`parseTermKey_termKey`,
  `read_termEntry`), in a serial form of offsets that reads back lists of 64-bit numbers
  shorter than `2^32` (`OffsetsFit`);
* gathering keeps one term per offset, the term of the word there, for every offset in the
  range that has a word (`gather_agree`, `TermTable.hitsAt_iff`);
* sorted by offset, these are the tokens of the text in the range (`phrase_eq_excerptOf`). -/

namespace EdgeQuery

/-! ## Cutting at a byte and byte order -/

namespace Bytes

/-- Cutting at the first separator, when the part before it holds none, gives the parts
before and after it. -/
theorem cut_append {a b : Bytes} {sep : UInt8} (ha : sep ∉ a) :
    cut (a ++ sep :: b) sep = (a, some b) := by
  have hnone : a.findIdx? (· == sep) = none := by
    rw [List.findIdx?_eq_none_iff]
    intro x hx
    simp only [beq_eq_false_iff_ne]
    rintro rfl
    exact ha hx
  simp [cut, List.findIdx?_append, hnone, List.findIdx?_cons]

/-- Only `a` itself lies between `a` and `a ++ [0]` in byte order. -/
theorem eq_of_between_append_zero :
    ∀ {a b : Bytes}, (Ord.compare a b).isLE → Ord.compare b (a ++ [0]) = .lt → b = a
  | [], [], _, _ => rfl
  | [], x :: b, _, h => by
    -- `x :: b` is at least `[0]`
    rw [List.nil_append, List.compare_cons_cons] at h
    rcases Nat.eq_zero_or_pos x.toNat with hx | hx
    · have hx0 : x = 0 := UInt8.toNat_inj.1 hx
      subst hx0
      simp only [Std.ReflCmp.compare_self, Ordering.eq_then] at h
      cases b <;> simp at h
    · rw [compare_zero_right (fun h0 => by simp [h0] at hx)] at h
      simp at h
  | _ :: _, [], h, _ => by simp at h
  | x :: a, y :: b, h1, h2 => by
    rw [List.compare_cons_cons] at h1
    rw [List.cons_append, List.compare_cons_cons] at h2
    -- the first bytes agree, and the rest lies between `a` and `a ++ [0]`
    rcases hxy : Ord.compare x y with _ | _ | _
    · have hyx : Ord.compare y x = .gt := by
        rw [compare_uint8] at hxy ⊢
        exact Nat.compare_eq_gt.2 (Nat.compare_eq_lt.1 hxy)
      simp [hyx] at h2
    · have hyx : y = x := (Std.LawfulEqCmp.eq_of_compare hxy).symm
      subst hyx
      simp only [Ordering.eq_then, Std.ReflCmp.compare_self] at h1 h2
      rw [eq_of_between_append_zero h1 h2]
    · simp [hxy] at h1

end Bytes

/-! ## The keys of a row and family -/

namespace Store

/-- A key lies in the prefix range of a row and family exactly when it has that row and
family, for timestamps of 64 bits. -/
theorem contains_ofPrefix_family (row family : Bytes) {k : Key} (hk : k.timestamp ≤ maxTimestamp) :
    (Range.ofPrefix { row, family } (some .family)).contains k = (k.row == row && k.family == family) := by
  -- past the family, no key comes before the empty components and the newest timestamp
  have hrest : ((Ord.compare k.qualifier []).then ((Ord.compare k.visibility []).then
      (Ord.compare maxTimestamp k.timestamp))) ≠ .lt := by
    have hts : Ord.compare maxTimestamp k.timestamp ≠ .lt := fun h => by
      have := (Std.compare_eq_lt (α := Int)).1 h
      omega
    have hq : (Ord.compare k.qualifier ([] : Bytes)).isGE := List.isGE_compare_nil_right
    have hv : (Ord.compare k.visibility ([] : Bytes)).isGE := List.isGE_compare_nil_right
    rcases Ordering.isGE_iff_eq_gt_or_eq_eq.1 hq with hq | hq <;>
      rcases Ordering.isGE_iff_eq_gt_or_eq_eq.1 hv with hv | hv <;> simp [hq, hv, hts]
  simp only [Range.ofPrefix, Range.between, Range.contains, Range.beforeStart, Range.afterEnd,
    Key.start, Key.truncate, Key.following, Key.compare, Bytes.cmp, Bool.false_eq_true, if_false]
  generalize (Ord.compare k.qualifier []).then ((Ord.compare k.visibility []).then
    (Ord.compare maxTimestamp k.timestamp)) = tail at hrest ⊢
  rcases hrow : Ord.compare k.row row with _ | _ | _
  · -- a row before the range
    have hne : k.row ≠ row := fun h => by simp [h] at hrow
    simp [hne]
  · have hrow' : k.row = row := Std.LawfulEqCmp.eq_of_compare hrow
    rcases hfam : Ord.compare k.family family with _ | _ | _
    · -- a family before the range
      have hne : k.family ≠ family := fun h => by simp [h] at hfam
      simp [hne]
    · -- the row and family of the range
      have hfam' : k.family = family := Std.LawfulEqCmp.eq_of_compare hfam
      have hlt : Ord.compare family (family ++ [0]) = .lt := by
        rw [← List.append_nil family, List.append_assoc, Bytes.compare_append_left]
        rfl
      cases tail
      · exact absurd rfl hrest
      all_goals simp [hrow', hfam', hlt]
    · -- a family after the range's, which is past `family ++ [0]` as well
      have hne : k.family ≠ family := fun h => by simp [h] at hfam
      have hnlt : Ord.compare k.family (family ++ [0]) ≠ .lt := fun h => by
        have hswap : Ord.compare family k.family = (Ord.compare k.family family).swap :=
          Std.OrientedCmp.eq_swap
        have hle : (Ord.compare family k.family).isLE := by
          rw [hswap, hfam]
          rfl
        exact hne (Bytes.eq_of_between_append_zero hle h)
      rcases hf0 : Ord.compare k.family (family ++ [0]) with _ | _ | _
      · exact absurd hf0 hnlt
      · cases tail
        · exact absurd rfl hrest
        all_goals simp [hne]
      · simp [hne]
  · -- a row after the range
    have hne : k.row ≠ row := fun h => by simp [h] at hrow
    simp [hne]

end Store

/-! ## The offsets of one text -/

namespace Frequencies

/-- A term with offsets in some record is one of the list's terms. -/
theorem mem_terms_of_mem_offsets {f : Frequencies} {t : String} {r : Bytes} {x : Int}
    (hx : x ∈ f.offsets t r) : t ∈ f.terms := by
  rw [terms, List.mem_mergeSort]
  unfold offsets at hx
  cases hfind : f.byTerm.find? (·.1 == t) with
  | none => simp [hfind] at hx
  | some p =>
    have ht : p.1 = t := by simpa using List.find?_some hfind
    exact List.mem_map.2 ⟨p, List.mem_of_find?_eq_some hfind, ht⟩

end Frequencies

namespace Tokenizer

variable {record text : Bytes}

/-- An offset of a term in the list of one text is the number of one of its words, so below
the text's length in bytes. -/
theorem offsets_addFrequencies_lt {t : String} {r : Bytes} {x : Int}
    (hx : x ∈ (addFrequencies {} record text).offsets t r) : 0 ≤ x ∧ x < text.length := by
  obtain ⟨-, j, w, hw, -, rfl⟩ := (mem_offsets_addFrequencies record text).1 hx
  have hj : j < (words (Utf8.chars text)).length := (List.getElem?_eq_some_iff.1 hw).1
  have hwords := Nat.le_trans (length_words_le _) (Utf8.length_chars_le text)
  omega

/-- A term has at most as many offsets in the list of one text as the text has bytes. -/
theorem length_offsets_addFrequencies_le (t : String) (r : Bytes) :
    ((addFrequencies {} record text).offsets t r).length ≤ text.length := by
  -- the offsets are distinct numbers below the length
  have hnodup : ((addFrequencies {} record text).offsets t r).Nodup :=
    (pairwise_offsets_addFrequencies record text t r).imp Int.ne_of_lt
  have hsub : (addFrequencies {} record text).offsets t r ⊆ (List.range text.length).map Nat.cast :=
    fun x hx => by
      obtain ⟨h0, hlt⟩ := offsets_addFrequencies_lt hx
      exact List.mem_map.2 ⟨x.toNat, List.mem_range.2 (by omega), by omega⟩
  simpa using (List.subperm_of_subset hnodup hsub).length_le

end Tokenizer

/-! ## Term entries read back -/

namespace Excerpt

open Store

/-- A term entry's qualifier reads back as its field and term, for a field without zero
bytes. -/
theorem parseTermKey_termKey {field : Bytes} (hf : 0 ∉ field) (row family term : Bytes) :
    parseTermKey (termKey row family field term).qualifier = some (field, term) := by
  have hpre : termPrefix.isPrefixOf (termPrefix ++ field ++ [0] ++ term) = true := by
    rw [List.isPrefixOf_iff_prefix, List.append_assoc, List.append_assoc]
    exact List.prefix_append _ _
  have hrest : (termPrefix ++ field ++ [0] ++ term).drop termPrefix.length = field ++ 0 :: term := by
    simp
  simp only [parseTermKey, termKey, if_pos hpre, hrest, Bytes.cut_append hf]

/-- Offsets a serial form of integer lists is asked to read back: fewer than `2^32` of them,
each of 64 bits. -/
def OffsetsFit (offs : List Int) : Prop :=
  offs.length < 4294967296 ∧ ∀ x ∈ offs, -Int.pow 2 63 ≤ x ∧ x < Int.pow 2 63

/-- The sorted offsets of a term in a text shorter than `2^32` bytes fit. -/
theorem offsetsFit_addFrequencies {record text : Bytes} (hshort : text.length < 4294967296)
    (t : String) : OffsetsFit (((Tokenizer.addFrequencies {} record text).offsets t record).mergeSort (· ≤ ·)) := by
  refine ⟨?_, fun x hx => ?_⟩
  · have := @Tokenizer.length_offsets_addFrequencies_le record text t record
    rw [List.length_mergeSort]
    omega
  · have hbound := Tokenizer.offsets_addFrequencies_lt (List.mem_mergeSort.1 hx)
    have h63 : Int.pow 2 63 = 9223372036854775808 := by decide
    omega

/-- The value of a term entry of a text shorter than `2^32` bytes reads back as the term's
offsets, sorted, in a serial form that reads back the offsets that fit. -/
theorem read_termEntry {S : Serial (List Int)} (hS : ∀ offs, OffsetsFit offs → S.ReadsBack offs)
    {record text : Bytes} (hshort : text.length < 4294967296) (row family field term : Bytes) (t : String) :
    S.read (termEntry S row family field term
        ((Tokenizer.addFrequencies {} record text).offsets t record)).value =
      .ok (((Tokenizer.addFrequencies {} record text).offsets t record).mergeSort (· ≤ ·)) :=
  hS _ (offsetsFit_addFrequencies hshort t)

/-! ## Gathering the terms of a range -/

section Gather

variable (S : Serial (List Int)) (o : StageOptions) (termAt : Int → Option Bytes)

/-- Gathered tokens that agree with `termAt`: one per offset, each the term `termAt` gives
there. -/
structure Agree (tokens : List (Int × Bytes)) : Prop where
  nodup : (tokens.map (·.1)).Nodup
  term : ∀ tok ∈ tokens, termAt tok.1 = some tok.2

/-- An entry of the field `o.field` that has the offset `j`, in the range of `o`. -/
def HitsAt (e : Entry) (j : Int) : Prop :=
  ∃ term offs, parseTermKey e.key.qualifier = some (Bytes.ofString o.field, term) ∧
    S.read e.value = .ok offs ∧ j ∈ offs ∧ o.first ≤ j ∧ j < o.stop

/-- Entries of the field `o.field` name, at every offset of the range they have, the term
`termAt` gives there. -/
def Consistent (es : List Entry) : Prop :=
  ∀ e ∈ es, ∀ term offs, parseTermKey e.key.qualifier = some (Bytes.ofString o.field, term) →
    S.read e.value = .ok offs → ∀ j ∈ offs, o.first ≤ j → j < o.stop → termAt j = some term

variable {S o termAt}

/-- Setting a term that agrees keeps the tokens agreeing, and adds its offset. -/
theorem Agree.setToken {tokens : List (Int × Bytes)} (h : Agree termAt tokens) {off : Int}
    {term : Bytes} (hoff : termAt off = some term) :
    Agree termAt (setToken tokens off term) ∧
      ∀ j, j ∈ (setToken tokens off term).map (·.1) ↔ j = off ∨ j ∈ tokens.map (·.1) := by
  have hmem : ∀ j, j ∈ (tokens.filter (·.1 != off)).map (·.1) ↔ j ∈ tokens.map (·.1) ∧ j ≠ off := by
    intro j
    simp only [List.mem_map, List.mem_filter, bne_iff_ne, ne_eq]
    constructor
    · rintro ⟨tok, ⟨htok, hne⟩, rfl⟩
      exact ⟨⟨tok, htok, rfl⟩, hne⟩
    · rintro ⟨⟨tok, htok, rfl⟩, hne⟩
      exact ⟨tok, ⟨htok, hne⟩, rfl⟩
  refine ⟨⟨?_, ?_⟩, ?_⟩
  · -- the offsets kept are distinct and none of them is `off`
    rw [Excerpt.setToken, List.map_append, List.nodup_append]
    refine ⟨(List.filter_sublist.map _).nodup h.nodup, by simp, ?_⟩
    intro a ha b hb
    rw [List.mem_singleton.1 hb]
    exact ((hmem a).1 ha).2
  · intro tok htok
    rcases List.mem_append.1 htok with htok | htok
    · exact h.term tok (List.mem_filter.1 htok).1
    · rw [List.mem_singleton.1 htok]
      exact hoff
  · intro j
    rw [Excerpt.setToken, List.map_append, List.mem_append, hmem]
    by_cases hj : j = off <;> simp [hj]

/-- The offsets of one entry, those in the range set one by one. -/
theorem Agree.foldl_setToken {term : Bytes} :
    ∀ (offs : List Int) {tokens : List (Int × Bytes)}, Agree termAt tokens →
      (∀ j ∈ offs, o.first ≤ j → j < o.stop → termAt j = some term) →
      Agree termAt (offs.foldl (fun ts off =>
          if o.first ≤ off && off < o.stop then Excerpt.setToken ts off term else ts) tokens) ∧
        ∀ j, j ∈ (offs.foldl (fun ts off =>
            if o.first ≤ off && off < o.stop then Excerpt.setToken ts off term else ts) tokens).map (·.1) ↔
          j ∈ tokens.map (·.1) ∨ (j ∈ offs ∧ o.first ≤ j ∧ j < o.stop)
  | [], tokens, h, _ => ⟨h, fun j => by simp⟩
  | off :: offs, tokens, h, hterm => by
    have hrest : ∀ j ∈ offs, o.first ≤ j → j < o.stop → termAt j = some term :=
      fun j hj => hterm j (List.mem_cons_of_mem off hj)
    rw [List.foldl_cons]
    by_cases hin : o.first ≤ off ∧ off < o.stop
    · -- an offset in the range is set first, then the rest
      have hset := h.setToken (hterm off List.mem_cons_self hin.1 hin.2)
      rw [if_pos (by simpa using hin)]
      obtain ⟨hagree, hoffs⟩ := Agree.foldl_setToken offs hset.1 hrest
      refine ⟨hagree, fun j => ?_⟩
      rw [hoffs, hset.2]
      constructor
      · rintro ((rfl | hj) | ⟨hj, hr⟩)
        · exact Or.inr ⟨List.mem_cons_self, hin⟩
        · exact Or.inl hj
        · exact Or.inr ⟨List.mem_cons_of_mem off hj, hr⟩
      · rintro (hj | ⟨hj, hr⟩)
        · exact Or.inl (Or.inr hj)
        · rcases List.mem_cons.1 hj with rfl | hj
          · exact Or.inl (Or.inl rfl)
          · exact Or.inr ⟨hj, hr⟩
    · -- an offset outside the range is passed over
      rw [if_neg (by simpa using hin)]
      obtain ⟨hagree, hoffs⟩ := Agree.foldl_setToken offs h hrest
      refine ⟨hagree, fun j => ?_⟩
      rw [hoffs]
      constructor
      · rintro (hj | ⟨hj, hr⟩)
        · exact Or.inl hj
        · exact Or.inr ⟨List.mem_cons_of_mem off hj, hr⟩
      · rintro (hj | ⟨hj, hr⟩)
        · exact Or.inl hj
        · rcases List.mem_cons.1 hj with rfl | hj
          · exact absurd hr hin
          · exact Or.inr ⟨hj, hr⟩

/-- What gathering from an entry the stage passes over leaves: what gathering the rest
gives. -/
theorem gather_skip {e : Entry} {es : List Entry} {tokens : List (Int × Bytes)} {first : Option Key}
    (hnot : ∀ j, ¬ HitsAt S o e j)
    (ih : Agree termAt (gather S o es (tokens, first)).1 ∧
      (∀ j, j ∈ (gather S o es (tokens, first)).1.map (·.1) ↔
        j ∈ tokens.map (·.1) ∨ ∃ e' ∈ es, HitsAt S o e' j) ∧
      ((gather S o es (tokens, first)).1 ≠ [] → (gather S o es (tokens, first)).2.isSome)) :
    Agree termAt (gather S o es (tokens, first)).1 ∧
      (∀ j, j ∈ (gather S o es (tokens, first)).1.map (·.1) ↔
        j ∈ tokens.map (·.1) ∨ ∃ e' ∈ e :: es, HitsAt S o e' j) ∧
      ((gather S o es (tokens, first)).1 ≠ [] → (gather S o es (tokens, first)).2.isSome) := by
  refine ⟨ih.1, fun j => ?_, ih.2.2⟩
  rw [ih.2.1 j, List.exists_mem_cons_iff, eq_false (hnot j), false_or]

/-- Gathering over entries that agree with `termAt` keeps one term per offset, the term
`termAt` gives, for exactly the offsets of the range that some entry of the field has; and
whenever a term is gathered, so is the key of an entry of the field. -/
theorem gather_agree : ∀ (es : List Entry) {tokens : List (Int × Bytes)} {first : Option Key},
    Consistent S o termAt es → Agree termAt tokens → (tokens ≠ [] → first.isSome) →
    Agree termAt (gather S o es (tokens, first)).1 ∧
      (∀ j, j ∈ (gather S o es (tokens, first)).1.map (·.1) ↔
        j ∈ tokens.map (·.1) ∨ ∃ e ∈ es, HitsAt S o e j) ∧
      ((gather S o es (tokens, first)).1 ≠ [] → (gather S o es (tokens, first)).2.isSome)
  | [], _, _, _, h, hfirst => ⟨h, fun j => by simp [gather], hfirst⟩
  | e :: es, tokens, first, hcons, h, hfirst => by
    have hcons' : Consistent S o termAt es := fun e' he' => hcons e' (List.mem_cons_of_mem e he')
    rw [gather]
    split
    · next field term hparse =>
      split
      · -- an entry of another field
        rename_i hfield
        refine gather_skip (fun j ⟨term', offs', hp, _⟩ => ?_) (gather_agree es hcons' h hfirst)
        rw [hparse, Option.some.injEq, Prod.mk.injEq] at hp
        simp [hp.1] at hfield
      · rename_i hfield
        have hfield' : field = Bytes.ofString o.field := by simpa using hfield
        subst hfield'
        split
        · -- offsets that do not read
          rename_i err hread
          refine gather_skip (fun j ⟨term', offs', _, hr, _⟩ => ?_) (gather_agree es hcons' h hfirst)
          rw [hread] at hr
          cases hr
        · -- the entry's offsets in the range are gathered
          rename_i offs hread
          have hterm : ∀ j ∈ offs, o.first ≤ j → j < o.stop → termAt j = some term :=
            hcons e List.mem_cons_self term offs hparse hread
          obtain ⟨hagree, hoffs⟩ := Agree.foldl_setToken offs h hterm
          have hsome : (first <|> some e.key).isSome := by cases first <;> rfl
          obtain ⟨hagree', hoffs', hfirst'⟩ := gather_agree es hcons' hagree (fun _ => hsome)
          refine ⟨hagree', fun j => ?_, hfirst'⟩
          -- the offsets an entry of the field hits are its own offsets in the range
          have hhits : HitsAt S o e j ↔ j ∈ offs ∧ o.first ≤ j ∧ j < o.stop := by
            constructor
            · rintro ⟨term', offs', hp, hr, hj⟩
              rw [hread, Except.ok.injEq] at hr
              subst hr
              exact hj
            · intro hj
              exact ⟨term, offs, hparse, hread, hj⟩
          rw [hoffs', hoffs, List.exists_mem_cons_iff, hhits, or_assoc]
    · -- an entry that is no term entry
      rename_i hparse
      refine gather_skip (fun j ⟨term', offs', hp, _⟩ => ?_) (gather_agree es hcons' h hfirst)
      rw [hparse] at hp
      cases hp

end Gather

/-! ## The tokens of a range -/

/-- The term stored for the word at an offset of a text, if a word is there. -/
def termAt (text : Bytes) (j : Int) : Option Bytes :=
  if 0 ≤ j then
    ((Tokenizer.words (Utf8.chars text))[j.toNat]?).map fun w =>
      Bytes.ofString (Tokenizer.termOf Tokenizer.defaultMaxLen w)
  else none

/-- The tokens of a text at offsets in `[first, stop)`, in offset order. -/
def tokensIn (text : Bytes) (first stop : Int) : List (String × Nat) :=
  (Tokenizer.tokens text).filter fun tok => first ≤ (tok.2 : Int) && (tok.2 : Int) < stop

/-- The excerpt of tokens `[first, stop)` of a text: their terms in offset order, joined by
single blanks. -/
def excerptOf (text : Bytes) (first stop : Int) : Bytes :=
  Bytes.joinWith [32] ((tokensIn text first stop).map fun tok => Bytes.ofString tok.1)

example : excerptOf (Bytes.ofString "Hello, big World!") 1 5 = Bytes.ofString "big world" := by
  decide +kernel

/-- A token as the stage gathers it: its offset and the bytes of its term. -/
def offsetTerm (tok : String × Nat) : Int × Bytes := ((tok.2 : Int), Bytes.ofString tok.1)

theorem mem_offsetTerm_tokensIn {text : Bytes} {first stop j : Int} {b : Bytes} :
    (j, b) ∈ (tokensIn text first stop).map offsetTerm ↔ termAt text j = some b ∧ first ≤ j ∧ j < stop := by
  rw [tokensIn, Tokenizer.tokens_default]
  simp only [List.mem_map, List.mem_filter, Bool.and_eq_true, decide_eq_true_eq]
  constructor
  · rintro ⟨tok, ⟨⟨⟨w, k⟩, hwk, rfl⟩, h1, h2⟩, heq⟩
    simp only [offsetTerm, Prod.mk.injEq] at heq
    obtain ⟨rfl, rfl⟩ := heq
    refine ⟨?_, h1, h2⟩
    rw [termAt, if_pos (Int.natCast_nonneg k), Int.toNat_natCast, List.mem_zipIdx_iff_getElem?.1 hwk]
    rfl
  · rintro ⟨hterm, h1, h2⟩
    unfold termAt at hterm
    split at hterm
    · rename_i hj
      obtain ⟨w, hw, rfl⟩ := Option.map_eq_some_iff.1 hterm
      have hcast : ((j.toNat : Nat) : Int) = j := Int.toNat_of_nonneg hj
      refine ⟨(Tokenizer.termOf Tokenizer.defaultMaxLen w, j.toNat),
        ⟨⟨(w, j.toNat), List.mem_zipIdx_iff_getElem?.2 hw, rfl⟩, ?_⟩, ?_⟩
      · simp only [hcast]
        exact ⟨h1, h2⟩
      · simp [offsetTerm, hcast]
    · cases hterm

/-- The tokens of a text come in strictly increasing offset order. -/
theorem pairwise_offsetTerm_tokensIn (text : Bytes) (first stop : Int) :
    ((tokensIn text first stop).map offsetTerm).Pairwise fun a b => a.1 < b.1 := by
  have hidx : (Tokenizer.tokens text).Pairwise fun a b => a.2 < b.2 := by
    have h := List.pairwise_lt_range' (s := 0) (n := (Tokenizer.words (Utf8.chars text)).length)
    rw [← List.zipIdx_map_snd 0, List.pairwise_map] at h
    rw [Tokenizer.tokens_default, List.pairwise_map]
    exact h
  refine List.pairwise_map.2 ((hidx.filter _).imp fun h => ?_)
  simp only [offsetTerm]
  exact_mod_cast h

variable {text : Bytes} {first stop : Int} {tokens : List (Int × Bytes)}

/-- Gathered tokens that agree with the text, at exactly the offsets of the range that have
a word, sorted by offset, are the text's tokens of the range. -/
theorem mergeSort_eq_tokensIn (h : Agree (termAt text) tokens)
    (hoffs : ∀ j, j ∈ tokens.map (·.1) ↔ (termAt text j).isSome ∧ first ≤ j ∧ j < stop) :
    (tokens.mergeSort fun a b => a.1 ≤ b.1) = (tokensIn text first stop).map offsetTerm := by
  have : Std.Irrefl fun a b : Int × Bytes => a.1 < b.1 := ⟨fun a => Int.lt_irrefl a.1⟩
  have : Std.Antisymm fun a b : Int × Bytes => a.1 < b.1 :=
    ⟨fun _ _ hab hba => absurd (Int.lt_trans hab hba) (Int.lt_irrefl _)⟩
  have hperm := List.mergeSort_perm tokens fun a b => decide (a.1 ≤ b.1)
  -- sorted by offset, and no offset twice: strictly increasing
  have hsorted : (tokens.mergeSort fun a b => a.1 ≤ b.1).Pairwise fun a b => a.1 < b.1 := by
    have hle := @List.pairwise_mergeSort _ (fun a b : Int × Bytes => decide (a.1 ≤ b.1))
      (fun a b c hab hbc => by simp only [decide_eq_true_eq] at *; omega)
      (fun a b => by simp only [Bool.or_eq_true, decide_eq_true_eq]; omega) tokens
    have hne := List.pairwise_map.1 ((hperm.map (·.1)).nodup_iff.2 h.nodup)
    exact (hle.and hne).imp fun ⟨hab, hne⟩ => by simp only [decide_eq_true_eq] at hab; omega
  refine List.Pairwise.eq_of_mem_iff hsorted (pairwise_offsetTerm_tokensIn text first stop) ?_
  rintro ⟨j, b⟩
  rw [hperm.mem_iff, mem_offsetTerm_tokensIn]
  constructor
  · intro hmem
    have hj := (hoffs j).1 (List.mem_map_of_mem (f := (·.1)) hmem)
    exact ⟨h.term _ hmem, hj.2⟩
  · rintro ⟨hterm, hrange⟩
    obtain ⟨tok, htok, rfl⟩ := List.mem_map.1 ((hoffs j).2 ⟨by simp [hterm], hrange⟩)
    have htok' := h.term tok htok
    rw [hterm, Option.some.injEq] at htok'
    rw [htok']
    exact htok

/-- The phrase of such tokens is the excerpt of the range. -/
theorem phrase_eq_excerptOf (h : Agree (termAt text) tokens)
    (hoffs : ∀ j, j ∈ tokens.map (·.1) ↔ (termAt text j).isSome ∧ first ≤ j ∧ j < stop) :
    phrase tokens = excerptOf text first stop := by
  rw [phrase, excerptOf, mergeSort_eq_tokensIn h hoffs, List.map_map]
  rfl

/-- Such tokens are none exactly when the range holds no token. -/
theorem eq_nil_iff_tokensIn (h : Agree (termAt text) tokens)
    (hoffs : ∀ j, j ∈ tokens.map (·.1) ↔ (termAt text j).isSome ∧ first ≤ j ∧ j < stop) :
    tokens = [] ↔ tokensIn text first stop = [] := by
  have hlen := congrArg List.length (mergeSort_eq_tokensIn h hoffs)
  rw [List.length_mergeSort, List.length_map] at hlen
  rw [← List.length_eq_zero_iff, hlen, List.length_eq_zero_iff]

/-! ## Tables of term entries -/

/-- The offsets of a term in the text of a field of a record. -/
def textOffsets (text : Bytes → Bytes → Bytes) (rid field : Bytes) (term : String) : List Int :=
  (Tokenizer.addFrequencies {} rid (text rid field)).offsets term rid

/-- The term entries of a record `row 00 family`, for a row without zero bytes: one for each
term with offsets there. -/
theorem mem_termEntries {S : Serial (List Int)} {row family field : Bytes} (hrow : 0 ∉ row) {f : Frequencies} {e : Entry} :
    (∃ es, termEntries S (row ++ 0 :: family) field f = .ok es ∧ e ∈ es) ↔
      ∃ term ∈ f.terms, f.offsets term (row ++ 0 :: family) ≠ [] ∧
        e = termEntry S row family field (Bytes.ofString term) (f.offsets term (row ++ 0 :: family)) := by
  simp only [termEntries, Bytes.cut_append hrow, Except.ok.injEq, exists_eq_left', List.mem_filterMap]
  refine exists_congr fun term => and_congr_right fun _ => ?_
  by_cases hempty : f.offsets term (row ++ 0 :: family) = []
  · simp [hempty]
  · have hne : (f.offsets term (row ++ 0 :: family)).isEmpty = false := by simpa using hempty
    simp only [hne, Bool.false_eq_true, if_false, Option.some.injEq]
    exact ⟨fun h => ⟨hempty, h.symm⟩, fun h => h.2.symm⟩

/-- A table of the term entries of texts, in key order: for every record `row 00 family`
whose row has no zero byte and every field without zero bytes, exactly the entries
`termEntries` gives for the field's text there, offsets written in `S`. Texts are shorter
than `2^32` bytes, so the offsets of a term fit (`offsetsFit_addFrequencies`). -/
structure TermTable (S : Serial (List Int)) (t : Table) (text : Bytes → Bytes → Bytes) : Prop where
  ordered : t.Ordered
  entries : ∀ e, e ∈ t.entries ↔ ∃ row family field, 0 ∉ row ∧ 0 ∉ field ∧
    ∃ es, termEntries S (row ++ 0 :: family) field
      (Tokenizer.addFrequencies {} (row ++ 0 :: family) (text (row ++ 0 :: family) field)) = .ok es ∧ e ∈ es
  short : ∀ rid field, (text rid field).length < 4294967296

namespace TermTable

variable {S : Serial (List Int)} {t : Table} {text : Bytes → Bytes → Bytes}

/-- The entries of a term table, one per record, field and term with offsets. -/
theorem mem_entries (ht : TermTable S t text) {e : Entry} :
    e ∈ t.entries ↔ ∃ row family field term, 0 ∉ row ∧ 0 ∉ field ∧
      textOffsets text (row ++ 0 :: family) field term ≠ [] ∧
      e = termEntry S row family field (Bytes.ofString term) (textOffsets text (row ++ 0 :: family) field term) := by
  rw [ht.entries]
  constructor
  · rintro ⟨row, family, field, hrow, hfield, hes⟩
    obtain ⟨term, -, hne, rfl⟩ := (mem_termEntries hrow).1 hes
    exact ⟨row, family, field, term, hrow, hfield, hne, rfl⟩
  · rintro ⟨row, family, field, term, hrow, hfield, hne, rfl⟩
    refine ⟨row, family, field, hrow, hfield, (mem_termEntries hrow).2 ⟨term, ?_, hne, rfl⟩⟩
    obtain ⟨x, hx⟩ := List.exists_mem_of_ne_nil _ hne
    exact Frequencies.mem_terms_of_mem_offsets hx

theorem timestamp_eq_zero (ht : TermTable S t text) {e : Entry} (he : e ∈ t.entries) : e.key.timestamp = 0 := by
  obtain ⟨row, family, field, term, -, -, -, rfl⟩ := ht.mem_entries.1 he
  rfl

/-- An entry of the table names, at each of its offsets, the term of the word there. -/
theorem termAt_of_mem (hS : ∀ offs, OffsetsFit offs → S.ReadsBack offs) (ht : TermTable S t text) {e : Entry}
    (he : e ∈ t.entries) {field term : Bytes} {offs : List Int}
    (hparse : parseTermKey e.key.qualifier = some (field, term)) (hread : S.read e.value = .ok offs) {j : Int} (hj : j ∈ offs) :
    termAt (text (e.key.row ++ 0 :: e.key.family) field) j = some term := by
  obtain ⟨row, family, field', t', hrow, hfield', -, rfl⟩ := ht.mem_entries.1 he
  -- the entry's key names its field and term, and its value its offsets
  have hkey := parseTermKey_termKey hfield' row family (Bytes.ofString t')
  rw [termEntry, hkey, Option.some.injEq, Prod.mk.injEq] at hparse
  obtain ⟨rfl, rfl⟩ := hparse
  rw [textOffsets, read_termEntry hS (ht.short _ _), Except.ok.injEq] at hread
  subst hread
  obtain ⟨-, k, w, hw, hterm, rfl⟩ := (Tokenizer.mem_offsets_addFrequencies _ _).1 (List.mem_mergeSort.1 hj)
  show termAt (text (row ++ 0 :: family) field') k = _
  rw [termAt, if_pos (Int.natCast_nonneg k), Int.toNat_natCast, hw, Option.map_some, hterm]

/-- The word at an offset of a text has the entry of its term in the table, which holds the
offset. -/
theorem exists_of_termAt (hS : ∀ offs, OffsetsFit offs → S.ReadsBack offs) (ht : TermTable S t text)
    {row family field : Bytes} (hrow : 0 ∉ row) (hfield : 0 ∉ field) {j : Int} {b : Bytes} (hj : termAt (text (row ++ 0 :: family) field) j = some b) :
    ∃ e ∈ t.entries, e.key.row = row ∧ e.key.family = family ∧ ∃ offs,
      parseTermKey e.key.qualifier = some (field, b) ∧ S.read e.value = .ok offs ∧ j ∈ offs := by
  unfold termAt at hj
  split at hj
  · rename_i hj0
    obtain ⟨w, hw, rfl⟩ := Option.map_eq_some_iff.1 hj
    -- the word's term has the offset `j`
    have hmem : j ∈ textOffsets text (row ++ 0 :: family) field (Tokenizer.termOf Tokenizer.defaultMaxLen w) :=
      (Tokenizer.mem_offsets_addFrequencies _ _).2 ⟨rfl, j.toNat, w, hw, rfl, (Int.toNat_of_nonneg hj0).symm⟩
    refine ⟨_, ht.mem_entries.2 ⟨row, family, field, _, hrow, hfield, List.ne_nil_of_mem hmem, rfl⟩,
      rfl, rfl, _, parseTermKey_termKey hfield _ _ _, read_termEntry hS (ht.short _ _) _ _ _ _ _,
      List.mem_mergeSort.2 hmem⟩
  · cases hj

/-- The entries of one record in a term table agree with its text. -/
theorem consistent (hS : ∀ offs, OffsetsFit offs → S.ReadsBack offs) (ht : TermTable S t text) (o : StageOptions)
    (row family : Bytes) :
    Consistent S o (termAt (text (row ++ 0 :: family) (Bytes.ofString o.field)))
      (t.entries.filter fun e => e.key.row == row && e.key.family == family) := by
  intro e he term offs hparse hread j hj _ _
  obtain ⟨he, hkey⟩ := List.mem_filter.1 he
  simp only [Bool.and_eq_true, beq_iff_eq] at hkey
  rw [← hkey.1, ← hkey.2]
  exact ht.termAt_of_mem hS he hparse hread hj

/-- The entries of one record in a term table hit exactly the offsets of the range that have
a word, for a field without zero bytes. -/
theorem hitsAt_iff (hS : ∀ offs, OffsetsFit offs → S.ReadsBack offs) (ht : TermTable S t text) {o : StageOptions}
    {row family : Bytes} (hrow : 0 ∉ row) (hfield : 0 ∉ Bytes.ofString o.field) (j : Int) :
    (∃ e ∈ t.entries.filter (fun e => e.key.row == row && e.key.family == family), HitsAt S o e j) ↔
      (termAt (text (row ++ 0 :: family) (Bytes.ofString o.field)) j).isSome ∧ o.first ≤ j ∧ j < o.stop := by
  constructor
  · rintro ⟨e, he, term, offs, hparse, hread, hj, hrange⟩
    rw [ht.consistent hS o row family e he term offs hparse hread j hj hrange.1 hrange.2]
    exact ⟨rfl, hrange⟩
  · rintro ⟨hsome, hrange⟩
    obtain ⟨b, hb⟩ := Option.isSome_iff_exists.1 hsome
    obtain ⟨e, he, hr, hf, offs, hparse, hread, hj⟩ := ht.exists_of_termAt hS hrow hfield hb
    exact ⟨e, List.mem_filter.2 ⟨he, by simp [hr, hf]⟩, b, offs, hparse, hread, hj, hrange⟩

/-- The term entries of the text of one field of one record, in key order, make a term table
in which no other field or record has a text. -/
theorem single {row family field T : Bytes} (hrow : 0 ∉ row) (hfield : 0 ∉ field)
    (hT : T.length < 4294967296) {es : List Entry}
    (hes : termEntries S (row ++ 0 :: family) field (Tokenizer.addFrequencies {} (row ++ 0 :: family) T) = .ok es)
    (hord : es.Pairwise fun a b => a.key < b.key) :
    TermTable S ⟨es⟩ fun rid f => if rid = row ++ 0 :: family ∧ f = field then T else [] := by
  refine ⟨hord, fun e => ?_, fun rid f => ?_⟩
  · constructor
    · intro he
      refine ⟨row, family, field, hrow, hfield, es, ?_, he⟩
      rw [if_pos ⟨rfl, rfl⟩]
      exact hes
    · rintro ⟨row', family', field', hrow', hfield', es', hes', he'⟩
      by_cases hsame : row' ++ 0 :: family' = row ++ 0 :: family ∧ field' = field
      · -- the record's id gives back its row and family
        obtain ⟨hrid, rfl⟩ := hsame
        have hcut := Bytes.cut_append hrow' (b := family')
        rw [hrid, Bytes.cut_append hrow, Prod.mk.injEq, Option.some.injEq] at hcut
        obtain ⟨rfl, rfl⟩ := hcut
        rw [if_pos ⟨rfl, rfl⟩, hes, Except.ok.injEq] at hes'
        exact hes' ▸ he'
      · -- no other record or field has a text, so none has term entries
        rw [if_neg hsame] at hes'
        obtain ⟨term, -, hne, -⟩ := (mem_termEntries hrow').1 ⟨es', hes', he'⟩
        obtain ⟨x, hx⟩ := List.exists_mem_of_ne_nil _ hne
        obtain ⟨-, j, w, hw, -⟩ := (Tokenizer.mem_offsets_addFrequencies _ _).1 hx
        simp [Tokenizer.words, Utf8.chars] at hw
  · split
    · exact hT
    · simp

end TermTable

/-! ## The lookup of an excerpt -/

/-- The options of the stage a lookup asks for read back, for a field name that is not
empty and a range of offsets in `[0, 2^63)`. -/
theorem ofStage_excerpt {prio : Int} {name field : String} {first stop : Int} (hfield : field ≠ "")
    (h0 : 0 ≤ first) (hlt : first < stop) (hstop : stop < Int.pow 2 63) :
    StageOptions.ofStage
        { priority := prio, name := name, kind := "excerpt"
          options := [("field", field), ("start", toString first), ("end", toString stop)] } =
      .ok ⟨field, first, stop⟩ := by
  have hfirst : Read.atoi first.repr = .ok first := Read.atoi_toString h0 (by omega)
  have hstop' : Read.atoi stop.repr = .ok stop := Read.atoi_toString (by omega) hstop
  have hrange : ¬ first < 0 ∧ ¬ stop < 0 ∧ ¬ stop ≤ first := by omega
  simp [StageOptions.ofStage, Stage.option?, offsetOption, hfirst, hstop', hfield, hrange, bind,
    Except.bind, pure, Except.pure]

/-- A registry where the `excerpt` stage kind is built by the excerpt filter reading offsets
in the serial form `S`. -/
def Registered (S : Serial (List Int)) (reg : Registry) : Prop :=
  ∃ kind, reg.builders.find? (·.1 == "excerpt") = some (kind, excerptFilter S)

theorem registered_registerStage (S : Serial (List Int)) (r : Registry) :
    Registered S (registerStage S r) := by
  refine ⟨"excerpt", ?_⟩
  have hnone : (r.builders.filter (·.1 != "excerpt")).find? (·.1 == "excerpt") = none := by
    rw [List.find?_eq_none]
    intro x hx
    simpa using (List.mem_filter.1 hx).2
  rw [registerStage, Registry.register, List.find?_append, hnone]
  rfl

/-- The scan of a lookup selects the entries of the record's row and family. -/
theorem Transform.selects_request (t : Transform) (field : String) (row family : Bytes) (first stop : Int)
    {e : Entry} (hts : e.key.timestamp ≤ maxTimestamp) :
    (t.request field row family first stop).selects e = (e.key.row == row && e.key.family == family) := by
  simp [Request.selects, Transform.request, Store.contains_ofPrefix_family row family hts]

/-- A lookup reads the excerpt the stage gathers from the entries its scan selects. -/
theorem Transform.lookup_of_gather {S : Serial (List Int)} {t : Transform} (hord : t.table.Ordered)
    (hreg : Registered S t.registry)
    {field : String} (hfield : field ≠ "") (hf0 : 0 ∉ Bytes.ofString field) {row : Bytes} (hrow : 0 ∉ row)
    (family : Bytes) {first stop : Int} (h0 : 0 ≤ first) (hlt : first < stop) (hstop : stop < Int.pow 2 63)
    {tokens : List (Int × Bytes)} {key : Option Key}
    (hg : gather S ⟨field, first, stop⟩ (t.table.entries.filter (t.request field row family first stop).selects)
      ([], none) = (tokens, key))
    (hkey : tokens ≠ [] → key.isSome) :
    t.lookup field (row ++ 0 :: family) first stop = .ok (if tokens = [] then none else some (phrase tokens), []) := by
  obtain ⟨kind, hfind⟩ := hreg
  have hstages : (t.request field row family first stop).stages =
      [{ priority := t.priority, name := "excerpt", kind := "excerpt"
         options := [("field", field), ("start", toString first), ("end", toString stop)] }] := rfl
  have hopts := @ofStage_excerpt t.priority "excerpt" field first stop hfield h0 hlt hstop
  simp only [Transform.lookup, Bytes.cut_append hrow, Table.scan, Registry.build, hstages,
    Stage.runOrder, List.mergeSort_singleton, List.mapM_cons, List.mapM_nil, hfind, excerptFilter, hopts, Table.readRequest_eq_filter hord,
    bind, Except.bind, pure, Except.pure, Except.mapError, Filter.chain, List.foldl_cons, List.foldl_nil, hg]
  rcases tokens with _ | ⟨tok, rest⟩
  · rfl
  · -- gathered terms come with the key of an entry of the field
    obtain ⟨k, rfl⟩ := Option.isSome_iff_exists.1 (hkey (List.cons_ne_nil tok rest))
    have hq : phraseQualifier (Bytes.ofString field) (phrase (tok :: rest)) =
        Bytes.ofString field ++ 0 :: phrase (tok :: rest) := by
      simp [phraseQualifier]
    simp only [hq, Bytes.cut_append hf0, beq_self_eq_true, if_true, reduceCtorEq, if_false]

/-- Over a table of the term entries of texts, the lookup of tokens `[first, stop)` of a
field of a record finds the excerpt of the field's text there, or nothing when no token lies
in the range, and warns of nothing. -/
theorem Transform.lookup_termTable {S : Serial (List Int)} (hS : ∀ offs, OffsetsFit offs → S.ReadsBack offs)
    {t : Transform} {text : Bytes → Bytes → Bytes} (ht : TermTable S t.table text)
    (hreg : Registered S t.registry) {field : String} (hfield : field ≠ "") (hf0 : 0 ∉ Bytes.ofString field)
    {row : Bytes} (hrow : 0 ∉ row) (family : Bytes) {first stop : Int} (h0 : 0 ≤ first) (hlt : first < stop)
    (hstop : stop < Int.pow 2 63) :
    t.lookup field (row ++ 0 :: family) first stop =
      .ok (if tokensIn (text (row ++ 0 :: family) (Bytes.ofString field)) first stop = [] then none
        else some (excerptOf (text (row ++ 0 :: family) (Bytes.ofString field)) first stop), []) := by
  -- the scan reads the entries of the record's row and family, all of timestamp zero
  have hsel : t.table.entries.filter (t.request field row family first stop).selects =
      t.table.entries.filter fun e => e.key.row == row && e.key.family == family := by
    refine List.filter_congr fun e he => Transform.selects_request t field row family first stop ?_
    rw [ht.timestamp_eq_zero he]
    decide
  have hgather := @gather_agree S ⟨field, first, stop⟩ (termAt (text (row ++ 0 :: family) (Bytes.ofString field)))
    (t.table.entries.filter fun e => e.key.row == row && e.key.family == family) [] none
    (ht.consistent hS ⟨field, first, stop⟩ row family) ⟨List.nodup_nil, by simp⟩ (by simp)
  rcases hg : gather S ⟨field, first, stop⟩
    (t.table.entries.filter fun e => e.key.row == row && e.key.family == family) ([], none) with ⟨tokens, key⟩
  rw [hg] at hgather
  obtain ⟨hagree, hoffs, hkey⟩ := hgather
  -- the gathered offsets are those of the range that have a word
  have hoffs' : ∀ j, j ∈ tokens.map (·.1) ↔
      (termAt (text (row ++ 0 :: family) (Bytes.ofString field)) j).isSome ∧ first ≤ j ∧ j < stop := by
    intro j
    rw [hoffs j, ht.hitsAt_iff hS (o := ⟨field, first, stop⟩) hrow hf0 j]
    simp
  rw [Transform.lookup_of_gather ht.ordered hreg hfield hf0 hrow family h0 hlt hstop (hsel ▸ hg) hkey,
    phrase_eq_excerptOf hagree hoffs']
  simp only [eq_nil_iff_tokensIn hagree hoffs']

end Excerpt

end EdgeQuery
