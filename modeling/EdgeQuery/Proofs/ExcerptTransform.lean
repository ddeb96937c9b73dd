import Mathlib
import EdgeQuery.Proofs.ExcerptStage
import EdgeQuery.Cli.Codec
/-! # Adding excerpts to a document

The excerpt transform reads a kept document's phrase indexes and, for every configured field
and every position recorded for it, looks up the tokens of the position widened by the
field's window; the distinct non-empty texts found, in byte order, become the document's
`HIT_EXCERPT` values.

Over a table of the term entries of texts (`TermTable`), written in a serial form of offsets
that reads them back, this module states the whole transform by what it produces
(`Transform.apply_termTable`): the values set are exactly the
non-empty `excerptOf` the texts over the widened positions, each once and in strictly
increasing byte order, and a document where none is found is left as it is. The widened end
`stop + window + 1` is computed in 64-bit arithmetic, so the statement holds while it stays
below `2^63`; past that the end wraps around to a negative number and the excerpt stage
rejects its range.

The proof goes through the pieces of `Transform.apply` in turn:

* the phrase indexes read back from their written form (`mem_positions_parse_render`);
* widening stays exact below `2^63` (`widen_eq`);
* each lookup finds the excerpt of its range (`Transform.lookup_termTable`), so the lookups
  give the list of `foundAt` every position (`Transform.lookups_termTable`);
* `sortedDistinct` keeps the non-empty texts, each once, in increasing byte order
  (`Transform.sortedDistinct_spec`). -/

namespace EdgeQuery

namespace Excerpt

open Store

/-! ## Byte order -/

instance : Std.TransCmp Bytes.cmp := inferInstanceAs (Std.TransCmp fun a b : Bytes => compare a b)

instance : Std.LawfulEqCmp Bytes.cmp := inferInstanceAs (Std.LawfulEqCmp fun a b : Bytes => compare a b)

theorem bne_gt_eq_isLE (o : Ordering) : (o != .gt) = o.isLE := by
  cases o <;> rfl

/-- Sorting by "not above" leaves texts in byte order. -/
theorem pairwise_mergeSort_isLE (l : List Bytes) :
    (l.mergeSort fun a b => Bytes.cmp a b != .gt).Pairwise fun a b => (Bytes.cmp a b).isLE := by
  have hsorted := @List.pairwise_mergeSort _ (fun a b : Bytes => Bytes.cmp a b != .gt)
    (fun a b c hab hbc => by
      rw [bne_gt_eq_isLE] at hab hbc ⊢
      exact Std.TransCmp.isLE_trans hab hbc)
    (fun a b => by
      have hswap : Bytes.cmp b a = (Bytes.cmp a b).swap := Std.OrientedCmp.eq_swap
      rw [bne_gt_eq_isLE, bne_gt_eq_isLE, hswap]
      cases Bytes.cmp a b <;> rfl)
    l
  exact hsorted.imp fun h => by rwa [bne_gt_eq_isLE] at h

/-- Texts in strictly increasing byte order are fixed by their members. -/
theorem eq_of_pairwise_cmp_lt {l₁ l₂ : List Bytes} (h₁ : l₁.Pairwise fun x y => Bytes.cmp x y = .lt)
    (h₂ : l₂.Pairwise fun x y => Bytes.cmp x y = .lt) (h : ∀ x, x ∈ l₁ ↔ x ∈ l₂) : l₁ = l₂ := by
  have : Std.Irrefl fun x y : Bytes => Bytes.cmp x y = .lt :=
    ⟨fun x hx => by
      have hself : Bytes.cmp x x = .eq := Std.ReflCmp.compare_self
      rw [hself] at hx
      cases hx⟩
  have : Std.Antisymm fun x y : Bytes => Bytes.cmp x y = .lt :=
    ⟨fun x y hxy hyx => by
      have hswap : Bytes.cmp y x = (Bytes.cmp x y).swap := Std.OrientedCmp.eq_swap
      rw [hswap, hxy] at hyx
      cases hyx⟩
  exact List.Pairwise.eq_of_mem_iff h₁ h₂ h

/-! ## Distinct texts in byte order -/

/-- Puts a text in front of texts in increasing order, unless it is the first of them. -/
def distinctStep (x : Bytes) (acc : List Bytes) : List Bytes :=
  if acc.head? == some x then acc else x :: acc

namespace Transform

theorem sortedDistinct_eq (xs : List Bytes) :
    sortedDistinct xs =
      ((xs.filter (!·.isEmpty)).mergeSort fun a b => Bytes.cmp a b != .gt).foldr distinctStep [] := rfl

end Transform

theorem mem_distinctStep {a x : Bytes} {acc : List Bytes} : x ∈ distinctStep a acc ↔ x = a ∨ x ∈ acc := by
  cases acc with
  | nil => simp [distinctStep]
  | cons y ys =>
    by_cases hya : y = a
    · subst hya
      simp [distinctStep]
    · simp [distinctStep, hya]

theorem pairwise_distinctStep {a : Bytes} {acc : List Bytes}
    (hacc : acc.Pairwise fun x y => Bytes.cmp x y = .lt) (ha : ∀ z ∈ acc, (Bytes.cmp a z).isLE) :
    (distinctStep a acc).Pairwise fun x y => Bytes.cmp x y = .lt := by
  cases acc with
  | nil => simp [distinctStep]
  | cons y ys =>
    by_cases hya : y = a
    · subst hya
      simpa [distinctStep] using hacc
    · -- `a` is below `y`, the least of the rest
      have hay : Bytes.cmp a y = .lt := by
        have hle := ha y List.mem_cons_self
        have hne : Bytes.cmp a y ≠ .eq := fun h => hya (Std.LawfulEqCmp.eq_of_compare h).symm
        revert hle hne
        cases Bytes.cmp a y <;> simp
      simp only [distinctStep, List.head?_cons, Option.some_beq_some, beq_iff_eq, hya, if_false]
      refine List.pairwise_cons.2 ⟨fun z hz => ?_, hacc⟩
      rcases List.mem_cons.1 hz with rfl | hz
      · exact hay
      · exact Std.TransCmp.lt_trans hay ((List.pairwise_cons.1 hacc).1 z hz)

theorem mem_foldr_distinctStep {l : List Bytes} {x : Bytes} : x ∈ l.foldr distinctStep [] ↔ x ∈ l := by
  induction l with
  | nil => simp
  | cons a l ih => rw [List.foldr_cons, mem_distinctStep, ih, List.mem_cons]

/-- Dropping the repeats of texts in order leaves them strictly increasing. -/
theorem pairwise_foldr_distinctStep {l : List Bytes} (hl : l.Pairwise fun x y => (Bytes.cmp x y).isLE) :
    (l.foldr distinctStep []).Pairwise fun x y => Bytes.cmp x y = .lt := by
  induction l with
  | nil => simp
  | cons a l ih =>
    rw [List.pairwise_cons] at hl
    exact pairwise_distinctStep (ih hl.2) fun z hz => hl.1 z (mem_foldr_distinctStep.1 hz)

namespace Transform

/-- The distinct texts of a list are its non-empty texts, each once, in strictly increasing
byte order. -/
theorem sortedDistinct_spec (xs : List Bytes) :
    (sortedDistinct xs).Pairwise (fun x y => Bytes.cmp x y = .lt) ∧
      ∀ x, x ∈ sortedDistinct xs ↔ x ≠ [] ∧ x ∈ xs := by
  refine ⟨?_, fun x => ?_⟩
  · rw [sortedDistinct_eq]
    exact pairwise_foldr_distinctStep (pairwise_mergeSort_isLE _)
  · rw [sortedDistinct_eq, mem_foldr_distinctStep, List.mem_mergeSort, List.mem_filter]
    simp [and_comm]

end Transform

/-! ## Widening a position -/

/-- Wrapping leaves a whole number of 64 bits as it is. -/
theorem wrap64_of_lt {n : Int} (h0 : -9223372036854775808 ≤ n) (h : n < 9223372036854775808) : wrap64 n = n := by
  have hsize : Int64.size = 18446744073709551616 := rfl
  simp only [wrap64, Int64.toInt_ofInt, hsize]
  exact Int.bmod_eq_of_le (by omega) (by omega)

/-- Widening a position of non-negative offsets by a non-negative window, while the end stays
below `2^63`, gives `[max 0 (start - window), stop + window + 1)` exactly. -/
theorem widen_eq {start stop w : Int} (h0 : 0 ≤ start) (hw : 0 ≤ w) (hle : start ≤ stop)
    (hfit : stop + w + 1 < Int.pow 2 63) : widen start stop w = (max 0 (start - w), stop + w + 1) := by
  have h63 : Int.pow 2 63 = 9223372036854775808 := by decide
  rw [widen, wrap64_of_lt (n := stop + w + 1) (by omega) (by omega)]
  by_cases hsw : start ≤ w
  · rw [if_pos hsw, max_eq_left (by omega)]
  · rw [if_neg hsw, wrap64_of_lt (by omega) (by omega), max_eq_right (by omega)]

/-! ## The lookups of every position -/

/-- What the lookup of a position of a field finds over texts: the excerpt of the field's
text over the position widened by the window, when a token lies there. -/
def foundAt (text : Bytes → Bytes → Bytes) (w : Int) (F : Bytes) (pos : Position) : Option Bytes :=
  if tokensIn (text pos.record F) (max 0 (pos.start - w)) (pos.stop + w + 1) = [] then none
  else some (excerptOf (text pos.record F) (max 0 (pos.start - w)) (pos.stop + w + 1))

/-- A non-empty text is found for a position exactly when it is the position's excerpt: an
excerpt of no tokens is empty. -/
theorem foundAt_eq_some {text : Bytes → Bytes → Bytes} {w : Int} {F x : Bytes} {pos : Position} (hx : x ≠ []) :
    foundAt text w F pos = some x ↔
      x = excerptOf (text pos.record F) (max 0 (pos.start - w)) (pos.stop + w + 1) := by
  unfold foundAt
  split
  · rename_i hnone
    simp only [reduceCtorEq, false_iff]
    rintro rfl
    exact hx (by rw [excerptOf, hnone]; rfl)
  · exact ⟨fun h => (Option.some.inj h).symm, fun h => h ▸ rfl⟩

/-- Appending to the first of a pair at each step appends all at once. -/
theorem foldl_append_fst {α β γ : Type} (k : α → List β) :
    ∀ (l : List α) (acc : List β × γ), l.foldl (fun acc x => (acc.1 ++ k x, acc.2)) acc = (acc.1 ++ l.flatMap k, acc.2)
  | [], acc => by simp
  | x :: l, acc => by
    rw [List.foldl_cons, foldl_append_fst k l, List.flatMap_cons, List.append_assoc]

section Lookups

variable {S : Serial (List Int)} {t : Transform} {text : Bytes → Bytes → Bytes} {p : PhraseIndexes}

/-- What the lookups of a transform need of its configured fields: names that are not empty
and hold no zero byte, and windows of zero or more. -/
def FieldsFit (t : Transform) : Prop :=
  ∀ F ∈ t.fields.names, F ≠ "" ∧ 0 ∉ Bytes.ofString F ∧ 0 ≤ t.fields.window F

/-- What the lookups need of a position of a configured field: offsets in order from zero,
a widened end below `2^63`, and a record `row 00 family` whose row holds no zero byte. -/
def PositionFits (t : Transform) (F : String) (pos : Position) : Prop :=
  0 ≤ pos.start ∧ pos.start ≤ pos.stop ∧ pos.stop + t.fields.window F + 1 < Int.pow 2 63 ∧
    ∃ row family, 0 ∉ row ∧ pos.record = row ++ 0 :: family

/-- Over a table of the term entries of texts, the lookups of every position of every
configured field succeed without warnings, and find the excerpts of the widened positions
that hold a token, field by field and position by position. -/
theorem Transform.lookups_termTable (hS : ∀ offs, OffsetsFit offs → S.ReadsBack offs) (ht : TermTable S t.table text)
    (hreg : Registered S t.registry) (hfields : FieldsFit t) (hpos : ∀ F ∈ t.fields.names, ∀ pos ∈ p.positions (Bytes.ofString F), PositionFits t F pos) :
    t.lookups p = .ok (t.fields.names.flatMap (fun F => (p.positions (Bytes.ofString F)).flatMap fun pos =>
      (foundAt text (t.fields.window F) (Bytes.ofString F) pos).toList), []) := by
  unfold Transform.lookups
  rw [foldlM_eq_ok (fun acc F => (acc.1 ++ (p.positions (Bytes.ofString F)).flatMap fun pos =>
      (foundAt text (t.fields.window F) (Bytes.ofString F) pos).toList, acc.2))]
  · rw [foldl_append_fst]
    rfl
  intro acc F hF
  obtain ⟨hname, hname0, hw⟩ := hfields F hF
  rw [foldlM_eq_ok (fun acc pos => (acc.1 ++ (foundAt text (t.fields.window F) (Bytes.ofString F) pos).toList, acc.2)),
    foldl_append_fst]
  -- one lookup: the widened range is exact, and the lookup finds its excerpt
  intro acc pos hmem
  obtain ⟨h0, hle, hfit, row, family, hrow, hrec⟩ := hpos F hF pos hmem
  have hlookup := Transform.lookup_termTable hS ht hreg hname hname0 hrow family
    (le_max_left 0 (pos.start - t.fields.window F))
    (show max 0 (pos.start - t.fields.window F) < pos.stop + t.fields.window F + 1 by omega) hfit
  rw [← hrec] at hlookup
  obtain ⟨texts, logs⟩ := acc
  simp only [widen_eq h0 hw hle hfit, hlookup, Except.mapError, bind, Except.bind, pure, Except.pure,
    List.append_nil]
  rfl

end Lookups

/-! ## The transform -/

/-- Over a table of the term entries of texts, adding excerpts to a kept document whose
phrase indexes are written from `p` sets its `HIT_EXCERPT` values to the non-empty excerpts
of the texts over the positions of the configured fields, widened by their windows: each
once, in strictly increasing byte order, with the document's visibility and timestamp. A
document where none is found is left as it is, and nothing is warned of. -/
theorem Transform.apply_termTable {S : Serial (List Int)} (hS : ∀ offs, OffsetsFit offs → S.ReadsBack offs)
    {t : Transform} {text : Bytes → Bytes → Bytes} (ht : TermTable S t.table text)
    (hreg : Registered S t.registry) (hfields : FieldsFit t)
    {doc : Document} (hkeep : doc.keep = true) {p : PhraseIndexes} (hp : p.Writable)
    (hdoc : (doc.first? Document.phraseIndexesName).map (·.value) = some p.render)
    (hpos : ∀ F ∈ t.fields.names, ∀ pos ∈ p.positions (Bytes.ofString F),
      pos.stop + t.fields.window F + 1 < Int.pow 2 63 ∧ ∃ row family, 0 ∉ row ∧ pos.record = row ++ 0 :: family) :
    ∃ texts : List Bytes,
      t.apply doc = .ok (if texts = [] then doc else doc.put Document.hitExcerptName (texts.map fun x =>
        { value := x, visibility := doc.visibility, timestamp := doc.timestamp, keep := true }), []) ∧
      texts.Pairwise (fun x y => Bytes.cmp x y = .lt) ∧
      ∀ x, x ∈ texts ↔ x ≠ [] ∧ ∃ F ∈ t.fields.names, ∃ pos ∈ p.positions (Bytes.ofString F),
        x = excerptOf (text pos.record (Bytes.ofString F)) (max 0 (pos.start - t.fields.window F))
          (pos.stop + t.fields.window F + 1) := by
  -- the phrase indexes read back with the positions of `p`
  obtain ⟨q, hparse, hq⟩ := PhraseIndexes.mem_positions_parse_render hp
  have hfits : ∀ F ∈ t.fields.names, ∀ pos ∈ q.positions (Bytes.ofString F), PositionFits t F pos := by
    intro F hF pos hmem
    rw [hq] at hmem
    obtain ⟨h0, hle, -⟩ := PhraseIndexes.ordered_of_mem_positions hp hmem
    exact ⟨h0, hle, hpos F hF pos hmem⟩
  obtain ⟨hsorted, hmem⟩ := Transform.sortedDistinct_spec (t.fields.names.flatMap fun F =>
    (q.positions (Bytes.ofString F)).flatMap fun pos => (foundAt text (t.fields.window F) (Bytes.ofString F) pos).toList)
  obtain ⟨a, ha, hval⟩ := Option.map_eq_some_iff.1 hdoc
  refine ⟨_, ?_, hsorted, fun x => ?_⟩
  · simp only [Transform.apply, hkeep, Bool.not_true, Bool.false_eq_true, if_false, ha, hval, hparse,
      Transform.lookups_termTable hS ht hreg hfields hfits, bind, Except.bind, pure, Except.pure]
    split
    · -- nothing found: the document stays
      rename_i hnil
      rw [if_pos hnil]
    · rename_i hne
      rw [if_neg hne]
  · rw [hmem x]
    simp only [List.mem_flatMap, Option.mem_toList]
    constructor
    · rintro ⟨hx, F, hF, pos, hpos', hfound⟩
      exact ⟨hx, F, hF, pos, (hq _ _).1 hpos', (foundAt_eq_some hx).1 hfound⟩
    · rintro ⟨hx, F, hF, pos, hpos', rfl⟩
      exact ⟨hx, F, hF, pos, (hq _ _).2 hpos', (foundAt_eq_some hx).2 rfl⟩

/-! ## Offsets in MessagePack -/

/-- The MessagePack form of offsets reads back, when there are fewer than `2^32` of them and
each fits 64 bits. -/
theorem readOffsets_reads {offs : List Int} (h : OffsetsFit offs) :
    Msgpack.Reads readOffsets (Msgpack.encode (offsetsValue offs)) offs := by
  -- the array header gives the count, and each item is one integer
  have hheader := Msgpack.HeaderReads.reads (Msgpack.headerReads_arr h.1)
  have hitems : Msgpack.Reads ((List.range offs.length).mapM fun _ => Msgpack.readInt)
      (offs.flatMap Msgpack.encodeInt) offs :=
    Msgpack.mapM_reads (by simp) fun x hx => Msgpack.readInt_encodeInt (h.2 x hx).1 (h.2 x hx).2
  have henc : Msgpack.encode (offsetsValue offs) =
      Msgpack.lengthHeader 0x90 15 (none, 0xdc, 0xdd) offs.length ++ offs.flatMap Msgpack.encodeInt := by
    simp [offsetsValue, Msgpack.encode, Msgpack.encodeAll_eq, List.flatMap_map]
  rw [henc]
  exact Msgpack.Reads.bind hheader hitems

/-- The command line's serial form of offsets reads back the offsets that fit. -/
theorem readsBack_offsetsSerial {offs : List Int} (h : OffsetsFit offs) :
    Cli.offsetsSerial.ReadsBack offs :=
  (readOffsets_reads h).run'_eq

/-! ## One word found -/

/-- The record `r 00 f`. -/
def helloRecord : Bytes := Bytes.ofString "r" ++ 0 :: Bytes.ofString "f"

/-- The text `hello` in field `F` of the record `r 00 f`, and no other text. -/
def helloText (rid field : Bytes) : Bytes :=
  if rid = Bytes.ofString "r" ++ 0 :: Bytes.ofString "f" ∧ field = Bytes.ofString "F" then Bytes.ofString "hello"
  else []

/-- Excerpts of field `F`, one token on each side, over the term entries of `helloText`. -/
def helloTransform : Transform :=
  { fields := { windows := [("F", 1)] }
    table := ⟨[termEntry Cli.offsetsSerial (Bytes.ofString "r") (Bytes.ofString "f") (Bytes.ofString "F")
      (Bytes.ofString "hello") [0]]⟩
    registry := registerStage Cli.offsetsSerial {} }

/-- Phrase indexes holding the position `(r 00 f, 0, 0)` of field `F`. -/
def helloIndexes : PhraseIndexes := { byField := [(Bytes.ofString "F", [⟨helloRecord, 0, 0⟩])] }

/-- A kept document with the phrase indexes `helloIndexes`. -/
def helloDoc : Document := { entries := [(Document.phraseIndexesName, [{ value := helloIndexes.render }])] }

/-- The word `hello` around the position `(r 00 f, 0, 0)` becomes the one excerpt of the
document. -/
theorem Transform.apply_hello :
    helloTransform.apply helloDoc = .ok (helloDoc.put Document.hitExcerptName
      [{ value := Bytes.ofString "hello", visibility := helloDoc.visibility, timestamp := helloDoc.timestamp,
         keep := true }], []) := by
  have hes : (termEntries Cli.offsetsSerial helloRecord (Bytes.ofString "F")
      (Tokenizer.addFrequencies {} helloRecord (Bytes.ofString "hello"))).toOption =
      some helloTransform.table.entries := by
    decide +kernel
  have ht : TermTable Cli.offsetsSerial helloTransform.table helloText := by
    cases h : termEntries Cli.offsetsSerial helloRecord (Bytes.ofString "F") (Tokenizer.addFrequencies {} helloRecord (Bytes.ofString "hello")) with
    | error err => simp [h, Except.toOption] at hes
    | ok es =>
      rw [h, Except.toOption, Option.some.injEq] at hes
      subst hes
      exact TermTable.single (by decide +kernel) (by decide +kernel) (by decide +kernel) h
        (List.pairwise_singleton _ _)
  have hnames : helloTransform.fields.names = ["F"] := rfl
  have hpositions : ∀ F ∈ helloTransform.fields.names,
      helloIndexes.positions (Bytes.ofString F) = [⟨helloRecord, 0, 0⟩] := by
    intro F hF
    rw [hnames, List.mem_singleton] at hF
    subst hF
    decide +kernel
  have hfields : FieldsFit helloTransform := by
    intro F hF
    rw [hnames, List.mem_singleton] at hF
    subst hF
    exact ⟨by decide, by decide +kernel, by decide⟩
  have hp : helloIndexes.Writable := ⟨by decide +kernel, by decide +kernel⟩
  have hdoc : (helloDoc.first? Document.phraseIndexesName).map (·.value) = some helloIndexes.render := by
    decide +kernel
  obtain ⟨texts, happly, hsorted, hmem⟩ := Transform.apply_termTable (fun _ => readsBack_offsetsSerial) ht
    (registered_registerStage Cli.offsetsSerial {}) hfields
    rfl hp hdoc fun F hF pos hpos => by
      rw [hpositions F hF, List.mem_singleton] at hpos
      rw [hnames, List.mem_singleton] at hF
      subst hpos hF
      exact ⟨by decide, Bytes.ofString "r", Bytes.ofString "f", by decide +kernel, rfl⟩
  -- the excerpts found are `hello` alone
  have hexcerpt : excerptOf (helloText helloRecord (Bytes.ofString "F")) (max 0 (0 - 1)) (0 + 1 + 1) =
      Bytes.ofString "hello" := by
    decide +kernel
  have htexts : texts = [Bytes.ofString "hello"] := by
    refine eq_of_pairwise_cmp_lt hsorted (List.pairwise_singleton _ _) fun x => ?_
    rw [hmem x, List.mem_singleton]
    constructor
    · rintro ⟨-, F, hF, pos, hpos, rfl⟩
      rw [hpositions F hF, List.mem_singleton] at hpos
      rw [hnames, List.mem_singleton] at hF
      subst hpos hF
      exact hexcerpt
    · rintro rfl
      have hF : "F" ∈ helloTransform.fields.names := by
        rw [hnames]
        exact List.mem_singleton_self _
      refine ⟨by decide +kernel, "F", hF, ⟨helloRecord, 0, 0⟩, ?_, hexcerpt.symm⟩
      rw [hpositions "F" hF]
      exact List.mem_singleton_self _
  rw [happly, htexts]
  rfl

/-- With a window of `2^63 - 1` tokens the widened end of `(r 00 f, 0, 0)` wraps around to
`-2^63`, the excerpt stage rejects it, and adding excerpts fails where the word `hello`
lies in the widened range. -/
theorem Transform.apply_widest_window_fails :
    ({ helloTransform with fields := { windows := [("F", 9223372036854775807)] } }.apply helloDoc).toBool = false := by
  decide +kernel

end Excerpt

end EdgeQuery
