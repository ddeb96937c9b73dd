import EdgeQuery.Proofs.TermIndex
import EdgeQuery.Proofs.EvalSimulation
/-! # Phrase search over an indexed text

`content:phrase(F, 'w1', ..., 'wk')` looks the lower-cased words up in the term-frequency
list of field `F` and matches where they stand at consecutive offsets, recording each such
place as a phrase position. When `F`'s list is the index of one text, the phrase function
finds every run of two or more consecutive words of the text, written in any letter case,
as long as each word fits the term budget of 64 bytes once lower-cased: the index keeps only
the first 64 bytes of a longer word, while the query keeps the whole word, so a phrase with a
longer word matches nowhere (`phrase_long_word_unmatched`).

Main statement: `phrase_matches_iff_words_fit`. -/

namespace EdgeQuery.Eval

open Query Tokenizer

/-! ## Offsets -/

/-- Offsets that stay below `2^63` add as whole numbers. -/
theorem offsetAdd_of_lt {a b : Int} (ha : 0 ≤ a) (hb : 0 ≤ b) (h : a + b < 9223372036854775808) :
    offsetAdd a b = a + b := by
  have hsize : Int64.size = 18446744073709551616 := rfl
  simp only [offsetAdd, Int64.toInt_add, Int64.toInt_ofInt, hsize]
  rw [Int.bmod_eq_of_le (n := a) (by omega) (by omega), Int.bmod_eq_of_le (n := b) (by omega) (by omega),
    Int.bmod_eq_of_le (by omega) (by omega)]

/-- The search by halving finds exactly the offsets a term has in the index of one text,
whose offset lists are sorted. -/
theorem holds_offsets_addFrequencies (record text : Bytes) (t : String) (r : Bytes) (x : Int) :
    holds ((addFrequencies {} record text).offsets t r).toArray x = true ↔
      x ∈ (addFrequencies {} record text).offsets t r := by
  have hs := (pairwise_offsets_addFrequencies record text t r).imp fun h => Int.le_of_lt h
  rw [holds_iff_mem (by simpa using hs), List.toList_toArray]

/-! ## The phrase call -/

/-- The call `content:phrase(F, 'q1', ..., 'qk')` of the words `q1 ... qk`. -/
def phraseCall (field : String) (words : List (List Char)) : Expr :=
  .call "content" "phrase" (.field field :: words.map fun w => .lit (.str (String.ofList w)))

/-- A query word as the phrase function looks it up: lower-cased. -/
def queryTerm (w : List Char) : String := String.ofList (w.map Unicode.toLower)

/-- Whether a word, lower-cased, fits the default term budget of the index. -/
def fits (w : List Char) : Prop := (Bytes.ofString (queryTerm w)).length ≤ defaultMaxLen

instance : DecidablePred fits := fun w =>
  inferInstanceAs (Decidable ((Bytes.ofString (queryTerm w)).length ≤ defaultMaxLen))

/-- A step that succeeds on every element succeeds on the list. -/
theorem mapM_eq_ok {α β ε : Type} {f : α → Except ε β} (g : α → β) {l : List α}
    (h : ∀ a ∈ l, f a = .ok (g a)) : l.mapM f = .ok (l.map g) := by
  induction l with
  | nil => rfl
  | cons a l ih =>
    rw [List.mapM_cons, h a List.mem_cons_self, ih fun b hb => h b (List.mem_cons_of_mem _ hb)]
    rfl

theorem phraseTerms_strings (qs : List (List Char)) (h : 2 ≤ qs.length) :
    phraseTerms (qs.map fun w => .lit (.str (String.ofList w))) = .ok (qs.map queryTerm) := by
  have hlen : ¬ (qs.map queryTerm).length < 2 := by simp; omega
  rw [phraseTerms, mapM_eq_ok fun e => String.map Unicode.toLower ((stringArg? e).getD "")]
  · have hterms : ((qs.map fun w => Expr.lit (.str (String.ofList w))).map
        fun e => String.map Unicode.toLower ((stringArg? e).getD "")) = qs.map queryTerm := by
      simp [queryTerm, stringArg?, Expr.deref, String.map_eq_internal]
    rw [hterms]
    exact if_neg hlen
  · intro a ha
    obtain ⟨w, _, rfl⟩ := List.mem_map.1 ha
    rfl

/-- The phrase call compiles to a phrase search for its lower-cased words. -/
theorem compile_phraseCall (field : String) (qs : List (List Char)) (h : 2 ≤ qs.length)
    (opts : Options) :
    Evaluation.compile (phraseCall field qs) opts =
      .ok ⟨phraseCall field qs, .builtin (.phrase (Bytes.ofString field) (qs.map queryTerm)), opts⟩ := by
  simp only [Evaluation.compile, phraseCall, Condition.ofExpr, Builtin.ofCall?, Expr.qualifiedName]
  simp [fieldArg?, Expr.deref, phraseTerms_strings qs h, Except.map]

/-! ## Phrase hits -/

/-- The later terms hold the offsets `next`, `next + 1`, ... in turn. -/
theorem consecutive_iff {lists : List (Array Int)} {next : Int} :
    consecutive lists next = true ↔
      ∀ (m : Nat) (h : m < lists.length), holds lists[m] (offsetAdd next m) = true := by
  simp only [consecutive, List.all_eq_true]
  constructor
  · intro h m hm
    exact h (lists[m], m) (List.mem_zipIdx_iff_getElem?.2 (List.getElem?_eq_getElem hm))
  · rintro h ⟨a, m⟩ hmem
    obtain ⟨hm, ha⟩ := List.getElem?_eq_some_iff.1 (List.mem_zipIdx_iff_getElem?.1 hmem)
    dsimp only at hm ha ⊢
    rw [← ha]
    exact h m hm

/-- A hit is a record and offset of the first term from which the others follow. -/
theorem mem_phraseHits {f : Frequencies} {first : String} {rest : List String}
    {hit : Bytes × Int × Int} :
    hit ∈ phraseHits f (first :: rest) ↔
      ∃ rid start, rid ∈ f.records first ∧ start ∈ f.offsets first rid ∧
        consecutive (rest.map fun t => (f.offsets t rid).toArray) (offsetAdd start 1) = true ∧
        hit = (rid, start, offsetAdd start rest.length) := by
  simp only [phraseHits, List.mem_flatMap, List.mem_map, List.mem_filter]
  constructor
  · rintro ⟨rid, hrid, start, ⟨hstart, hcons⟩, rfl⟩
    exact ⟨rid, start, hrid, hstart, hcons, rfl⟩
  · rintro ⟨rid, start, hrid, hstart, hcons, rfl⟩
    exact ⟨rid, hrid, start, ⟨hstart, hcons⟩, rfl⟩

/-! ## Query words against the index of a text -/

/-- The index keeps a word that fits as its query term. -/
theorem termOf_eq_queryTerm {w : List Char} (hw : fits w) : termOf defaultMaxLen w = queryTerm w :=
  termOf_of_fits (by rwa [encodeAll_eq_ofString])

/-- No term of an index is the query term of a word too long for the budget. -/
theorem termOf_ne_queryTerm {w : List Char} (hw : ¬ fits w) (v : List Char) :
    termOf defaultMaxLen v ≠ queryTerm w := by
  obtain ⟨cs, hcs, hlen⟩ := termOf_encodes defaultMaxLen v
  intro h
  apply hw
  rw [fits, ← h, hcs, ← encodeAll_eq_ofString]
  exact hlen

/-- The query words of a phrase that stands at word `i` of a text, word by word. -/
theorem getElem?_words_of_window {ws qs : List (List Char)} {i : Nat}
    (hwords : i + qs.length ≤ ws.length)
    (hcase : qs.map queryTerm = ((ws.drop i).take qs.length).map queryTerm) (j : Nat)
    (hj : j < qs.length) : ∃ w, ws[i + j]? = some w ∧ queryTerm qs[j] = queryTerm w := by
  refine ⟨ws[i + j], List.getElem?_eq_getElem (by omega), ?_⟩
  have h := congrArg (·[j]?) hcase
  simpa [List.getElem?_take, hj, List.getElem?_drop, List.getElem?_eq_getElem (show i + j < ws.length by omega)] using h

section OneText

variable (rid T : Bytes)

theorem mem_offsets_of_fits {j : Nat} {w : List Char} (hj : (words (Utf8.chars T))[j]? = some w)
    (hw : fits w) : (j : Int) ∈ (addFrequencies {} rid T).offsets (queryTerm w) rid :=
  (mem_offsets_addFrequencies rid T).2 ⟨rfl, j, w, hj, termOf_eq_queryTerm hw, rfl⟩

theorem mem_records_of_fits {j : Nat} {w : List Char} (hj : (words (Utf8.chars T))[j]? = some w)
    (hw : fits w) : rid ∈ (addFrequencies {} rid T).records (queryTerm w) := by
  rw [records_addFrequencies, if_pos (List.mem_map.2 ⟨w, List.mem_of_getElem? hj, termOf_eq_queryTerm hw⟩)]
  exact List.mem_singleton_self rid

theorem offsets_of_long {w : List Char} (hw : ¬ fits w) (r : Bytes) :
    (addFrequencies {} rid T).offsets (queryTerm w) r = [] :=
  List.eq_nil_iff_forall_not_mem.2 fun _ hx => by
    obtain ⟨-, j, v, -, hv, -⟩ := (mem_offsets_addFrequencies rid T).1 hx
    exact termOf_ne_queryTerm hw v hv

theorem records_of_long {w : List Char} (hw : ¬ fits w) :
    (addFrequencies {} rid T).records (queryTerm w) = [] := by
  rw [records_addFrequencies, if_neg]
  intro hmem
  obtain ⟨v, -, hv⟩ := List.mem_map.1 hmem
  exact termOf_ne_queryTerm hw v hv

/-- A phrase with a word too long for the budget is found nowhere in the index of a text. -/
theorem phraseHits_of_long {qs : List (List Char)} (hlong : ∃ q ∈ qs, ¬ fits q) :
    phraseHits (addFrequencies {} rid T) (qs.map queryTerm) = [] := by
  obtain ⟨q, hq, hlong⟩ := hlong
  cases qs with
  | nil => rfl
  | cons q0 rest =>
    rw [List.map_cons]
    refine List.eq_nil_iff_forall_not_mem.2 fun hit hhit => ?_
    obtain ⟨r, start, hr, -, hcons, -⟩ := mem_phraseHits.1 hhit
    rcases List.mem_cons.1 hq with rfl | hq'
    · -- the first word is not a term: no record has it
      rw [records_of_long rid T hlong] at hr
      exact List.not_mem_nil hr
    · -- a later word is not a term: its offsets are empty, so the phrase never continues
      obtain ⟨m, hm, rfl⟩ := List.getElem_of_mem hq'
      have h := consecutive_iff.1 hcons m (by simpa using hm)
      simp only [List.getElem_map, offsets_of_long rid T hlong] at h
      simpa using mem_of_holds h

/-- A phrase of words that fit, standing at word `i` of a text, is found there, from offset
`i` to the offset of its last word. -/
theorem mem_phraseHits_of_fits {i : Nat} {qs : List (List Char)} (hk : 0 < qs.length)
    (hwords : i + qs.length ≤ (words (Utf8.chars T)).length)
    (hcase : qs.map queryTerm = (((words (Utf8.chars T)).drop i).take qs.length).map queryTerm)
    (hT : T.length < 9223372036854775808) (hfit : ∀ q ∈ qs, fits q) :
    (rid, (i : Int), (i + qs.length - 1 : Int)) ∈ phraseHits (addFrequencies {} rid T) (qs.map queryTerm) := by
  -- every offset of the phrase is a word number, far below the 64-bit bound
  have hsmall : (words (Utf8.chars T)).length ≤ T.length :=
    Nat.le_trans (length_words_le _) (Utf8.length_chars_le T)
  have hword := getElem?_words_of_window hwords hcase
  have hfits : ∀ (j : Nat) (hj : j < qs.length) (w : List Char), queryTerm qs[j] = queryTerm w → fits w :=
    fun j hj w hq => by
      have h := hfit qs[j] (List.getElem_mem hj)
      rwa [fits, hq] at h
  obtain ⟨q0, rest, rfl⟩ := List.exists_cons_of_length_pos hk
  simp only [List.length_cons] at hwords hsmall hfits hword
  obtain ⟨w0, hw0, hq0⟩ := hword 0 (by omega)
  rw [List.map_cons, mem_phraseHits]
  refine ⟨rid, i, ?records, ?offsets, ?consecutive, ?stop⟩
  case records =>
    rw [show q0 = (q0 :: rest)[0] from rfl, hq0]
    exact mem_records_of_fits rid T hw0 (hfits 0 (by omega) w0 hq0)
  case offsets =>
    rw [show q0 = (q0 :: rest)[0] from rfl, hq0]
    exact mem_offsets_of_fits rid T hw0 (hfits 0 (by omega) w0 hq0)
  case consecutive =>
    rw [consecutive_iff]
    intro m hm
    simp only [List.length_map] at hm
    obtain ⟨w, hw, hq⟩ := hword (m + 1) (by omega)
    have hrest : queryTerm rest[m] = queryTerm w := hq
    have hnext : offsetAdd i 1 = i + 1 := offsetAdd_of_lt (by omega) (by omega) (by omega)
    rw [List.getElem_map, List.getElem_map, holds_offsets_addFrequencies, hrest, hnext,
      offsetAdd_of_lt (by omega) (by omega) (by omega)]
    have h := mem_offsets_of_fits rid T hw (hfits (m + 1) (by omega) w hq)
    rwa [show (((i + (m + 1) : Nat)) : Int) = i + 1 + m by omega] at h
  case stop =>
    simp only [List.length_map, List.length_cons, Nat.cast_add, Nat.cast_one]
    rw [offsetAdd_of_lt (by omega) (by omega) (by omega)]
    congr 2
    omega

end OneText

/-! ## Recorded positions -/

/-- The positions recorded by a first `addAll` are the hits, each with its offsets in order. -/
theorem positions_addAll_empty (field : Bytes) (hits : List (Bytes × Int × Int)) :
    (({} : PhraseIndexes).addAll field hits).positions field =
      hits.map fun (record, start, stop) =>
        if start > stop then ⟨record, stop, start⟩ else ⟨record, start, stop⟩ := by
  cases hits with
  | nil => rfl
  | cons h hs => simp [PhraseIndexes.addAll, PhraseIndexes.positions]

theorem isEmpty_addAll_empty (field : Bytes) (hits : List (Bytes × Int × Int)) :
    (({} : PhraseIndexes).addAll field hits).isEmpty = hits.isEmpty := by
  cases hits <;> simp [PhraseIndexes.addAll, PhraseIndexes.isEmpty, PhraseIndexes.fields]

/-! ## Evaluating a phrase search

`content:phrase` and `content:within` differ only in how they find hits in a term-frequency
list; what evaluation does with the hits is stated once for both. -/

/-- A phrase function over a field whose list is `f` is true when it has hits, which it
records as the field's phrase positions. -/
theorem run_evalPhrases {ctx : Context} {field : Bytes} {f : Frequencies}
    (hf : ctx.frequencies? field = some f) (opts : Options)
    (hits : Frequencies → List (Bytes × Int × Int)) :
    (Builtin.evalPhrases ⟨ctx, opts⟩ field hits).run {} =
      (.ofBool !(hits f).isEmpty, { phrases := ({} : PhraseIndexes).addAll field (hits f) }) := by
  have hfreq := Scope.frequencies_run ⟨ctx, opts⟩ field {}
  rw [show (⟨ctx, opts⟩ : Scope).context.frequencies? field = some f from hf] at hfreq
  unfold Builtin.evalPhrases
  rw [run_bind, hfreq]
  rfl

/-- The outcome of a phrase function: a match when there are hits, with the hits as the
phrase positions of the field. -/
theorem evaluate_evalPhrases {ev : Evaluation} {ctx : Context} {field : Bytes} {b : Builtin}
    {hits : Frequencies → List (Bytes × Int × Int)} {f : Frequencies}
    (hcond : ev.condition = .builtin b) (hb : ∀ s, b.eval s = Builtin.evalPhrases s field hits)
    (hf : ctx.frequencies? field = some f) (doc : Option Document) :
    (ev.evaluate ctx doc).1.matched = !(hits f).isEmpty ∧
      (ev.evaluate ctx doc).1.phrases =
        if (hits f).isEmpty then none
        else some (({} : PhraseIndexes).addAll field (hits f)) := by
  have hrun : ((Condition.builtin b).eval ⟨ctx, ev.options⟩).run {} =
      (.ofBool !(hits f).isEmpty, { phrases := ({} : PhraseIndexes).addAll field (hits f) }) := by
    simp only [Condition.eval, hb]
    exact run_evalPhrases hf ev.options hits
  rw [← hcond] at hrun
  unfold Evaluation.evaluate
  rw [hrun]
  cases h : (hits f).isEmpty <;> simp [isEmpty_addAll_empty, h]

/-- The outcome of a phrase search. -/
theorem evaluate_phrase {ev : Evaluation} {ctx : Context} {field : Bytes} {terms : List String}
    {f : Frequencies} (hcond : ev.condition = .builtin (.phrase field terms))
    (hf : ctx.frequencies? field = some f) (doc : Option Document) :
    (ev.evaluate ctx doc).1.matched = !(phraseHits f terms).isEmpty ∧
      (ev.evaluate ctx doc).1.phrases =
        if (phraseHits f terms).isEmpty then none
        else some (({} : PhraseIndexes).addAll field (phraseHits f terms)) :=
  evaluate_evalPhrases hcond (fun _ => rfl) hf doc

/-! ## Phrases of an indexed text -/

/-- Searching the index of a text for a run of two or more of its words, in any letter case,
compiles, and matches exactly when every word fits the term budget; it then records the
place of the run, from its first word to its last. -/
theorem phrase_matches_iff_words_fit (T rid : Bytes) (F : String) (i : Nat) (qs : List (List Char))
    (hk : 2 ≤ qs.length) (hwords : i + qs.length ≤ (words (Utf8.chars T)).length)
    (hcase : qs.map queryTerm = (((words (Utf8.chars T)).drop i).take qs.length).map queryTerm)
    (hT : T.length < 9223372036854775808) (opts : Options) (ctx : Context) (doc : Option Document)
    (hctx : ctx.frequencies? (Bytes.ofString F) = some (addFrequencies {} rid T)) :
    ∃ ev, Evaluation.compile (phraseCall F qs) opts = .ok ev ∧
      ((ev.evaluate ctx doc).1.matched = true ↔ ∀ q ∈ qs, fits q) ∧
      ((∀ q ∈ qs, fits q) → ∃ p, (ev.evaluate ctx doc).1.phrases = some p ∧
        ⟨rid, i, i + qs.length - 1⟩ ∈ p.positions (Bytes.ofString F)) := by
  refine ⟨_, compile_phraseCall F qs hk opts, ?_⟩
  have hcond : (⟨phraseCall F qs, .builtin (.phrase (Bytes.ofString F) (qs.map queryTerm)), opts⟩ :
      Evaluation).condition = .builtin (.phrase (Bytes.ofString F) (qs.map queryTerm)) := rfl
  obtain ⟨hmatched, hphrases⟩ := evaluate_phrase hcond hctx doc
  have hfound : (∀ q ∈ qs, fits q) →
      (rid, (i : Int), (i + qs.length - 1 : Int)) ∈
        phraseHits (addFrequencies {} rid T) (qs.map queryTerm) :=
    mem_phraseHits_of_fits rid T (by omega) hwords hcase hT
  have hnonempty : (∀ q ∈ qs, fits q) →
      (phraseHits (addFrequencies {} rid T) (qs.map queryTerm)).isEmpty = false :=
    fun h => List.isEmpty_eq_false_iff_exists_mem.2 ⟨_, hfound h⟩
  refine ⟨?matched, ?recorded⟩
  case matched =>
    rw [hmatched]
    constructor
    · -- without a hit, some word must be too long
      intro hm q hq
      apply Classical.byContradiction
      intro hlong
      rw [phraseHits_of_long rid T ⟨q, hq, hlong⟩] at hm
      exact absurd hm (by decide)
    · intro h
      rw [hnonempty h]
      rfl
  case recorded =>
    intro h
    rw [hphrases, hnonempty h, if_neg Bool.false_ne_true]
    refine ⟨_, rfl, ?_⟩
    rw [positions_addAll_empty]
    refine List.mem_map.2 ⟨_, hfound h, ?_⟩
    have hle : ¬ (i : Int) > i + qs.length - 1 := by omega
    simp only [if_neg hle]

/-- `content:phrase(F, 'BIG', 'world')` finds words 1 and 2 of `Hello big World`. -/
theorem phrase_found_in_any_case :
    let T := "Hello big World".toList.map Bytes.ofChar
    let ctx : Context :=
      { offsets := some { lists := [(Bytes.ofString "F", addFrequencies {} (Bytes.ofString "r") T)] } }
    ∃ ev, Evaluation.compile (phraseCall "F" ["BIG".toList, "world".toList]) {} = .ok ev ∧
      (ev.evaluate ctx none).1.matched = true ∧
      ∃ p, (ev.evaluate ctx none).1.phrases = some p ∧
        ⟨Bytes.ofString "r", 1, 2⟩ ∈ p.positions (Bytes.ofString "F") := by
  intro T ctx
  have hwords : words (Utf8.chars T) = ["Hello".toList, "big".toList, "World".toList] := by
    rw [Utf8.chars_of_ascii (by decide +kernel)]
    decide
  have hctx : ctx.frequencies? (Bytes.ofString "F") = some (addFrequencies {} (Bytes.ofString "r") T) := by
    simp [ctx, Context.frequencies?, OffsetMap.frequencies?]
  have hfit : ∀ q ∈ ["BIG".toList, "world".toList], fits q := by decide +kernel
  obtain ⟨ev, hc, hm, hp⟩ := phrase_matches_iff_words_fit T (Bytes.ofString "r") "F" 1
    ["BIG".toList, "world".toList] (by decide) (by rw [hwords]; decide) (by rw [hwords]; decide)
    (by decide) {} ctx none hctx
  exact ⟨ev, hc, hm.2 hfit, hp hfit⟩

/-- A word of 65 letters and a word after it: the index keeps only the first 64 letters of the
long word, so the phrase of the two words is not found. -/
theorem phrase_long_word_unmatched :
    let long := List.replicate 65 'a'
    let T := (long ++ [' ', 'b']).map Bytes.ofChar
    let ctx : Context :=
      { offsets := some { lists := [(Bytes.ofString "F", addFrequencies {} (Bytes.ofString "r") T)] } }
    words (Utf8.chars T) = [long, ['b']] ∧
      ∃ ev, Evaluation.compile (phraseCall "F" [long, ['b']]) {} = .ok ev ∧
        (ev.evaluate ctx none).1.matched = false := by
  intro long T ctx
  have hctx : ctx.frequencies? (Bytes.ofString "F") = some (addFrequencies {} (Bytes.ofString "r") T) := by
    simp [ctx, Context.frequencies?, OffsetMap.frequencies?]
  have hlong : ¬ fits long := by decide +kernel
  refine ⟨by rw [Utf8.chars_of_ascii (by decide +kernel)]; decide, _, compile_phraseCall "F" _ (by decide) {}, ?_⟩
  rw [(evaluate_phrase rfl hctx none).1, phraseHits_of_long _ T ⟨long, List.mem_cons_self, hlong⟩]
  rfl

end EdgeQuery.Eval
