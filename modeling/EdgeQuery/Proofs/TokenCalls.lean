import EdgeQuery.Proofs.TermIndex
/-! # Handing the terms of a text to a callback

`Tokenizer.iterTokens` reads a text once, character by character, keeping three things
between characters: the bytes of the term being built, whether a word is being read, and
the offset of the next term. A term goes to the callback when its word ends, at a character
that is not a term character or at the end of the text, and a call that answers `false`
ends the reading.

Whatever the text, the buffer and the callback, this is the callback called on the terms of
the text's words in order, with offsets 0, 1, 2, ..., until a call answers `false`
(`iterTokens_calls`); collecting every term gives `tokens` (`tokens_eq_collected`).

A term keeps the lower-cased characters of its word that still fit in the byte budget when
they come. It begins with the longest prefix of the lower-cased word that fits
(`fitPrefix_prefix_keep`), and is that prefix when the characters all take the same number
of bytes, as in a word of ASCII (`keep_eq_fitPrefix_of_width`). A character that does not
fit does not end the term, though: a narrower one after it is still kept, so a term need not
be a prefix of its word (`iterTokens_keeps_char_after_skipped_one`). -/

namespace EdgeQuery.Tokenizer

section Calls

variable {m : Type → Type} [Monad m]

/-- Calls `fn` on each term with its offset, in order, until a call answers `false`. -/
def callUntilFalse (fn : Bytes → Nat → m Bool) : List (Bytes × Nat) → m Unit
  | [] => pure ()
  | p :: rest => fn p.1 p.2 >>= fun go => if go then callUntilFalse fn rest else pure ()

@[simp] theorem keep_nil (maxLen : Nat) : keep maxLen [] = [] := rfl

@[simp] theorem modifyHead_id (l : List (List Char)) : l.modifyHead (fun x => x) = l := by
  cases l <;> rfl

/-- A term's bytes, one character at a time. -/
theorem keep_append_singleton (maxLen : Nat) (w : List Char) (c : Char) :
    keep maxLen (w ++ [c]) = keepChar maxLen (keep maxLen w) c := by
  simp [keep, List.foldl_append]

/-- Reading the rest of a text, with the characters `acc` of an unfinished word already
read, calls back once per remaining word, the first one continuing `acc`. -/
theorem iterChars_eq (maxLen : Nat) (fn : Bytes → Nat → m Bool) (cs acc : List Char) (off : Nat) :
    iterChars maxLen fn cs (keep maxLen acc) (!acc.isEmpty) off =
      callUntilFalse fn ((((cs.splitOnP fun c => !isTermChar c).modifyHead (acc ++ ·)).filter
        (!·.isEmpty)).zipIdx off |>.map fun p => (keep maxLen p.1, p.2)) := by
  induction cs generalizing acc off with
  | nil =>
    cases acc with
    | nil => simp [iterChars, callUntilFalse]
    | cons a as => simp [iterChars, callUntilFalse]
  | cons c cs ih =>
    rw [List.splitOnP_cons_eq_if_modifyHead]
    by_cases hc : isTermChar c
    · -- the character continues the word being read
      have := ih (acc ++ [c]) off
      have hword : (acc ++ [c]).isEmpty = false := by simp
      rw [keep_append_singleton, hword] at this
      simp only [iterChars, hc, if_true, Bool.not_true, Bool.false_eq_true, if_false,
        List.modifyHead_modifyHead]
      simpa [keepChar, Function.comp_def] using this
    · -- the character ends the word being read, if any
      have hnext := ih [] (off + 1)
      have hsame := ih [] off
      simp only [List.isEmpty_nil, Bool.not_true, List.nil_append, modifyHead_id, keep_nil] at hnext hsame
      simp only [iterChars, hc, Bool.not_false, if_true, Bool.false_eq_true, if_false,
        List.modifyHead_cons, List.append_nil]
      cases acc with
      | nil => simpa using hsame
      | cons a as => simp [hnext, callUntilFalse]

/-- Every term of a text, in order and with its offset, goes to `fn` until a call answers
`false`; the term of a word keeps its lower-cased characters that still fit when they come. -/
theorem iterTokens_calls (data buf : Bytes) (maxLen : Int) (fn : Bytes → Nat → m Bool) :
    iterTokens data buf maxLen fn =
      callUntilFalse fn ((words (Utf8.chars data)).zipIdx.map fun p =>
        (keep (if maxLen ≤ 0 then defaultMaxLen else maxLen.toNat) p.1, p.2)) := by
  unfold iterTokens
  split
  · rename_i hempty
    rw [List.isEmpty_iff.1 hempty]
    simp [Utf8.chars, words, callUntilFalse]
  · have h := iterChars_eq (if maxLen ≤ 0 then defaultMaxLen else maxLen.toNat) fn (Utf8.chars data) [] 0
    simp only [keep_nil, List.isEmpty_nil, Bool.not_true, List.nil_append, modifyHead_id] at h
    rw [List.take_zero, h]
    rfl

end Calls

/-- The word `aéb` with a budget of two bytes: `é` takes two and is passed over, but `b`
still fits, so the one term a collecting callback gets is `ab`, which does not begin the
lower-cased word. -/
theorem iterTokens_keeps_char_after_skipped_one :
    let data : Bytes := [0x61, 0xC3, 0xA9, 0x62]
    (Id.run ((iterTokens (m := StateM (List (Bytes × Nat))) data [] 2
        (fun t o => do modify (· ++ [(t, o)]); pure true)).run [])).2 = [(Bytes.ofString "ab", 0)] ∧
    (Bytes.ofString "ab").isPrefixOf (Utf8.encodeAll ((Utf8.chars data).map Unicode.toLower)) = false := by
  decide +kernel

/-- A callback that collects every term, as text, with its offset and always goes on,
collects the terms in order. -/
theorem callUntilFalse_collect {fn : Bytes → Nat → StateM (List (String × Nat)) Bool}
    (hfn : ∀ t o acc, (fn t o).run acc = (true, acc ++ [(Bytes.toUtf8 t, o)]))
    (l : List (Bytes × Nat)) (acc : List (String × Nat)) :
    (callUntilFalse fn l).run acc = ((), acc ++ l.map fun p => (Bytes.toUtf8 p.1, p.2)) := by
  induction l generalizing acc with
  | nil =>
    rw [List.map_nil, List.append_nil]
    rfl
  | cons p l ih =>
    simp only [callUntilFalse, StateT.run_bind, hfn]
    exact (ih _).trans (by simp)

/-- The tokens of a text are the terms a collecting callback is given. -/
theorem tokens_eq_collected (text : Bytes) (maxLen : Nat) :
    (iterTokens (m := StateM (List (String × Nat))) text [] maxLen
        (fun t o => do modify (· ++ [(Bytes.toUtf8 t, o)]); pure true)).run [] =
      ((), tokens text maxLen) := by
  rw [iterTokens_calls, callUntilFalse_collect, tokens_eq]
  swap
  · intro t o acc
    rfl
  simp [termOf, Function.comp_def]

/-! ## What a term keeps of its word -/

/-- The longest run of characters from the start of `cs` whose encoding fits in `room`
bytes. -/
def fitPrefix (room : Nat) : List Char → List Char
  | [] => []
  | c :: cs =>
    if (Utf8.encode c).length ≤ room then c :: fitPrefix (room - (Utf8.encode c).length) cs else []

theorem fitPrefix_prefix (room : Nat) (cs : List Char) : fitPrefix room cs <+: cs := by
  induction cs generalizing room with
  | nil => exact List.prefix_refl _
  | cons c cs ih =>
    rw [fitPrefix]
    split
    · exact List.cons_prefix_cons.2 ⟨rfl, ih _⟩
    · exact List.nil_prefix

theorem length_encodeAll_fitPrefix (room : Nat) (cs : List Char) :
    (Utf8.encodeAll (fitPrefix room cs)).length ≤ room := by
  induction cs generalizing room with
  | nil => simp [fitPrefix, Utf8.encodeAll]
  | cons c cs ih =>
    rw [fitPrefix]
    split
    · have := ih (room - (Utf8.encode c).length)
      simp only [Utf8.encodeAll, List.flatMap_cons, List.length_append] at this ⊢
      omega
    · simp [Utf8.encodeAll]

/-- Every prefix that fits is a prefix of `fitPrefix`: it is the longest. -/
theorem prefix_fitPrefix {room : Nat} {p cs : List Char} (hp : p <+: cs)
    (hfit : (Utf8.encodeAll p).length ≤ room) : p <+: fitPrefix room cs := by
  induction cs generalizing room p with
  | nil =>
    rw [List.prefix_nil.1 hp]
    exact List.nil_prefix
  | cons c cs ih =>
    cases p with
    | nil => exact List.nil_prefix
    | cons d p =>
      obtain ⟨rfl, hp'⟩ := List.cons_prefix_cons.1 hp
      simp only [Utf8.encodeAll, List.flatMap_cons, List.length_append] at hfit
      have hc : (Utf8.encode d).length ≤ room := by omega
      have hrest : (Utf8.encodeAll p).length ≤ room - (Utf8.encode d).length := by
        simp only [Utf8.encodeAll]
        omega
      rw [fitPrefix, if_pos hc]
      exact List.cons_prefix_cons.2 ⟨rfl, ih hp' hrest⟩

/-- Building a term only ever appends to it. -/
theorem prefix_keepChar (maxLen : Nat) (t : Bytes) (c : Char) : t <+: keepChar maxLen t c := by
  dsimp only [keepChar]
  split
  · exact List.prefix_append _ _
  · exact List.prefix_refl _

theorem prefix_foldl_keepChar (maxLen : Nat) (w : List Char) (t : Bytes) :
    t <+: w.foldl (keepChar maxLen) t := by
  induction w generalizing t with
  | nil => exact List.prefix_refl _
  | cons c w ih => exact (prefix_keepChar maxLen t c).trans (ih _)

/-- The bytes kept of a word begin with its longest lower-cased prefix that fits. -/
theorem fitPrefix_prefix_foldl (maxLen : Nat) (w : List Char) (t : Bytes) (ht : t.length ≤ maxLen) :
    t ++ Utf8.encodeAll (fitPrefix (maxLen - t.length) (w.map Unicode.toLower)) <+:
      w.foldl (keepChar maxLen) t := by
  induction w generalizing t with
  | nil => simp [fitPrefix, Utf8.encodeAll]
  | cons c w ih =>
    rw [List.map_cons, fitPrefix, List.foldl_cons]
    split
    · -- the character fits, and the term goes on from it
      rename_i hfit
      have hkeep : keepChar maxLen t c = t ++ Utf8.encode (Unicode.toLower c) := by
        unfold keepChar
        rw [if_pos (by omega)]
      have := ih (t ++ Utf8.encode (Unicode.toLower c)) (by simp; omega)
      rw [hkeep]
      simpa [Utf8.encodeAll, Nat.sub_sub] using this
    · simpa [Utf8.encodeAll] using (prefix_keepChar maxLen t c).trans (prefix_foldl_keepChar maxLen w _)

theorem fitPrefix_prefix_keep (maxLen : Nat) (w : List Char) :
    Utf8.encodeAll (fitPrefix maxLen (w.map Unicode.toLower)) <+: keep maxLen w := by
  simpa [keep] using fitPrefix_prefix_foldl maxLen w [] (Nat.zero_le _)

/-- When no character of the rest fits, the term stays as it is. -/
theorem foldl_keepChar_of_none_fits (maxLen : Nat) (w : List Char) (t : Bytes)
    (h : ∀ c ∈ w, maxLen < t.length + (Utf8.encode (Unicode.toLower c)).length) :
    w.foldl (keepChar maxLen) t = t := by
  induction w with
  | nil => rfl
  | cons c w ih =>
    have hc := h c List.mem_cons_self
    rw [List.foldl_cons, keepChar, if_neg (by omega)]
    exact ih fun d hd => h d (List.mem_cons_of_mem _ hd)

/-- A word whose lower-cased characters all take the same number of bytes, such as a word
of ASCII, keeps exactly its longest lower-cased prefix that fits. -/
theorem keep_eq_fitPrefix_of_width {maxLen k : Nat} {w : List Char}
    (hw : ∀ c ∈ w, (Utf8.encode (Unicode.toLower c)).length = k) :
    keep maxLen w = Utf8.encodeAll (fitPrefix maxLen (w.map Unicode.toLower)) := by
  suffices h : ∀ t : Bytes, t.length ≤ maxLen →
      w.foldl (keepChar maxLen) t = t ++ Utf8.encodeAll (fitPrefix (maxLen - t.length) (w.map Unicode.toLower)) by
    simpa [keep] using h [] (Nat.zero_le _)
  induction w with
  | nil => simp [fitPrefix, Utf8.encodeAll]
  | cons c w ih =>
    intro t ht
    have hc := hw c List.mem_cons_self
    rw [List.map_cons, fitPrefix, List.foldl_cons]
    by_cases hfit : (Utf8.encode (Unicode.toLower c)).length ≤ maxLen - t.length
    · -- the character fits, and the term goes on from it
      rw [if_pos hfit, keepChar, if_pos (by omega),
        ih (fun d hd => hw d (List.mem_cons_of_mem _ hd)) _ (by simp; omega)]
      simp [Utf8.encodeAll, Nat.sub_sub]
    · -- no later character, of the same width, fits either
      rw [if_neg hfit, keepChar, if_neg (by omega), foldl_keepChar_of_none_fits]
      · simp [Utf8.encodeAll]
      · intro d hd
        rw [hw d (List.mem_cons_of_mem _ hd)]
        omega

end EdgeQuery.Tokenizer
