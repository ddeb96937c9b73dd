import Mathlib
import EdgeQuery.Terms.Phrases
import EdgeQuery.Proofs.PrintedReadBack
/-! # The written form of phrase indexes

Phrase indexes travel from the phrase functions to the excerpt transform as text: the fields
with positions, separated by `/`, each followed by its positions as `:record,start,end`, with
the reserved characters of field names and record ids escaped. This module shows that
`PhraseIndexes.parse` reads back what `PhraseIndexes.render` writes, for phrase indexes whose
fields are named and whose positions are in order and fit 64 bits
(`PhraseIndexes.Readable`): each field gets the positions of its groups
(`positions_parse_render`). Indexes recorded hit by hit with `add` keep one group per field,
so reading their written form back gives every field exactly its positions, in order
(`positions_parse_render_of_built`).

The text is read level by level. The groups are joined by `/` and the items of a group by
`:`, and no piece holds the separator of its level, so `List.splitOn` gives the pieces back
(`List.splitOn_intercalate`); escaping is undone by `unescape` (`unescape_escape`), and the
offsets are decimal numbers, with a minus sign when negative, that `atoi` reads back
(`Read.atoi_toString_of_range`). Reading a position records it with `add`, which keeps a
position in order as it is (`positions_add`). -/

namespace EdgeQuery

/-- A fold whose every step succeeds succeeds with the plain fold. -/
theorem foldlM_eq_ok {α β ε : Type} {f : β → α → Except ε β} (g : β → α → β) :
    ∀ {l : List α} {init : β}, (∀ b, ∀ a ∈ l, f b a = .ok (g b a)) →
      l.foldlM f init = .ok (l.foldl g init)
  | [], _, _ => rfl
  | a :: l, init, h => by
    rw [List.foldlM_cons, h init a List.mem_cons_self]
    exact foldlM_eq_ok g fun b x hx => h b x (List.mem_cons_of_mem a hx)

/-! ## Decimal offsets -/

namespace Read

/-- `atoi` and `parseInt` read the same numbers; they differ only in how a failure is
reported. -/
theorem atoi_eq_ok_iff {s : String} {n : Int} : atoi s = .ok n ↔ parseInt s = .ok n := by
  simp only [atoi, parseInt, int64]
  split_ifs <;> simp

/-- The decimal text of an integer: a minus sign before a negative one, then the digits of
its magnitude. -/
theorem toString_eq_signedText (n : Int) :
    toString n = Query.Grammar.signedText (decide (n < 0))
      (String.ofList (Numeral.ofNat n.natAbs).chars) := by
  apply String.toList_inj.1
  rw [Query.intText_toList]
  by_cases h : n < 0 <;> simp [Query.Grammar.signedText, h]

/-- An integer of 64 bits written in decimal reads back. -/
theorem atoi_toString_of_range {n : Int} (hlo : -Int.pow 2 63 ≤ n) (hhi : n < Int.pow 2 63) :
    atoi (toString n) = .ok n := by
  have hdigits : Numeral.IsDigits (String.ofList (Numeral.ofNat n.natAbs).chars).toList := by
    simpa [Numeral.ofNat, Numeral.chars, Numeral.fractionChars, Numeral.exponentChars]
      using (Numeral.wellFormed_ofNat n.natAbs).whole
  have hvalue : digitsValue (String.ofList (Numeral.ofNat n.natAbs).chars).toList = n.natAbs := by
    simpa [Numeral.ofNat, Numeral.chars, Numeral.fractionChars, Numeral.exponentChars]
      using Query.Grammar.digitsValue_toDigits n.natAbs
  rw [atoi_eq_ok_iff, toString_eq_signedText]
  refine (Query.Grammar.parseInt_signedText _ hdigits n).2 ⟨?_, hlo, hhi⟩
  rw [hvalue]
  -- the sign read back is the sign written
  by_cases h : n < 0
  · simp only [h, decide_true, if_true]
    omega
  · simp only [h, decide_false, Bool.false_eq_true, if_false]
    omega

/-- A whole number below `2^63` written in decimal reads back. -/
theorem atoi_toString {n : Int} (h0 : 0 ≤ n) (h : n < Int.pow 2 63) : atoi (toString n) = .ok n := by
  have h63 : Int.pow 2 63 = 9223372036854775808 := by decide
  exact atoi_toString_of_range (by omega) h

/-- The bytes of the decimal text of an integer are a minus sign and ASCII digits. -/
theorem byte_of_mem_toString {n : Int} {b : UInt8} (hb : b ∈ Bytes.ofString (toString n)) :
    b = 45 ∨ (48 ≤ b.toNat ∧ b.toNat ≤ 57) := by
  have hchars : ∀ c ∈ (toString n).toList, c = '-' ∨ isDigit c = true := by
    intro c hc
    rw [Query.intText_toList] at hc
    rcases List.mem_append.1 hc with hc | hc
    · left
      split at hc <;> simp_all
    · right
      have hw := (Numeral.wellFormed_ofNat n.natAbs).whole
      simp only [Numeral.ofNat, Numeral.chars, Numeral.fractionChars, Numeral.exponentChars,
        List.append_nil] at hc hw
      exact hw.2 c hc
  have hascii : ∀ c ∈ (toString n).toList, c.toNat < 128 := fun c hc => by
    rcases hchars c hc with rfl | hd
    · decide
    · have := (isDigit_iff c).1 hd
      omega
  rw [← String.ofList_toList (s := toString n), Base64.ofString_ofList_ascii hascii] at hb
  obtain ⟨c, hc, rfl⟩ := List.mem_map.1 hb
  -- a character below 128 is its own byte
  have hc' : (Bytes.ofChar c).toNat = c.toNat := by
    simp [Bytes.ofChar, Nat.mod_eq_of_lt (by have := hascii c hc; omega : c.toNat < 256)]
  rcases hchars c hc with rfl | hd
  · left
    decide
  · right
    have := (isDigit_iff c).1 hd
    omega

end Read

namespace PhraseIndexes

/-! ## Escaping -/

/-- The bytes of `%`, `:`, `,` and `/`. -/
theorem ofChar_reserved :
    Bytes.ofChar '%' = 37 ∧ Bytes.ofChar ':' = 58 ∧ Bytes.ofChar ',' = 44 ∧ Bytes.ofChar '/' = 47 := by
  decide

/-- A reserved byte is written as `%` and two characters; every other byte as itself. -/
theorem escape_single (c : UInt8) :
    escape [c] =
      if c = 37 then [37, 50, 53] else if c = 58 then [37, 51, 65]
      else if c = 44 then [37, 50, 67] else if c = 47 then [37, 50, 70] else [c] := by
  obtain ⟨h37, h58, h44, h47⟩ := ofChar_reserved
  have h25 : Bytes.ofString "%25" = [37, 50, 53] := by decide +kernel
  have h3A : Bytes.ofString "%3A" = [37, 51, 65] := by decide +kernel
  have h2C : Bytes.ofString "%2C" = [37, 50, 67] := by decide +kernel
  have h2F : Bytes.ofString "%2F" = [37, 50, 70] := by decide +kernel
  simp [escape, h37, h58, h44, h47, h25, h3A, h2C, h2F]

theorem escape_cons (c : UInt8) (b : Bytes) : escape (c :: b) = escape [c] ++ escape b := by
  simp [escape]

/-- Escaped text holds none of the separators `:`, `,` and `/`. -/
theorem not_separator_of_mem_escape {b : Bytes} {x : UInt8} (hx : x ∈ escape b) :
    x ≠ 58 ∧ x ≠ 44 ∧ x ≠ 47 := by
  induction b with
  | nil => simp [escape] at hx
  | cons c b ih =>
    rw [escape_cons, List.mem_append] at hx
    rcases hx with hx | hx
    · rw [escape_single] at hx
      split_ifs at hx with h1 h2 h3 h4 <;> simp only [List.mem_cons, List.not_mem_nil, or_false] at hx
      all_goals first
        | (rcases hx with rfl | rfl | rfl <;> decide)
        | (subst hx; exact ⟨h2, h3, h4⟩)
    · exact ih hx

/-- A byte other than `%` is read as itself. -/
theorem unescape_cons_of_ne {c : UInt8} (hc : c ≠ 37) (rest : Bytes) :
    unescape (c :: rest) = c :: unescape rest := by
  rw [unescape.eq_def]
  split <;> simp_all

theorem unescape_escape_append (b rest : Bytes) : unescape (escape b ++ rest) = b ++ unescape rest := by
  obtain ⟨h37, h58, h44, h47⟩ := ofChar_reserved
  induction b with
  | nil => rfl
  | cons c b ih =>
    rw [escape_cons, List.append_assoc, escape_single]
    -- a reserved byte comes back from its `%` form, any other byte as itself
    split_ifs with h1 h2 h3 h4
    · subst h1; simp [unescape, ih, h37]
    · subst h2; simp [unescape, ih, h58]
    · subst h3; simp [unescape, ih, h44]
    · subst h4; simp [unescape, ih, h47]
    · rw [List.singleton_append, unescape_cons_of_ne h1, ih, List.cons_append]

/-- `unescape` undoes `escape`. -/
theorem unescape_escape (b : Bytes) : unescape (escape b) = b := by
  have h := unescape_escape_append b []
  rwa [List.append_nil, show unescape [] = [] from rfl, List.append_nil] at h

theorem escape_ne_nil {b : Bytes} (hb : b ≠ []) : escape b ≠ [] := by
  intro h
  apply hb
  rw [← unescape_escape b, h]
  rfl

/-! ## Recording positions -/

/-- Recording a hit adds it, in order, to the positions of its field and of no other. -/
theorem positions_add (p : PhraseIndexes) (field record : Bytes) (start stop : Int) (f : Bytes) :
    (p.add field record start stop).positions f =
      p.positions f ++
        if f = field then [if start > stop then ⟨record, stop, start⟩ else ⟨record, start, stop⟩]
        else [] := by
  unfold add positions
  by_cases hany : p.byField.any (·.1 == field)
  · -- the field is there: its positions get the hit at the end
    simp only [hany, if_true, List.find?_map]
    have hkeep : ((fun g : Bytes × List Position => g.1 == f) ∘ fun (g : Bytes × List Position) =>
        if g.1 == field then (g.1, g.2 ++ [if start > stop then ⟨record, stop, start⟩ else ⟨record, start, stop⟩])
        else g) = fun g => g.1 == f := by
      funext g
      simp only [Function.comp_apply]
      split <;> rfl
    simp only [hkeep]
    cases hfind : p.byField.find? (·.1 == f) with
    | none =>
      have hne : f ≠ field := by
        rintro rfl
        obtain ⟨g, hg, hgf⟩ := List.any_eq_true.1 hany
        exact absurd hgf (by simpa using List.find?_eq_none.1 hfind g hg)
      simp [hne]
    | some g =>
      have hgf : g.1 = f := by simpa using List.find?_some hfind
      subst hgf
      by_cases hg : g.1 = field <;> simp [hg]
  · -- a new field: its positions are the hit alone
    simp only [hany, Bool.false_eq_true, if_false, List.find?_append]
    have hnone : p.byField.find? (·.1 == field) = none := by
      rw [List.find?_eq_none]
      intro g hg hgf
      exact hany (List.any_eq_true.2 ⟨g, hg, hgf⟩)
    by_cases hf : f = field
    · subst hf
      simp [hnone]
    · have hf' : (field == f) = false := by simpa using Ne.symm hf
      simp [hf, hf']

/-- Recording positions in order, one at a time, appends them to their field. -/
theorem positions_foldl_add (field : Bytes) (f : Bytes) :
    ∀ (ps : List Position) (q : PhraseIndexes), (∀ pos ∈ ps, pos.start ≤ pos.stop) →
      (ps.foldl (fun q pos => q.add field pos.record pos.start pos.stop) q).positions f =
        q.positions f ++ if f = field then ps else []
  | [], q, _ => by simp
  | pos :: ps, q, hps => by
    rw [List.foldl_cons, positions_foldl_add field f ps _ fun x hx => hps x (List.mem_cons_of_mem _ hx),
      positions_add]
    have hle : ¬ pos.start > pos.stop := by have := hps pos List.mem_cons_self; omega
    by_cases hf : f = field <;> simp [hf, hle]

/-- A position of a field comes from an entry of that field. -/
theorem mem_byField_of_mem_positions {p : PhraseIndexes} {f : Bytes} {pos : Position}
    (h : pos ∈ p.positions f) : ∃ g ∈ p.byField, g.1 = f ∧ pos ∈ g.2 := by
  unfold positions at h
  cases hfind : p.byField.find? (·.1 == f) with
  | none => simp [hfind] at h
  | some g =>
    simp only [hfind, Option.map_some, Option.getD_some] at h
    exact ⟨g, List.mem_of_find?_eq_some hfind, by simpa using List.find?_some hfind, h⟩

/-- A field with a position is among the written fields. -/
theorem mem_fields_of_mem_positions {p : PhraseIndexes} {f : Bytes} {pos : Position}
    (h : pos ∈ p.positions f) : f ∈ p.fields := by
  obtain ⟨g, hg, rfl, hpos⟩ := mem_byField_of_mem_positions h
  rw [fields, List.mem_mergeSort]
  refine List.mem_map.2 ⟨g, List.mem_filter.2 ⟨hg, ?_⟩, rfl⟩
  simpa [List.isEmpty_iff] using List.ne_nil_of_mem hpos

/-! ## The written form, piece by piece -/

/-- Phrase indexes that their written form carries: every field is named, and every position
is in order, from offset zero, and fits 64 bits. -/
structure Writable (p : PhraseIndexes) : Prop where
  named : ∀ g ∈ p.byField, g.1 ≠ []
  ordered : ∀ g ∈ p.byField, ∀ pos ∈ g.2,
    0 ≤ pos.start ∧ pos.start ≤ pos.stop ∧ pos.stop < Int.pow 2 63

/-- Phrase indexes that their written form reads back as: every field is named, and every
position is in order and fits 64 bits, negative offsets included. -/
structure Readable (p : PhraseIndexes) : Prop where
  named : ∀ g ∈ p.byField, g.1 ≠ []
  ordered : ∀ g ∈ p.byField, ∀ pos ∈ g.2,
    -Int.pow 2 63 ≤ pos.start ∧ pos.start ≤ pos.stop ∧ pos.stop < Int.pow 2 63

theorem Writable.readable {p : PhraseIndexes} (hp : p.Writable) : p.Readable := by
  have h63 : Int.pow 2 63 = 9223372036854775808 := by decide
  refine ⟨hp.named, fun g hg pos hpos => ?_⟩
  have := hp.ordered g hg pos hpos
  omega

/-- The written form of one position, after its `:`. -/
def positionText (pos : Position) : Bytes :=
  [Bytes.ofChar ','].intercalate
    [escape pos.record, Bytes.ofString (toString pos.start), Bytes.ofString (toString pos.stop)]

/-- The written form of a field with its positions. -/
def groupText (p : PhraseIndexes) (f : Bytes) : Bytes :=
  [Bytes.ofChar ':'].intercalate (escape f :: (p.positions f).map positionText)

theorem append_flatMap_eq_intercalate {α : Type} (sep : List UInt8) (g : α → List UInt8) :
    ∀ (a : List UInt8) (xs : List α), a ++ xs.flatMap (fun x => sep ++ g x) = sep.intercalate (a :: xs.map g)
  | a, [] => by simp
  | a, x :: xs => by
    rw [List.flatMap_cons, List.map_cons, List.intercalate_cons_cons, ← append_flatMap_eq_intercalate sep g (g x) xs]
    simp

theorem joinWith_eq_intercalate (sep : Bytes) : ∀ xs : List Bytes, Bytes.joinWith sep xs = sep.intercalate xs
  | [] => rfl
  | [x] => by simp [Bytes.joinWith]
  | x :: y :: rest => by
    simp only [Bytes.joinWith, joinWith_eq_intercalate sep (y :: rest), List.intercalate_cons_cons]

/-- The written form joins the groups of the fields with `/`. -/
theorem render_eq (p : PhraseIndexes) :
    render p = [Bytes.ofChar '/'].intercalate (p.fields.map p.groupText) := by
  rw [render, joinWith_eq_intercalate]
  congr 2
  funext f
  rw [groupText, ← append_flatMap_eq_intercalate]
  congr 2
  funext pos
  simp [positionText]

/-! ## Reading the written form back -/

theorem intercalate_cons_ne_nil {sep a : Bytes} (ha : a ≠ []) (l : List Bytes) :
    sep.intercalate (a :: l) ≠ [] := by
  cases l with
  | nil => simpa using ha
  | cons b l => simp [ha]

/-- The decimal text of an integer holds none of the separators. -/
theorem not_separator_of_mem_toString (n : Int) {x : UInt8}
    (hx : x ∈ Bytes.ofString (toString n)) : x ≠ 58 ∧ x ≠ 44 ∧ x ≠ 47 := by
  rcases Read.byte_of_mem_toString hx with rfl | hd
  · decide
  · refine ⟨?_, ?_, ?_⟩ <;> rintro rfl <;> revert hd <;> decide

variable {p : PhraseIndexes}

theorem ne_nil_of_mem_fields (hp : p.Readable) {f : Bytes} (hf : f ∈ p.fields) : f ≠ [] := by
  rw [fields, List.mem_mergeSort] at hf
  obtain ⟨g, hg, rfl⟩ := List.mem_map.1 hf
  exact hp.named g (List.mem_filter.1 hg).1

theorem ordered_of_mem_positions (hp : p.Writable) {f : Bytes} {pos : Position}
    (h : pos ∈ p.positions f) : 0 ≤ pos.start ∧ pos.start ≤ pos.stop ∧ pos.stop < Int.pow 2 63 := by
  obtain ⟨g, hg, -, hpos⟩ := mem_byField_of_mem_positions h
  exact hp.ordered g hg pos hpos

theorem Readable.bounds_of_mem_positions (hp : p.Readable) {f : Bytes} {pos : Position}
    (h : pos ∈ p.positions f) :
    -Int.pow 2 63 ≤ pos.start ∧ pos.start ≤ pos.stop ∧ pos.stop < Int.pow 2 63 := by
  obtain ⟨g, hg, -, hpos⟩ := mem_byField_of_mem_positions h
  exact hp.ordered g hg pos hpos

/-- A position with offsets of 64 bits reads back as the hit it records. -/
theorem parsePosition_positionText (q : PhraseIndexes) (field : Bytes) {pos : Position}
    (h0 : -Int.pow 2 63 ≤ pos.start) (h1 : -Int.pow 2 63 ≤ pos.stop) (hs : pos.start < Int.pow 2 63)
    (he : pos.stop < Int.pow 2 63) :
    q.parsePosition field (positionText pos) = .ok (q.add field pos.record pos.start pos.stop) := by
  obtain ⟨-, -, h44, -⟩ := ofChar_reserved
  have hsplit : Bytes.splitOn (positionText pos) (Bytes.ofChar ',') =
      [escape pos.record, Bytes.ofString (toString pos.start), Bytes.ofString (toString pos.stop)] := by
    rw [Bytes.splitOn, positionText]
    apply List.splitOn_intercalate _ _ (by simp)
    -- no piece holds a comma
    intro l hl hmem
    rw [h44] at hmem
    simp only [List.mem_cons, List.not_mem_nil, or_false] at hl
    rcases hl with rfl | rfl | rfl
    · exact (not_separator_of_mem_escape hmem).2.1 rfl
    · exact (not_separator_of_mem_toString _ hmem).2.1 rfl
    · exact (not_separator_of_mem_toString _ hmem).2.1 rfl
  rw [parsePosition, hsplit]
  simp only [Bytes.toUtf8_ofString, Read.atoi_toString_of_range h0 hs,
    Read.atoi_toString_of_range h1 he, unescape_escape]

/-- A byte of joined pieces is a byte of the separator or of a piece. -/
theorem mem_intercalate {sep : Bytes} {x : UInt8} :
    ∀ {l : List Bytes}, x ∈ sep.intercalate l → x ∈ sep ∨ ∃ b ∈ l, x ∈ b
  | [], h => by simp at h
  | [a], h => Or.inr ⟨a, List.mem_singleton_self a, by simpa using h⟩
  | a :: b :: l, h => by
    rw [List.intercalate_cons_cons, List.mem_append, List.mem_append] at h
    rcases h with (h | h) | h
    · exact Or.inr ⟨a, List.mem_cons_self, h⟩
    · exact Or.inl h
    · rcases mem_intercalate h with h | ⟨c, hc, hx⟩
      · exact Or.inl h
      · exact Or.inr ⟨c, List.mem_cons_of_mem a hc, hx⟩

/-- A written position holds neither a colon nor a slash. -/
theorem not_separator_of_mem_positionText {pos : Position} {x : UInt8} (hx : x ∈ positionText pos) :
    x ≠ 58 ∧ x ≠ 47 := by
  obtain ⟨-, -, h44, -⟩ := ofChar_reserved
  rw [positionText, h44] at hx
  rcases mem_intercalate hx with hx | ⟨b, hb, hx⟩
  · rw [List.mem_singleton.1 hx]
    decide
  · simp only [List.mem_cons, List.not_mem_nil, or_false] at hb
    rcases hb with rfl | rfl | rfl
    · exact ⟨(not_separator_of_mem_escape hx).1, (not_separator_of_mem_escape hx).2.2⟩
    · exact ⟨(not_separator_of_mem_toString _ hx).1, (not_separator_of_mem_toString _ hx).2.2⟩
    · exact ⟨(not_separator_of_mem_toString _ hx).1, (not_separator_of_mem_toString _ hx).2.2⟩

/-- A byte of a group is a colon, a byte of its escaped field, or a byte of a written
position. -/
theorem not_separator_of_mem_groupText {f : Bytes} {x : UInt8} (hx : x ∈ p.groupText f) :
    x = 58 ∨ (x ≠ 58 ∧ x ≠ 47) := by
  obtain ⟨-, h58, -, -⟩ := ofChar_reserved
  rw [groupText, h58] at hx
  rcases mem_intercalate hx with hx | ⟨b, hb, hx⟩
  · exact Or.inl (List.mem_singleton.1 hx)
  · rcases List.mem_cons.1 hb with rfl | hb
    · exact Or.inr ⟨(not_separator_of_mem_escape hx).1, (not_separator_of_mem_escape hx).2.2⟩
    · obtain ⟨pos, -, rfl⟩ := List.mem_map.1 hb
      exact Or.inr (not_separator_of_mem_positionText hx)

/-- The items of a group are its escaped field and its positions. -/
theorem splitOn_groupText (f : Bytes) :
    Bytes.splitOn (p.groupText f) (Bytes.ofChar ':') = escape f :: (p.positions f).map positionText := by
  obtain ⟨-, h58, -, -⟩ := ofChar_reserved
  rw [Bytes.splitOn, groupText]
  apply List.splitOn_intercalate _ _ (by simp)
  -- no piece holds a colon
  intro l hl hmem
  rw [h58] at hmem
  rcases List.mem_cons.1 hl with rfl | hl
  · exact (not_separator_of_mem_escape hmem).1 rfl
  · obtain ⟨pos, -, rfl⟩ := List.mem_map.1 hl
    exact (not_separator_of_mem_positionText hmem).1 rfl

/-- No group holds a slash. -/
theorem slash_not_mem_groupText (f : Bytes) : Bytes.ofChar '/' ∉ p.groupText f := by
  obtain ⟨-, -, -, h47⟩ := ofChar_reserved
  rw [h47]
  intro hmem
  rcases not_separator_of_mem_groupText hmem with h | h
  · exact absurd h (by decide)
  · exact h.2 rfl

/-- Reading the written form records every position of every written field, in order. -/
theorem parse_render (hp : p.Readable) :
    parse (render p) = .ok (p.fields.foldl
      (fun q f => (p.positions f).foldl (fun q pos => q.add f pos.record pos.start pos.stop) q) {}) := by
  cases hfields : p.fields with
  | nil => rw [render_eq, hfields]; rfl
  | cons f0 fs =>
    have hf0 : f0 ≠ [] := ne_nil_of_mem_fields hp (by rw [hfields]; exact List.mem_cons_self)
    have hne : render p ≠ [] := by
      rw [render_eq, hfields, List.map_cons]
      exact intercalate_cons_ne_nil (intercalate_cons_ne_nil (escape_ne_nil hf0) _) _
    have hgroups : Bytes.splitOn (render p) (Bytes.ofChar '/') = p.fields.map p.groupText := by
      rw [render_eq, Bytes.splitOn]
      apply List.splitOn_intercalate _ _ (by simp [hfields])
      intro l hl
      obtain ⟨f, -, rfl⟩ := List.mem_map.1 hl
      exact slash_not_mem_groupText f
    rw [parse, if_neg (by simpa using hne), hgroups, ← hfields, List.foldlM_map]
    apply foldlM_eq_ok
    intro q f hf
    simp only [splitOn_groupText f, unescape_escape]
    rw [if_neg (by simpa using ne_nil_of_mem_fields hp hf), List.foldlM_map]
    apply foldlM_eq_ok
    intro q' pos hpos
    obtain ⟨h0, hle, he⟩ := hp.bounds_of_mem_positions hpos
    exact parsePosition_positionText q' f h0 (by omega) (by omega) he

/-- The positions of a field after reading written groups one by one: those it had, then
those of each group of that field. -/
theorem positions_foldl_fields (hp : p.Readable) (f : Bytes) :
    ∀ (fs : List Bytes) (q : PhraseIndexes),
      (fs.foldl (fun q g => (p.positions g).foldl
          (fun q pos => q.add g pos.record pos.start pos.stop) q) q).positions f =
        q.positions f ++ fs.flatMap fun g => if f = g then p.positions g else []
  | [], q => by simp
  | g :: fs, q => by
    rw [List.foldl_cons, positions_foldl_fields hp f fs, positions_foldl_add g f _ q
      fun pos hpos => (hp.bounds_of_mem_positions hpos).2.1, List.flatMap_cons, List.append_assoc]

/-- Reading back the written form of readable phrase indexes gives each field the positions
of its groups. -/
theorem positions_parse_render (hp : p.Readable) :
    ∃ q, parse (render p) = .ok q ∧
      ∀ f, q.positions f = p.fields.flatMap fun g => if f = g then p.positions g else [] := by
  refine ⟨_, parse_render hp, fun f => ?_⟩
  rw [positions_foldl_fields hp f]
  rfl

/-- Reading back the written form of phrase indexes gives every field the positions it had. -/
theorem mem_positions_parse_render (hp : p.Writable) :
    ∃ q, parse (render p) = .ok q ∧ ∀ f pos, pos ∈ q.positions f ↔ pos ∈ p.positions f := by
  obtain ⟨q, hparse, hq⟩ := positions_parse_render hp.readable
  refine ⟨q, hparse, fun f pos => ?_⟩
  rw [hq f, List.mem_flatMap]
  constructor
  · rintro ⟨g, -, hg⟩
    split at hg
    · subst f
      exact hg
    · exact absurd hg List.not_mem_nil
  · intro h
    exact ⟨f, mem_fields_of_mem_positions h, by simpa using h⟩

/-! ## Phrase indexes recorded hit by hit

The phrase functions record hits one at a time with `add`, and so does the reader of the
written form. Indexes recorded that way, with named fields and offsets of 64 bits, keep one
entry per field, so reading their written form back gives every field exactly its positions,
in order (`positions_parse_render_of_built`). -/

/-- Phrase indexes recorded from none by `add`, hit by hit, with named fields and offsets of
64 bits. -/
inductive Built : PhraseIndexes → Prop
  | empty : Built {}
  | add {p : PhraseIndexes} {field record : Bytes} {start stop : Int} :
      Built p → field ≠ [] → -Int.pow 2 63 ≤ start → start < Int.pow 2 63 →
      -Int.pow 2 63 ≤ stop → stop < Int.pow 2 63 → Built (p.add field record start stop)

/-- What recording keeps: the indexes are readable, and each field has one entry. -/
structure Recorded (p : PhraseIndexes) : Prop where
  readable : p.Readable
  distinct : (p.byField.map (·.1)).Nodup

theorem recorded_empty : ({} : PhraseIndexes).Recorded :=
  ⟨⟨by simp, by simp⟩, List.nodup_nil⟩

/-- The entries after a hit of a field already there: the field's entry gets the hit at the
end, and the others stay. -/
theorem mem_byField_add_of_any {field record : Bytes} {start stop : Int}
    (hany : p.byField.any (·.1 == field) = true) {g : Bytes × List Position}
    (hg : g ∈ (p.add field record start stop).byField) :
    ∃ g' ∈ p.byField, g.1 = g'.1 ∧ ∀ pos ∈ g.2, pos ∈ g'.2 ∨
      pos = if start > stop then ⟨record, stop, start⟩ else ⟨record, start, stop⟩ := by
  simp only [add, hany, if_true, List.mem_map] at hg
  obtain ⟨g', hg', rfl⟩ := hg
  refine ⟨g', hg', ?_, fun pos hpos => ?_⟩
  · split <;> rfl
  · split at hpos
    · simpa using hpos
    · exact Or.inl hpos

/-- One more hit keeps what recording keeps. -/
theorem Recorded.add (hp : p.Recorded) {field record : Bytes} {start stop : Int}
    (hfield : field ≠ []) (hs0 : -Int.pow 2 63 ≤ start) (hs1 : start < Int.pow 2 63)
    (he0 : -Int.pow 2 63 ≤ stop) (he1 : stop < Int.pow 2 63) :
    (p.add field record start stop).Recorded := by
  -- the hit is recorded with its offsets in order
  have hpos : ∀ pos : Position,
      pos = (if start > stop then ⟨record, stop, start⟩ else ⟨record, start, stop⟩ : Position) →
      -Int.pow 2 63 ≤ pos.start ∧ pos.start ≤ pos.stop ∧ pos.stop < Int.pow 2 63 := by
    intro pos hp
    split at hp <;> subst hp <;> dsimp only <;> omega
  by_cases hany : p.byField.any (·.1 == field) = true
  · -- the field's entry gets the hit; the fields stay as they were
    have hnames : (p.add field record start stop).byField.map (·.1) = p.byField.map (·.1) := by
      simp only [PhraseIndexes.add, hany, if_true, List.map_map]
      congr 1
      funext g
      simp only [Function.comp_apply]
      split <;> rfl
    refine ⟨⟨fun g hg => ?_, fun g hg pos hmem => ?_⟩, hnames ▸ hp.distinct⟩
    · obtain ⟨g', hg', hname, -⟩ := mem_byField_add_of_any hany hg
      rw [hname]
      exact hp.readable.named g' hg'
    · obtain ⟨g', hg', -, hg2⟩ := mem_byField_add_of_any hany hg
      rcases hg2 pos hmem with hmem' | rfl
      · exact hp.readable.ordered g' hg' pos hmem'
      · exact hpos _ rfl
  · -- a new field, with the hit alone
    have hnew : field ∉ p.byField.map (·.1) := by
      intro hmem
      obtain ⟨g, hg, rfl⟩ := List.mem_map.1 hmem
      exact hany (List.any_eq_true.2 ⟨g, hg, by simp⟩)
    simp only [PhraseIndexes.add, hany, Bool.false_eq_true, if_false]
    refine ⟨⟨fun g hg => ?_, fun g hg pos hmem => ?_⟩, ?_⟩
    · rcases List.mem_append.1 hg with hg | hg
      · exact hp.readable.named g hg
      · rw [List.mem_singleton.1 hg]
        exact hfield
    · rcases List.mem_append.1 hg with hg | hg
      · exact hp.readable.ordered g hg pos hmem
      · rw [List.mem_singleton.1 hg] at hmem
        exact hpos pos (List.mem_singleton.1 hmem)
    · rw [List.map_append, List.nodup_append]
      refine ⟨hp.distinct, List.nodup_singleton _, fun a ha b hb => ?_⟩
      rw [List.map_singleton, List.mem_singleton] at hb
      subst hb
      rintro rfl
      exact hnew ha

/-- Indexes recorded hit by hit keep what recording keeps. -/
theorem Built.recorded (hp : p.Built) : p.Recorded := by
  induction hp with
  | empty => exact recorded_empty
  | add _ hfield hs0 hs1 he0 he1 ih => exact ih.add hfield hs0 hs1 he0 he1

/-- With one entry per field, each field is written once. -/
theorem Recorded.nodup_fields (hp : p.Recorded) : p.fields.Nodup := by
  rw [fields, (List.mergeSort_perm _ _).nodup_iff]
  exact hp.distinct.sublist ((List.filter_sublist).map _)

/-- A field that is not written has no positions. -/
theorem positions_eq_nil_of_not_mem_fields {f : Bytes} (hf : f ∉ p.fields) : p.positions f = [] :=
  List.eq_nil_iff_forall_not_mem.2 fun _ hpos => hf (mem_fields_of_mem_positions hpos)

/-- Over distinct fields, the groups of one field are its own. -/
theorem flatMap_groups_of_nodup {α : Type} {fs : List Bytes} (hfs : fs.Nodup) (f : Bytes)
    (P : Bytes → List α) :
    (fs.flatMap fun g => if f = g then P g else []) = if f ∈ fs then P f else [] := by
  induction fs with
  | nil => simp
  | cons g gs ih =>
    rw [List.nodup_cons] at hfs
    rw [List.flatMap_cons, ih hfs.2]
    by_cases hfg : f = g
    · -- the field comes here, and not again
      subst hfg
      simp [hfs.1]
    · simp [hfg]

/-- Reading back the written form of phrase indexes recorded hit by hit, with named fields
and offsets of 64 bits, succeeds and gives every field exactly its positions, in order,
whatever bytes the record ids hold. -/
theorem positions_parse_render_of_built (hp : p.Built) :
    ∃ q, parse (render p) = .ok q ∧ ∀ f, q.positions f = p.positions f := by
  have hr := hp.recorded
  obtain ⟨q, hparse, hq⟩ := positions_parse_render hr.readable
  refine ⟨q, hparse, fun f => ?_⟩
  rw [hq f, flatMap_groups_of_nodup hr.nodup_fields]
  split
  · rfl
  · rename_i hf
    exact (positions_eq_nil_of_not_mem_fields hf).symm

/-- Record ids holding every reserved character and an escape-like `%3A`, and negative
offsets given in reverse, read back as recorded. -/
theorem positions_parse_render_reserved_ids :
    let p := ((({} : PhraseIndexes).add (Bytes.ofString "F") (Bytes.ofString "a:b,c/d%3A%") 7 (-9)).add
      (Bytes.ofString "G:/") (Bytes.ofString "%25") (-9223372036854775808) 9223372036854775807).add
      (Bytes.ofString "F") (Bytes.ofString ",") 0 0
    p.Built ∧ ∃ q, parse (render p) = .ok q ∧ ∀ f, q.positions f = p.positions f := by
  intro p
  have h63 : Int.pow 2 63 = 9223372036854775808 := by decide
  have hb : p.Built :=
    .add (.add (.add .empty (by decide +kernel) (by omega) (by omega) (by omega) (by omega))
      (by decide +kernel) (by omega) (by omega) (by omega) (by omega))
      (by decide +kernel) (by omega) (by omega) (by omega) (by omega)
  exact ⟨hb, positions_parse_render_of_built hb⟩

end PhraseIndexes

end EdgeQuery
