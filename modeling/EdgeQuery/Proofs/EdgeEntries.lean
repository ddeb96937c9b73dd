import Mathlib
import EdgeQuery.Edge.Basic
import EdgeQuery.Cli.Codec
import EdgeQuery.Proofs.ExcerptStage
/-! # Edge entries read back

An edge is stored as one entry: its parts are joined into the row, family and qualifier of
the key with a zero byte and slashes, its dates are written as `yyyymmdd`, and its count and
load date are written in a serial form. Reading the entry back undoes each step
(`decode_entry`), as long as the edge fits its entry (`Edge.Storable`) and the serial form
keeps its stored value (`Edge.Keeps`):

* the row is cut at its first zero byte, so the source holds none;
* the family is cut at its first slash, so the type holds none;
* the qualifier must split at its slashes into exactly five parts, so neither the
  attributes nor the date code hold one;
* a date reads back only if it exists and has a year of at most four digits
  (`Date.parse?_render`);
* the zero load date reads as no load date.

The date code is the one exception: an edge without one is written, and so read, as `E`.
The command line's MessagePack form keeps the stored value of every edge that fits, whose
count is a 64-bit integer (`keeps_storedSerial`). -/

namespace EdgeQuery.Date

/-- A date that is written and read back as itself: a day that exists, in a year of at most
four digits. -/
structure Valid (d : Date) : Prop where
  year : d.year ≤ 9999
  month : 1 ≤ d.month ∧ d.month ≤ 12
  day : 1 ≤ d.day ∧ d.day ≤ daysIn d.year d.month

instance : DecidablePred Valid := fun d =>
  decidable_of_iff (d.year ≤ 9999 ∧ (1 ≤ d.month ∧ d.month ≤ 12) ∧ (1 ≤ d.day ∧ d.day ≤ daysIn d.year d.month))
    ⟨fun ⟨h₁, h₂, h₃⟩ => ⟨h₁, h₂, h₃⟩, fun ⟨h₁, h₂, h₃⟩ => ⟨h₁, h₂, h₃⟩⟩

theorem daysIn_le (y m : Nat) : daysIn y m ≤ 31 := by
  unfold daysIn
  split
  · split <;> omega
  all_goals omega

theorem toList_padded (w n : Nat) :
    (padded w n).toList = List.replicate (w - (Nat.toDigits 10 n).length) '0' ++ Nat.toDigits 10 n := by
  simp [padded, ← Nat.toList_repr, String.length_toList]

theorem digits?_eq_some {cs : List Char} (h : ∀ c ∈ cs, c.isDigit = true) :
    digits? cs = some (Nat.ofDigitChars 10 cs 0) := by
  rw [digits?, if_pos (List.all_eq_true.2 h)]
  simp only [Nat.ofDigitChars_eq_foldl, Nat.mul_comm]
  rfl

theorem isDigit_of_mem_padded {w n : Nat} {c : Char} (hc : c ∈ (padded w n).toList) :
    c.isDigit = true := by
  rw [toList_padded] at hc
  rcases List.mem_append.1 hc with hc | hc
  · rw [(List.mem_replicate.1 hc).2]
    rfl
  · exact Nat.isDigit_of_mem_toDigits (by decide) (by decide) hc

/-- A number below `10 ^ w` is written in exactly `w` digits, and they read as the number. -/
theorem digits?_padded {w n : Nat} (hw : 0 < w) (hn : n < Nat.pow 10 w) :
    (padded w n).toList.length = w ∧ digits? (padded w n).toList = some n := by
  have hlen : (Nat.toDigits 10 n).length ≤ w := (Nat.length_toDigits_le_iff (by decide) hw).2 hn
  rw [toList_padded]
  refine ⟨by simp; omega, ?_⟩
  rw [digits?_eq_some fun c hc => isDigit_of_mem_padded (by rwa [toList_padded]),
    Nat.ofDigitChars_append, Nat.ofDigitChars_replicate_zero, Nat.mul_zero, Nat.ofDigitChars_ten_toDigits]

/-- The three numbers of a date that exists are written in four, two and two digits, which
read back as them. -/
theorem padded_fields {d : Date} (hd : d.Valid) :
    ((padded 4 d.year).toList.length = 4 ∧ digits? (padded 4 d.year).toList = some d.year) ∧
      ((padded 2 d.month).toList.length = 2 ∧ digits? (padded 2 d.month).toList = some d.month) ∧
      ((padded 2 d.day).toList.length = 2 ∧ digits? (padded 2 d.day).toList = some d.day) := by
  have hdays := daysIn_le d.year d.month
  have hy := hd.year
  have hm := hd.month
  have hdd := hd.day
  exact ⟨digits?_padded (by decide) (by simp; omega), digits?_padded (by decide) (by simp; omega),
    digits?_padded (by decide) (by simp; omega)⟩

/-- A date that exists reads back from its written form. -/
theorem parse?_render {d : Date} (hd : d.Valid) : parse? d.render = some d := by
  obtain ⟨⟨hly, hvy⟩, ⟨hlm, hvm⟩, ⟨hld, hvd⟩⟩ := padded_fields hd
  have hcs : d.render.toList =
      (padded 4 d.year).toList ++ (padded 2 d.month).toList ++ (padded 2 d.day).toList := by
    simp [render]
  unfold parse?
  simp only [hcs, List.length_append, hly, hlm, hld]
  rw [List.append_assoc, List.take_left' hly, List.drop_left' hly, List.take_left' hlm,
    show 6 = 4 + 2 from rfl, ← List.drop_drop, List.drop_left' hly, List.drop_left' hlm, hvy, hvm, hvd]
  simp [hd.month.1, hd.month.2, hd.day.1, hd.day.2]

/-- A date that exists is written in eight characters. -/
theorem length_render {d : Date} (hd : d.Valid) : d.render.toList.length = 8 := by
  obtain ⟨⟨hy, -⟩, ⟨hm, -⟩, ⟨hd, -⟩⟩ := padded_fields hd
  simp only [render, String.toList_append, List.length_append, hy, hm, hd]

theorem toNat_of_isDigit {c : Char} (h : c.isDigit = true) : 48 ≤ c.toNat ∧ c.toNat ≤ 57 := by
  simp only [Char.isDigit, Bool.and_eq_true, decide_eq_true_eq, UInt32.le_iff_toNat_le] at h
  exact h

theorem isDigit_of_mem_render {d : Date} {c : Char} (hc : c ∈ d.render.toList) : c.isDigit = true := by
  simp only [render, String.toList_append, List.mem_append] at hc
  rcases hc with (hc | hc) | hc <;> exact isDigit_of_mem_padded hc

/-- The written form of a date is ASCII digits, one byte each. -/
theorem ofString_render (d : Date) : Bytes.ofString d.render = d.render.toList.map Bytes.ofChar := by
  rw [← String.ofList_toList (s := d.render), Base64.ofString_ofList_ascii, String.ofList_toList]
  intro c hc
  have h := toNat_of_isDigit (isDigit_of_mem_render hc)
  omega

/-- A date that exists is written in eight bytes. -/
theorem length_ofString_render {d : Date} (hd : d.Valid) : (Bytes.ofString d.render).length = 8 := by
  rw [ofString_render, List.length_map, length_render hd]

end EdgeQuery.Date

namespace EdgeQuery.Edge

open Store Msgpack

/-- A date written in a key or value reads back, when it exists. -/
theorem readDate?_render {d : Date} (hd : d.Valid) : readDate? (Bytes.ofString d.render) = some d := by
  rw [readDate?, Bytes.toUtf8?_ofString, Option.bind_some, Date.parse?_render hd]

/-- No byte of a written date is a slash. -/
theorem slash_not_mem_render (d : Date) : 47 ∉ Bytes.ofString d.render := by
  rw [Date.ofString_render]
  intro h
  obtain ⟨c, hc, hb⟩ := List.mem_map.1 h
  have hdig := Date.toNat_of_isDigit (Date.isDigit_of_mem_render hc)
  have hbyte : (Bytes.ofChar c).toNat = c.toNat := by
    simp [Bytes.ofChar, Nat.mod_eq_of_lt (by omega : c.toNat < 256)]
  rw [hb] at hbyte
  simp at hbyte
  omega

/-- An edge that its entry holds: the separators of the key occur in no part they would
split, the dates exist in years of four digits, a load date is not the zero date, and the
count is a 64-bit integer. -/
structure Storable (e : Edge) : Prop where
  source : 0 ∉ e.source
  edgeType : 47 ∉ e.edgeType
  attribute1 : 47 ∉ e.attribute1
  attribute2 : 47 ∉ e.attribute2
  attribute3 : 47 ∉ e.attribute3
  dateCode : 47 ∉ e.dateCode
  date : e.date.Valid
  loadDate : ∀ d ∈ e.loadDate, d.Valid ∧ d ≠ Date.zero
  count : -Int.pow 2 63 ≤ e.count ∧ e.count < Int.pow 2 63

/-- The date code written, `E` in place of none, holds no slash. -/
theorem slash_not_mem_code {e : Edge} (h : 47 ∉ e.dateCode) : 47 ∉ e.code := by
  unfold Edge.code
  split
  · decide
  · exact h

/-- The key of an edge splits into the edge's parts. -/
theorem splitKey_key {e : Edge} (he : Storable e) :
    splitKey e.key = .ok ⟨e.source, e.sink, e.edgeType, e.relation, Bytes.ofString e.date.render,
      (e.attribute1, e.attribute2, e.attribute3), e.code⟩ := by
  have hrow : row e.source e.sink = e.source ++ 0 :: e.sink := by simp [row]
  have hfamily : family e.edgeType e.relation = e.edgeType ++ 47 :: e.relation := by simp [family]
  have hparts : Bytes.splitOn (Bytes.joinWith [47] [Bytes.ofString e.date.render, e.attribute1,
      e.attribute2, e.attribute3, e.code]) 47 =
      [Bytes.ofString e.date.render, e.attribute1, e.attribute2, e.attribute3, e.code] := by
    rw [Bytes.splitOn, PhraseIndexes.joinWith_eq_intercalate]
    apply List.splitOn_intercalate _ _ (by simp)
    intro l hl
    simp only [List.mem_cons, List.not_mem_nil, or_false] at hl
    rcases hl with rfl | rfl | rfl | rfl | rfl
    · exact slash_not_mem_render _
    · exact he.attribute1
    · exact he.attribute2
    · exact he.attribute3
    · exact slash_not_mem_code he.dateCode
  simp only [splitKey, Edge.key, hrow, Bytes.cut_append he.source, hfamily, Bytes.cut_append he.edgeType, hparts]
  rfl

/-- The load date of an edge that its entry holds is written in eight bytes, which read back
as the date; it is not the zero date. -/
theorem loadDate_reads {e : Edge} (he : Storable e) {d : Date} (hl : e.loadDate = some d) :
    (Bytes.ofString d.render).isEmpty = false ∧ readDate? (Bytes.ofString d.render) = some d ∧
      d.isZero = false := by
  obtain ⟨hvalid, hzero⟩ := he.loadDate d (Option.mem_def.2 hl)
  have hlen := Date.length_ofString_render hvalid
  exact ⟨List.isEmpty_eq_false_iff.2 (List.ne_nil_of_length_eq_add_one hlen), readDate?_render hvalid,
    beq_eq_false_iff_ne.2 hzero⟩

/-- A serial form of stored values keeps a value when it writes it as some bytes, which read
back as the value. An entry with an empty value reads as a count of zero and no load date,
so a value written as nothing would lose its count. -/
structure Keeps (S : Serial Stored) (s : Stored) : Prop where
  nonempty : S.write s ≠ []
  readsBack : S.ReadsBack s

/-- An edge that its entry holds reads back from the entry, except that no date code reads
as `E`, when the serial form of its stored value keeps it. -/
theorem decode_entry {S : Serial Stored} {e : Edge} (hS : Keeps S e.stored) (he : Storable e) :
    decode S (e.entry S) = .ok { e with dateCode := e.code } := by
  have hne : (S.write e.stored).isEmpty = false := List.isEmpty_eq_false_iff.2 hS.nonempty
  have hread : S.read (S.write e.stored) = .ok e.stored := hS.readsBack
  unfold decode
  simp only [Edge.entry, splitKey_key he, hne, hread, bind, Except.bind,
    readDate?_render he.date, Except.mapError, Bool.false_eq_true, if_false]
  simp only [Edge.key, Edge.stored]
  rcases Option.eq_none_or_eq_some e.loadDate with hl | ⟨d, hl⟩
  · -- no load date is written, so none is read
    simp only [hl, Option.map_none, Option.getD_none, List.isEmpty_nil, if_true]
    rfl
  · -- the load date is written, and reads back as itself as it is not the zero date
    obtain ⟨hwritten, hdate, hzero⟩ := loadDate_reads he hl
    simp only [hl, Option.map_some, Option.getD_some, hwritten, hdate, hzero, Bool.false_eq_true, if_false]
    rfl

/-! ## The MessagePack form -/

/-- The MessagePack form of the stored value of an edge that its entry holds reads back. -/
theorem readStored_value {e : Edge} (he : Storable e) : Reads readStored (encode e.stored.toValue) e.stored := by
  -- the fields written, each with its bytes and its change to the value read so far
  let entries : List (String × Bytes × (Stored → Stored)) :=
    ("c", encodeInt e.count, fun s => { s with count := e.count }) ::
      e.loadDate.toList.map fun d =>
        ("l", encode (.str (Bytes.ofString d.render)), fun s => { s with loadDate := Bytes.ofString d.render })
  have henc : encode e.stored.toValue =
      lengthHeader 0x80 15 (none, 0xde, 0xdf) entries.length ++
        entries.flatMap fun e => encode (.str (Bytes.ofString e.1)) ++ e.2.1 := by
    cases hl : e.loadDate with
    | none => simp [Stored.toValue, stored, encode, encodePairs, entries, hl]
    | some d =>
      -- a load date is written in eight bytes, so it is written
      have hlen := Date.length_ofString_render (he.loadDate d (Option.mem_def.2 hl)).1
      have hne : (Bytes.ofString d.render).isEmpty = false :=
        List.isEmpty_eq_false_iff.2 (List.ne_nil_of_length_eq_add_one hlen)
      simp [Stored.toValue, stored, encode, encodePairs, entries, hl, hne]
  have hvalue : entries.foldl (fun a e => e.2.2 a) {} = e.stored := by
    cases hl : e.loadDate <;> simp [entries, hl, stored]
  rw [henc, ← hvalue]
  refine readRecord_reads entries (by cases hl : e.loadDate <;> simp [entries, hl]) ?_
  intro x hx
  simp only [entries, List.mem_cons, List.mem_map, Option.mem_toList] at hx
  rcases hx with rfl | ⟨d, hd, rfl⟩
  · exact ⟨(by decide +kernel : (Bytes.ofString "c").length < 4294967296), _, rfl,
      fun acc => Reads.bind_pure _ (readInt_encodeInt he.count.1 he.count.2)⟩
  · have hlen := Date.length_ofString_render (he.loadDate d hd).1
    exact ⟨(by decide +kernel : (Bytes.ofString "l").length < 4294967296), _, rfl,
      fun acc => Reads.bind_pure _ (readBytes_str (by omega))⟩

/-- The command line's serial form keeps the stored value of every edge that its entry
holds. -/
theorem keeps_storedSerial {e : Edge} (he : Storable e) : Keeps Cli.storedSerial e.stored :=
  ⟨encode_ne_nil _, (readStored_value he).run'_eq⟩

/-- A call edge with a slash in its relation and a zero byte in its sink, a load date, a
negative count and no date code reads back with the date code `E`. -/
theorem decode_entry_call_edge :
    let e : Edge :=
      { source := Bytes.ofString "alice", sink := Bytes.ofString "bob" ++ [0, 1],
        edgeType := Bytes.ofString "CALL", relation := Bytes.ofString "to/from",
        attribute1 := Bytes.ofString "voice", date := ⟨2024, 2, 29⟩, loadDate := some ⟨0, 12, 31⟩,
        count := -5, visibility := Bytes.ofString "A&B", timestamp := 7 }
    Storable e ∧ Keeps Cli.storedSerial e.stored ∧
      decode Cli.storedSerial (e.entry Cli.storedSerial) = .ok { e with dateCode := Bytes.ofString "E" } := by
  intro e
  have h63 : Int.pow 2 63 = 9223372036854775808 := by decide
  have he : Storable e :=
    { source := by decide +kernel
      edgeType := by decide +kernel
      attribute1 := by decide +kernel
      attribute2 := by decide
      attribute3 := by decide
      dateCode := by decide
      date := by decide
      loadDate := by
        intro d hd
        cases Option.mem_def.1 hd
        exact ⟨by decide, by decide⟩
      count := by
        rw [h63]
        decide }
  have hcode : e.code = Bytes.ofString "E" := by decide +kernel
  have hS := keeps_storedSerial he
  rw [decode_entry hS he, hcode]
  exact ⟨he, hS, rfl⟩

end EdgeQuery.Edge
