import Mathlib
import EdgeQuery.Plan.Wire
import EdgeQuery.Proofs.MsgpackRead
/-! # Stored units read back

A key, a range, a stage or a plan unit written in its stored form reads back as itself,
whatever bytes follow it. Each form is a record of named fields in which fields holding
their empty value are left out, so one law does the work for all four (`record_reads`): a
record reads as the changes of the fields written, applied in turn to the empty record, and
each form's table of fields (`keyFields` and the others) lists those changes, a field left
out being one whose change the empty record already has.

Reading back needs what the stored form can hold:

* integers (timestamps, priorities) within 64 bits (`Key.Storable`, `Stage.Storable`);
* option keys of a stage distinct, since the reader keeps the last value of a repeated key;
* every length below `4294967296`, which follows from the whole form being shorter than that. -/

namespace EdgeQuery.Store

/-- A key fits its stored form: the timestamp is a 64-bit integer. -/
def Key.Storable (k : Key) : Prop := -Int.pow 2 63 ≤ k.timestamp ∧ k.timestamp < Int.pow 2 63

/-- A range fits its stored form when both its bounds do. -/
def Range.Storable (r : Range) : Prop := r.start.Storable ∧ r.stop.Storable

/-- A stage fits its stored form: a 64-bit priority, and each option key once. -/
structure Stage.Storable (s : Stage) : Prop where
  priority : -Int.pow 2 63 ≤ s.priority ∧ s.priority < Int.pow 2 63
  options : (s.options.map Prod.fst).Nodup

instance : DecidablePred Key.Storable := fun k =>
  inferInstanceAs (Decidable (-Int.pow 2 63 ≤ k.timestamp ∧ k.timestamp < Int.pow 2 63))

instance : DecidablePred Range.Storable := fun r =>
  inferInstanceAs (Decidable (r.start.Storable ∧ r.stop.Storable))

instance : DecidablePred Stage.Storable := fun s =>
  decidable_of_iff ((-Int.pow 2 63 ≤ s.priority ∧ s.priority < Int.pow 2 63) ∧ (s.options.map Prod.fst).Nodup)
    ⟨fun ⟨h₁, h₂⟩ => ⟨h₁, h₂⟩, fun ⟨h₁, h₂⟩ => ⟨h₁, h₂⟩⟩

end EdgeQuery.Store

namespace EdgeQuery.Plan

open Store Msgpack

/-- A unit fits its stored form when its ranges, stages and last key do. -/
structure ScanUnit.Storable (u : ScanUnit) : Prop where
  ranges : ∀ r ∈ u.ranges, r.Storable
  stages : ∀ s ∈ u.stages, s.Storable
  lastKey : ∀ k ∈ u.lastKey, k.Storable

instance : DecidablePred ScanUnit.Storable := fun u =>
  decidable_of_iff ((∀ r ∈ u.ranges, r.Storable) ∧ (∀ s ∈ u.stages, s.Storable) ∧ (∀ k ∈ u.lastKey, k.Storable))
    ⟨fun ⟨h₁, h₂, h₃⟩ => ⟨h₁, h₂, h₃⟩, fun ⟨h₁, h₂, h₃⟩ => ⟨h₁, h₂, h₃⟩⟩

/-! ## Records -/

/-- The change a field makes to the record read so far, if the field is written. -/
def applyWritten {α : Type} (a : α) (field : String × Option Value × (α → α)) : α :=
  if field.2.1.isSome then field.2.2 a else a

/-- A record of the fields in `spec` reads as the changes of the fields written, applied in
turn to the empty record, when each written field's reader makes its change. -/
theorem record_reads {α : Type} {empty a : α} {fields : List (String × (α → Reader α))}
    (spec : List (String × Option Value × (α → α)))
    (hsmall : (encode (record (spec.map fun e => (e.1, e.2.1)))).length < 4294967296)
    (hfield : ∀ e ∈ spec, ∀ v, e.2.1 = some v → (encode v).length < 4294967296 →
      ∃ f, fields.find? (·.1 == e.1) = some (e.1, f) ∧ ∀ acc, Reads (f acc) (encode v) (e.2.2 acc))
    (hvalue : spec.foldl applyWritten empty = a) :
    Reads (readRecord empty fields) (encode (record (spec.map fun e => (e.1, e.2.1)))) a := by
  -- the fields written, each with its value and its change
  let present := spec.filterMap fun e => e.2.1.map fun v => (e.1, v, e.2.2)
  have hkvs : (spec.map fun e => (e.1, e.2.1)).filterMap (fun p => p.2.map fun v => (fieldName p.1, v)) =
      present.map fun p => (fieldName p.1, p.2.1) := by
    simp [present, List.filterMap_map, List.map_filterMap, Option.map_map, Function.comp_def]
  let entries := present.map fun p => (p.1, encode p.2.1, p.2.2)
  have henc : encode (record (spec.map fun e => (e.1, e.2.1))) =
      lengthHeader 0x80 15 (none, 0xde, 0xdf) entries.length ++
        entries.flatMap fun e => encode (.str (Bytes.ofString e.1)) ++ e.2.1 := by
    rw [record, encode, hkvs, encodePairs_eq]
    simp [entries, List.flatMap_map, fieldName]
  have hfold : ∀ (spec : List (String × Option Value × (α → α))) acc,
      spec.foldl applyWritten acc =
        (spec.filterMap fun e => e.2.1.map fun v => (e.1, v, e.2.2)).foldl (fun a p => p.2.2 a) acc := by
    intro spec
    induction spec with
    | nil => intro acc; rfl
    | cons e spec ih =>
      intro acc
      obtain ⟨n, v?, upd⟩ := e
      cases v? <;> simp [applyWritten, ih]
  have hentries : entries.foldl (fun a e => e.2.2 a) empty = a := by
    rw [← hvalue, hfold]
    simp [entries, present, List.foldl_map]
  rw [henc, ← hentries]
  -- every piece of the encoding is shorter than the whole
  have hpiece : ∀ e ∈ entries, (encode (.str (Bytes.ofString e.1)) ++ e.2.1).length < 4294967296 := by
    intro e he
    have := length_le_of_mem_flatMap (f := fun e => encode (.str (Bytes.ofString e.1)) ++ e.2.1) he
    rw [henc, List.length_append] at hsmall
    omega
  refine readRecord_reads entries ?_ ?_
  · have := length_le_length_flatMap (l := entries)
      (f := fun e => encode (.str (Bytes.ofString e.1)) ++ e.2.1) fun e _ => by simp [encode_ne_nil]
    rw [henc, List.length_append] at hsmall
    omega
  · intro e he
    obtain ⟨⟨n, v, upd⟩, hp, rfl⟩ := List.mem_map.mp he
    obtain ⟨⟨n', v?, upd'⟩, hs, hv⟩ := List.mem_filterMap.mp hp
    obtain ⟨rfl, rfl, rfl⟩ : v? = some v ∧ n = n' ∧ upd = upd' := by
      cases v? <;> simp_all
    have hlen := hpiece _ he
    simp only [List.length_append] at hlen
    have hname := length_le_encode_str (Bytes.ofString n)
    obtain ⟨f, hfind, hf⟩ := hfield _ hs v rfl (by omega)
    refine ⟨?_, f, hfind, hf⟩
    show (Bytes.ofString n).length < 4294967296
    omega

/-! ## Fields -/

theorem textField_eq_some {b : Bytes} {v : Value} (h : textField b = some v) : v = .str b := by
  unfold textField at h
  split at h <;> simp_all

/-- A byte string field read into the record read so far. -/
theorem readBytes_field {α : Type} (put : α → Bytes → α) {b : Bytes}
    (hlen : (encode (.str b)).length < 4294967296) (acc : α) :
    Reads (readBytes >>= fun b => pure (put acc b)) (encode (.str b)) (put acc b) :=
  Reads.bind_pure (put acc) (readBytes_str (Nat.lt_of_le_of_lt (length_le_encode_str b) hlen))

/-- A boolean field read into the record read so far. -/
theorem readBool_field {α : Type} (put : α → Bool → α) (b : Bool) (acc : α) :
    Reads (readBool >>= fun b => pure (put acc b)) (encode (.bool b)) (put acc b) :=
  Reads.bind_pure (put acc) (readBool_reads b)

theorem readText_reads {s : String} (hlen : (encode (.str (Bytes.ofString s))).length < 4294967296) :
    Reads readText (encode (.str (Bytes.ofString s))) s := by
  have h := Reads.bind_pure Bytes.toUtf8
    (readBytes_str (Nat.lt_of_le_of_lt (length_le_encode_str _) hlen))
  rwa [Bytes.toUtf8_ofString] at h

/-- Reading nil first finds none in front of a code other than nil's, and reads on. -/
theorem readNil_then {β : Type} {f : Bool → Reader β} {c : UInt8} {tail : Bytes} {b : β}
    (hc : c ≠ 0xc0) (h : Reads (f false) (c :: tail) b) : Reads (readNil >>= f) (c :: tail) b := by
  intro rest
  have hnil : readNil.run (c :: tail ++ rest) = .ok (false, c :: tail ++ rest) := by
    simp [readNil, hc, StateT.run, get, getThe, MonadStateOf.get, StateT.get, bind, StateT.bind,
      pure, StateT.pure, Except.bind, Except.pure]
  rw [StateT.run_bind, hnil]
  exact h rest

/-- An array of items, each read by `item`. -/
theorem readList_reads {α : Type} {item : Reader α} {val : α → Value} {xs : List α}
    (hsmall : (encode (.arr (xs.map val))).length < 4294967296)
    (h : ∀ x ∈ xs, (encode (val x)).length < 4294967296 → Reads item (encode (val x)) x) :
    Reads (readList item) (encode (.arr (xs.map val))) xs := by
  rw [encode, encodeAll_eq, List.flatMap_map, List.length_map] at hsmall ⊢
  simp only [List.length_append] at hsmall
  have hcount := length_le_length_flatMap (l := xs) (f := fun x => encode (val x))
    fun x _ => encode_ne_nil (val x)
  unfold readList
  refine Reads.bind (HeaderReads.reads (headerReads_arr (n := xs.length) (by omega))) ?_
  refine mapM_reads (by simp) fun x hx => h x hx ?_
  have := length_le_of_mem_flatMap (f := fun x => encode (val x)) hx
  omega

/-- Adding pairs whose keys are new to a map of texts appends them. -/
theorem foldl_replace_eq_append (opts acc : List (String × String))
    (hnodup : ((acc ++ opts).map Prod.fst).Nodup) :
    opts.foldl (fun acc kv => acc.filter (·.1 != kv.1) ++ [kv]) acc = acc ++ opts := by
  induction opts generalizing acc with
  | nil => simp
  | cons kv opts ih =>
    have hnew : ∀ p ∈ acc, p.1 ≠ kv.1 := by
      intro p hp heq
      simp only [List.map_append, List.map_cons, List.nodup_append, List.nodup_cons] at hnodup
      exact hnodup.2.2 p.1 (List.mem_map_of_mem hp) kv.1 List.mem_cons_self heq
    have hkeep : acc.filter (·.1 != kv.1) = acc := by
      rw [List.filter_eq_self]
      intro p hp
      simpa using hnew p hp
    rw [List.foldl_cons, hkeep, ih (acc ++ [kv]) (by simpa using hnodup)]
    simp

/-- A map of texts with distinct keys reads back as it was written. -/
theorem readTextMap_reads {opts : List (String × String)} (hnodup : (opts.map Prod.fst).Nodup)
    (hsmall : (encode (.map (opts.map fun (k, v) =>
      (.str (Bytes.ofString k), .str (Bytes.ofString v))))).length < 4294967296) :
    Reads readTextMap (encode (.map (opts.map fun (k, v) =>
      (.str (Bytes.ofString k), .str (Bytes.ofString v))))) opts := by
  -- each pair is a key and a value, read as texts, and replaces the pair of its key
  let chunks := opts.map fun kv =>
    (encode (.str (Bytes.ofString kv.1)) ++ encode (.str (Bytes.ofString kv.2)),
      fun acc : List (String × String) => acc.filter (·.1 != kv.1) ++ [kv])
  have hbytes : encodePairs (opts.map fun (k, v) => (.str (Bytes.ofString k), .str (Bytes.ofString v))) =
      chunks.flatMap Prod.fst := by
    simp [chunks, encodePairs_eq, List.flatMap_map]
  have hvalue : opts = chunks.foldl (fun a c => c.2 a) [] := by
    rw [List.foldl_map, foldl_replace_eq_append opts [] (by simpa using hnodup), List.nil_append]
  rw [encode, hbytes] at hsmall ⊢
  suffices h : Reads readTextMap _ (chunks.foldl (fun a c => c.2 a) []) by rwa [← hvalue] at h
  unfold readTextMap
  refine Reads.bind (readMapLen_reads (n := (opts.map _).length) ?_) ?_
  · have hcount := length_le_length_flatMap (l := chunks) (f := Prod.fst)
      fun c hc => by obtain ⟨kv, -, rfl⟩ := List.mem_map.mp hc; simp [encode_ne_nil]
    simp only [List.length_append, chunks, List.length_map] at hsmall hcount ⊢
    omega
  · refine foldlM_reads (by simp [chunks]) ?_ []
    intro chunk hchunk acc _
    have hlen := length_le_of_mem_flatMap (f := Prod.fst) hchunk
    obtain ⟨⟨k, v⟩, hkv, rfl⟩ := List.mem_map.mp hchunk
    simp only [List.length_append] at hlen hsmall
    exact Reads.bind (readText_reads (s := k) (by omega))
      (Reads.bind_pure (fun v => acc.filter (·.1 != k) ++ [(k, v)]) (readText_reads (s := v) (by omega)))

/-! ## Keys and ranges -/

/-- The fields of a stored key, each with the change reading it makes. -/
def keyFields (k : Key) : List (String × Option Value × (Key → Key)) :=
  [("r", some (.str k.row), fun x => { x with row := k.row }),
   ("f", textField k.family, fun x => { x with family := k.family }),
   ("q", textField k.qualifier, fun x => { x with qualifier := k.qualifier }),
   ("v", textField k.visibility, fun x => { x with visibility := k.visibility }),
   ("t", if k.timestamp == 0 then none else some (.int k.timestamp),
      fun x => { x with timestamp := k.timestamp })]

theorem keyValue_eq_record (k : Key) : keyValue k = record ((keyFields k).map fun e => (e.1, e.2.1)) :=
  rfl

/-- A field left out of a stored key holds its empty value. -/
theorem keyFields_foldl (k : Key) : (keyFields k).foldl applyWritten {} = k := by
  obtain ⟨row, family, qualifier, visibility, timestamp⟩ := k
  cases family <;> cases qualifier <;> cases visibility <;> by_cases ht : timestamp = 0 <;>
    simp [keyFields, applyWritten, textField, ht]

theorem readKey_keyValue {k : Key} (hk : k.Storable) (hsmall : (encode (keyValue k)).length < 4294967296) :
    Reads readKey (encode (keyValue k)) k := by
  rw [keyValue_eq_record] at hsmall ⊢
  unfold readKey
  refine record_reads (keyFields k) hsmall ?_ (keyFields_foldl k)
  simp only [keyFields, List.mem_cons, List.not_mem_nil, or_false]
  rintro e (rfl | rfl | rfl | rfl | rfl) v hv hlen
  · cases hv
    exact ⟨_, rfl, readBytes_field (α := Key) (fun x b => { x with row := b }) hlen⟩
  · obtain rfl := textField_eq_some hv
    exact ⟨_, rfl, readBytes_field (α := Key) (fun x b => { x with family := b }) hlen⟩
  · obtain rfl := textField_eq_some hv
    exact ⟨_, rfl, readBytes_field (α := Key) (fun x b => { x with qualifier := b }) hlen⟩
  · obtain rfl := textField_eq_some hv
    exact ⟨_, rfl, readBytes_field (α := Key) (fun x b => { x with visibility := b }) hlen⟩
  · have ht : Value.int k.timestamp = v := by
      simp only at hv
      split at hv <;> simp_all
    subst ht
    exact ⟨_, rfl, fun acc => Reads.bind_pure (fun t => { acc with timestamp := t })
      (readInt_encodeInt hk.1 hk.2)⟩

/-- The fields of a stored range, each with the change reading it makes. -/
def rangeFields (r : Range) : List (String × Option Value × (Range → Range)) :=
  [("s", some (keyValue r.start), fun x => { x with start := r.start }),
   ("e", some (keyValue r.stop), fun x => { x with stop := r.stop }),
   ("si", some (.bool r.startInclusive), fun x => { x with startInclusive := r.startInclusive }),
   ("ei", some (.bool r.stopInclusive), fun x => { x with stopInclusive := r.stopInclusive }),
   ("is", if r.unboundedStart then some (.bool true) else none,
      fun x => { x with unboundedStart := r.unboundedStart }),
   ("ie", if r.unboundedStop then some (.bool true) else none,
      fun x => { x with unboundedStop := r.unboundedStop })]

theorem rangeValue_eq_record (r : Range) :
    rangeValue r = record ((rangeFields r).map fun e => (e.1, e.2.1)) := rfl

theorem rangeFields_foldl (r : Range) : (rangeFields r).foldl applyWritten {} = r := by
  obtain ⟨start, stop, si, ei, us, ue⟩ := r
  cases us <;> cases ue <;> rfl

/-- An unbounded flag is written only as true. -/
theorem flag_eq_some {b : Bool} {v : Value} (h : (if b then some (Value.bool true) else none) = some v) :
    b = true ∧ v = .bool b := by
  cases b <;> simp_all

theorem readRange_rangeValue {r : Range} (hr : r.Storable)
    (hsmall : (encode (rangeValue r)).length < 4294967296) :
    Reads readRange (encode (rangeValue r)) r := by
  rw [rangeValue_eq_record] at hsmall ⊢
  unfold readRange
  refine record_reads (rangeFields r) hsmall ?_ (rangeFields_foldl r)
  simp only [rangeFields, List.mem_cons, List.not_mem_nil, or_false]
  rintro e (rfl | rfl | rfl | rfl | rfl | rfl) v hv hlen
  · cases hv
    exact ⟨_, rfl, fun acc => Reads.bind_pure (fun k => { acc with start := k })
      (readKey_keyValue hr.1 hlen)⟩
  · cases hv
    exact ⟨_, rfl, fun acc => Reads.bind_pure (fun k => { acc with stop := k })
      (readKey_keyValue hr.2 hlen)⟩
  · cases hv
    exact ⟨_, rfl, readBool_field (α := Range) (fun x b => { x with startInclusive := b }) _⟩
  · cases hv
    exact ⟨_, rfl, readBool_field (α := Range) (fun x b => { x with stopInclusive := b }) _⟩
  · obtain ⟨-, rfl⟩ := flag_eq_some hv
    exact ⟨_, rfl, readBool_field (α := Range) (fun x b => { x with unboundedStart := b }) _⟩
  · obtain ⟨-, rfl⟩ := flag_eq_some hv
    exact ⟨_, rfl, readBool_field (α := Range) (fun x b => { x with unboundedStop := b }) _⟩

/-! ## Stages and units -/

/-- The fields of a stored stage, each with the change reading it makes. -/
def stageFields (s : Stage) : List (String × Option Value × (Stage → Stage)) :=
  [("p", some (.int s.priority), fun x => { x with priority := s.priority }),
   ("n", some (.str (Bytes.ofString s.name)), fun x => { x with name := s.name }),
   ("k", some (.str (Bytes.ofString s.kind)), fun x => { x with kind := s.kind }),
   ("o", if s.options.isEmpty then none
      else some (.map (s.options.map fun (k, v) => (.str (Bytes.ofString k), .str (Bytes.ofString v)))),
      fun x => { x with options := s.options })]

theorem stageValue_eq_record (s : Stage) :
    stageValue s = record ((stageFields s).map fun e => (e.1, e.2.1)) := rfl

theorem stageFields_foldl (s : Stage) :
    (stageFields s).foldl applyWritten { name := "", kind := "" } = s := by
  obtain ⟨priority, name, kind, options⟩ := s
  cases options <;> simp [stageFields, applyWritten]

theorem readStage_stageValue {s : Stage} (hs : s.Storable)
    (hsmall : (encode (stageValue s)).length < 4294967296) :
    Reads readStage (encode (stageValue s)) s := by
  rw [stageValue_eq_record] at hsmall ⊢
  unfold readStage
  refine record_reads (stageFields s) hsmall ?_ (stageFields_foldl s)
  simp only [stageFields, List.mem_cons, List.not_mem_nil, or_false]
  rintro e (rfl | rfl | rfl | rfl) v hv hlen
  · cases hv
    exact ⟨_, rfl, fun acc => Reads.bind_pure (fun p => { acc with priority := p })
      (readInt_encodeInt hs.priority.1 hs.priority.2)⟩
  · cases hv
    exact ⟨_, rfl, fun acc => Reads.bind_pure (fun n => { acc with name := n }) (readText_reads hlen)⟩
  · cases hv
    exact ⟨_, rfl, fun acc => Reads.bind_pure (fun k => { acc with kind := k }) (readText_reads hlen)⟩
  · have ho : Value.map (s.options.map fun (k, v) =>
        (.str (Bytes.ofString k), .str (Bytes.ofString v))) = v := by
      simp only at hv
      split at hv <;> simp_all
    subst ho
    exact ⟨_, rfl, fun acc => Reads.bind_pure (fun o => { acc with options := o })
      (readTextMap_reads hs.options hlen)⟩

/-- The fields of a stored unit, each with the change reading it makes. -/
def unitFields (u : ScanUnit) : List (String × Option Value × (ScanUnit → ScanUnit)) :=
  [("r", some (.arr (u.ranges.map rangeValue)), fun x => { x with ranges := u.ranges }),
   ("s", some (.arr (u.stages.map stageValue)), fun x => { x with stages := u.stages }),
   ("c", if u.families.isEmpty then none else some (.arr (u.families.map .str)),
      fun x => { x with families := u.families }),
   ("l", u.lastKey.map keyValue, fun x => { x with lastKey := u.lastKey })]

theorem unitValue_eq_record (u : ScanUnit) :
    unitValue u = record ((unitFields u).map fun e => (e.1, e.2.1)) := rfl

theorem unitFields_foldl (u : ScanUnit) : (unitFields u).foldl applyWritten {} = u := by
  obtain ⟨ranges, stages, families, lastKey⟩ := u
  cases families <;> cases lastKey <;> simp [unitFields, applyWritten]

/-- A map header starts with a map code, never with nil's. -/
theorem lengthHeader_map_head (n : Nat) :
    ∃ c tail, lengthHeader 0x80 15 (none, 0xde, 0xdf) n = c :: tail ∧ c ≠ 0xc0 := by
  unfold lengthHeader
  split
  · rename_i hfix
    have hfixed : ∀ n : Fin 16, (0x80 + n.val).toUInt8 ≠ 0xc0 := by decide
    exact ⟨_, _, rfl, hfixed ⟨n, by omega⟩⟩
  · simp only
    split
    · exact ⟨_, _, rfl, by decide⟩
    · exact ⟨_, _, rfl, by decide⟩

theorem encode_map_head (kvs : List (Value × Value)) :
    ∃ c tail, encode (.map kvs) = c :: tail ∧ c ≠ 0xc0 := by
  obtain ⟨c, tail, hhdr, hc⟩ := lengthHeader_map_head kvs.length
  exact ⟨c, tail ++ encodePairs kvs, by rw [encode, hhdr, List.cons_append], hc⟩

theorem readUnit_unitValue {u : ScanUnit} (hu : u.Storable)
    (hsmall : (encode (unitValue u)).length < 4294967296) :
    Reads readUnit (encode (unitValue u)) u := by
  rw [unitValue_eq_record] at hsmall ⊢
  unfold readUnit
  refine record_reads (unitFields u) hsmall ?_ (unitFields_foldl u)
  simp only [unitFields, List.mem_cons, List.not_mem_nil, or_false]
  rintro e (rfl | rfl | rfl | rfl) v hv hlen
  · cases hv
    exact ⟨_, rfl, fun acc => Reads.bind_pure (fun rs => { acc with ranges := rs })
      (readList_reads hlen fun r hr hr' => readRange_rangeValue (hu.ranges r hr) hr')⟩
  · cases hv
    exact ⟨_, rfl, fun acc => Reads.bind_pure (fun ss => { acc with stages := ss })
      (readList_reads hlen fun s hs hs' => readStage_stageValue (hu.stages s hs) hs')⟩
  · have hc : Value.arr (u.families.map .str) = v := by
      simp only at hv
      split at hv <;> simp_all
    subst hc
    exact ⟨_, rfl, fun acc => Reads.bind_pure (fun cs => { acc with families := cs })
      (readList_reads hlen fun b _ hb => readBytes_str (Nat.lt_of_le_of_lt (length_le_encode_str b) hb))⟩
  · -- the last key is written only when there is one, and then not as nil
    obtain ⟨k, hk, rfl⟩ := Option.map_eq_some_iff.mp hv
    obtain ⟨c, tail, hhead, hc⟩ : ∃ c tail, encode (keyValue k) = c :: tail ∧ c ≠ 0xc0 :=
      encode_map_head _
    refine ⟨_, rfl, fun acc => ?_⟩
    have hread := Reads.bind_pure (fun k => { acc with lastKey := some k })
      (readKey_keyValue (hu.lastKey k hk) hlen)
    simp only [hk]
    rw [hhead] at hread ⊢
    exact readNil_then hc hread

end EdgeQuery.Plan
