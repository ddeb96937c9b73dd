import Mathlib
import EdgeQuery.Codec.Msgpack
/-! # Reading what was written

Every MessagePack reader of this library reads back what the writer writes, in front of any
bytes that follow. `Reads r b a` says that the reader `r` turns bytes `b`, followed by
anything, into `a` and leaves exactly what followed; it composes along `bind`, so a reader
made of smaller readers is shown to read a value made of smaller values part by part.

The laws here cover the scalars (`readInt` on 64-bit integers, booleans, texts and byte
strings), the length headers, arrays read item by item (`readList`-style loops over
`List.range`) and records written as maps of named fields (`readRecord_reads`): a record
whose fields each have a reader reads as the fields applied in turn to the empty record. -/

namespace EdgeQuery.Bytes

theorem byteArray_toList_loop (bs : ByteArray) (i : Nat) (r : List UInt8) :
    ByteArray.toList.loop bs i r = r.reverse ++ bs.data.toList.drop i := by
  fun_induction ByteArray.toList.loop bs i r with
  | case1 i r hlt ih =>
    have hlen : i < bs.data.toList.length := by simpa using hlt
    have hget : bs.get! i = bs.data[i]! := by cases bs; rfl
    rw [ih, List.drop_eq_getElem_cons (i := i) hlen, hget, getElem!_pos bs.data i hlt]
    simp
  | case2 i r hlt =>
    rw [List.drop_eq_nil_of_le (by simpa using Nat.le_of_not_lt hlt)]
    simp

theorem byteArray_toList (bs : ByteArray) : bs.toList = bs.data.toList := by
  rw [ByteArray.toList, byteArray_toList_loop]
  simp

@[simp] theorem toUtf8?_ofString (s : String) : toUtf8? (ofString s) = some s := by
  have hdata : (⟨(ofString s).toArray⟩ : ByteArray) = s.toByteArray := by
    simp [ofString, byteArray_toList]
  simp only [toUtf8?, hdata, String.fromUTF8?, dif_pos s.isValidUTF8]
  rfl

@[simp] theorem toUtf8_ofString (s : String) : toUtf8 (ofString s) = s := by
  rw [toUtf8, toUtf8?_ofString, Option.getD_some]

end EdgeQuery.Bytes

namespace EdgeQuery.Msgpack

/-- The reader `r` reads `a` from the front of `b`, whatever bytes follow. -/
def Reads {α : Type} (r : Reader α) (b : Bytes) (a : α) : Prop :=
  ∀ rest, r.run (b ++ rest) = .ok (a, rest)

namespace Reads
variable {α β : Type}

theorem bind {x : Reader α} {f : α → Reader β} {b₁ b₂ : Bytes} {a : α} {c : β}
    (hx : Reads x b₁ a) (hf : Reads (f a) b₂ c) : Reads (x >>= f) (b₁ ++ b₂) c := by
  intro rest
  rw [List.append_assoc, StateT.run_bind, hx (b₂ ++ rest)]
  exact hf rest

theorem pure (a : α) : Reads (Pure.pure a) [] a := fun _ => rfl

theorem map {x : Reader α} {b : Bytes} {a : α} (g : α → β) (hx : Reads x b a) :
    Reads (g <$> x) b (g a) := by
  intro rest
  rw [StateT.run_map, hx rest]
  rfl
theorem bind_pure {x : Reader α} {b : Bytes} {a : α} (g : α → β) (hx : Reads x b a) :
    Reads (x >>= fun a => Pure.pure (g a)) b (g a) := by
  intro rest
  rw [StateT.run_bind, hx rest]
  rfl

/-- What a reader reads from the front of some bytes, it reads from the bytes alone. -/
theorem run'_eq {x : Reader α} {b : Bytes} {a : α} (hx : Reads x b a) : x.run' b = .ok a := by
  have h := hx []
  rw [List.append_nil] at h
  rw [Reader.run', h]
  rfl

theorem nil_bind {x : Reader α} {f : α → Reader β} {b : Bytes} {a : α} {c : β}
    (hx : Reads x [] a) (hf : Reads (f a) b c) : Reads (x >>= f) b c := by
  simpa using Reads.bind hx hf

theorem bind_nil {x : Reader α} {f : α → Reader β} {b : Bytes} {a : α} {c : β}
    (hx : Reads x b a) (hf : Reads (f a) [] c) : Reads (x >>= f) b c := by
  simpa using Reads.bind hx hf

end Reads

/-! ## The shape of an encoding -/

theorem encodeAll_eq (xs : List Value) : encodeAll xs = xs.flatMap encode := by
  induction xs with
  | nil => rfl
  | cons x xs ih => rw [encodeAll, ih, List.flatMap_cons]

theorem encodePairs_eq (kvs : List (Value × Value)) :
    encodePairs kvs = kvs.flatMap fun kv => encode kv.1 ++ encode kv.2 := by
  induction kvs with
  | nil => rfl
  | cons kv kvs ih =>
    obtain ⟨k, v⟩ := kv
    rw [encodePairs, ih, List.flatMap_cons]

theorem lengthHeader_ne_nil (fixBase fixMax : Nat) (codes : Option UInt8 × UInt8 × UInt8) (n : Nat) :
    lengthHeader fixBase fixMax codes n ≠ [] := by
  unfold lengthHeader
  split
  · simp
  · split <;> (try split) <;> (try split) <;> simp

/-- Every value is written as at least one byte. -/
theorem encode_ne_nil (v : Value) : encode v ≠ [] := by
  cases v with
  | int n =>
    rw [encode]
    unfold encodeInt
    repeat' split
    all_goals simp
  | ext t d =>
    rw [encode]
    split <;> simp
  | _ => simp [encode, lengthHeader_ne_nil]

theorem length_le_encode_str (s : Bytes) : s.length ≤ (encode (.str s)).length := by
  rw [encode, List.length_append]
  omega

theorem length_le_of_mem_flatMap {α β : Type} {l : List α} {f : α → List β} {x : α} (hx : x ∈ l) :
    (f x).length ≤ (l.flatMap f).length :=
  (List.sublist_flatten_of_mem (List.mem_map_of_mem hx)).length_le

theorem length_le_length_flatMap {α β : Type} {l : List α} {f : α → List β}
    (h : ∀ x ∈ l, f x ≠ []) : l.length ≤ (l.flatMap f).length := by
  induction l with
  | nil => simp
  | cons x xs ih =>
    have hx : (f x).length ≠ 0 := by simpa using h x List.mem_cons_self
    have := ih fun y hy => h y (List.mem_cons_of_mem x hy)
    simp only [List.flatMap_cons, List.length_append, List.length_cons]
    omega

/-! ## Bytes and numbers -/

theorem readCode_reads (c : UInt8) : Reads readCode [c] c := fun _ => rfl

theorem readN_reads {b : Bytes} : Reads (readN b.length) b b := by
  intro rest
  cases b with
  | nil => rfl
  | cons c cs =>
    have hlen : ¬ (cs.length + rest.length < cs.length) := by omega
    simp [readN, StateT.run, get, getThe, MonadStateOf.get, StateT.get, set, StateT.set, bind,
      StateT.bind, pure, StateT.pure, Except.bind, Except.pure, hlen]

theorem bigEndian_succ (w v : Nat) :
    bigEndian (w + 1) v = bigEndian w (v / 256) ++ [(v % 256).toUInt8] := by
  simp only [bigEndian, List.range_succ_eq_map, List.reverse_cons, List.map_append, List.map_reverse,
    List.map_map, List.map_cons, List.map_nil]
  congr 1
  · refine congrArg List.reverse (List.map_congr_left fun i _ => ?_)
    simp only [Function.comp, Nat.pow_eq, Nat.pow_succ, Nat.div_div_eq_div_mul, Nat.mul_comm]
  · simp

theorem ofBigEndian_append_byte (b : Bytes) (x : UInt8) :
    ofBigEndian (b ++ [x]) = ofBigEndian b * 256 + x.toNat := by
  simp [ofBigEndian, List.foldl_append]

/-- Big-endian bytes read back as the number modulo their range. -/
theorem ofBigEndian_bigEndian (w v : Nat) : ofBigEndian (bigEndian w v) = v % Nat.pow 256 w := by
  induction w generalizing v with
  | zero => simp [bigEndian, ofBigEndian, Nat.mod_one]
  | succ w ih =>
    -- `Nat.pow` unfolds on its exponent: one more byte multiplies the range by 256
    rw [bigEndian_succ, ofBigEndian_append_byte, ih,
      show Nat.pow 256 (w + 1) = 256 * Nat.pow 256 w from Nat.mul_comm _ _, Nat.mod_mul]
    simp
    omega

theorem length_bigEndian (w v : Nat) : (bigEndian w v).length = w := by
  simp [bigEndian]
theorem readN_width {w v : Nat} : Reads (readN w) (bigEndian w v) (bigEndian w v) := by
  have h := readN_reads (b := bigEndian w v)
  rwa [length_bigEndian] at h

theorem readUInt_reads (w v : Nat) : Reads (readUInt w) (bigEndian w v) (v % Nat.pow 256 w) := by
  have h := Reads.map ofBigEndian (readN_reads (b := bigEndian w v))
  rw [length_bigEndian, ofBigEndian_bigEndian] at h
  exact h

theorem readCode_bind {α : Type} {f : UInt8 → Reader α} {c : UInt8} {tail : Bytes} {a : α}
    (h : Reads (f c) tail a) : Reads (readCode >>= f) (c :: tail) a :=
  Reads.bind (readCode_reads c) h

theorem twos_of_neg (w : Nat) {n : Int} (hlo : -(Int.pow 2 (8 * w)) ≤ n) (hn : n < 0) :
    (twos w n : Int) = n + Int.pow 2 (8 * w) := by
  have hpos : (0 : Int) ≤ n + Int.pow 2 (8 * w) := by omega
  have hlt : n + Int.pow 2 (8 * w) < Int.pow 2 (8 * w) := by omega
  unfold twos
  rw [Int.emod_eq_add_self_emod, Int.emod_eq_of_lt hpos hlt, Int.toNat_of_nonneg hpos]

theorem bigEndian_one {v : Nat} (h : v < 256) : bigEndian 1 v = [v.toUInt8] := by
  simp [bigEndian, Nat.mod_eq_of_lt h]

/-- An unsigned number read as an integer. -/
theorem readUInt_int_reads (w v : Nat) (h : v < Nat.pow 256 w) :
    Reads ((fun x => x) <$> (readUInt w >>= fun a => pure (a : Int))) (bigEndian w v) (v : Int) := by
  have hr := Reads.map (fun x : Int => x)
    (Reads.bind (f := fun a : Nat => (pure (a : Int) : Reader Int)) (readUInt_reads w v) (Reads.pure _))
  rw [List.append_nil, Nat.mod_eq_of_lt h] at hr
  exact hr

theorem readSInt_reads (w v : Nat) : Reads (readSInt w) (bigEndian w v) (signed w (v % Nat.pow 256 w)) :=
  Reads.map (signed w) (readUInt_reads w v)

/-- A negative number in `w` bytes of two's complement reads back as it. -/
theorem readSInt_twos (w : Nat) {n : Int} (hlo : -(Nat.pow 2 (8 * w - 1) : Int) ≤ n) (hn : n < 0)
    (hw : Int.pow 2 (8 * w) = 2 * (Nat.pow 2 (8 * w - 1) : Int))
    (hw' : ((Nat.pow 256 w : Nat) : Int) = Int.pow 2 (8 * w)) :
    Reads (readSInt w) (bigEndian w (twos w n)) n := by
  have htw := twos_of_neg w (n := n) (by omega) hn
  have h := readSInt_reads w (twos w n)
  have hs : signed w (twos w n % Nat.pow 256 w) = n := by
    unfold signed
    rw [Nat.mod_eq_of_lt (by omega), if_pos (by omega), htw]
    omega
  rwa [hs] at h

/-- The eight-byte two's complement of a 64-bit integer. -/
theorem twos_eight_cast {n : Int} (hlo : -Int.pow 2 63 ≤ n) (hhi : n < Int.pow 2 63) :
    ((twos 8 n : Nat) : Int) = if 0 ≤ n then n else n + 18446744073709551616 := by
  have h63 : Int.pow 2 63 = 9223372036854775808 := by decide
  have h64 : Int.pow 2 (8 * 8) = 18446744073709551616 := by decide
  unfold twos
  rw [h64]
  by_cases hn : 0 ≤ n
  · rw [Int.emod_eq_of_lt hn (by omega), if_pos hn, Int.toNat_of_nonneg hn]
  · rw [Int.emod_eq_add_self_emod, Int.emod_eq_of_lt (by omega) (by omega), if_neg hn,
      Int.toNat_of_nonneg (by omega)]

theorem signed_twos_eight {n : Int} (hlo : -Int.pow 2 63 ≤ n) (hhi : n < Int.pow 2 63) :
    signed 8 (twos 8 n) = n := by
  have h63 : Int.pow 2 63 = 9223372036854775808 := by decide
  have h64 : Int.pow 2 (8 * 8) = 18446744073709551616 := by decide
  have hp : Nat.pow 2 (8 * 8 - 1) = 9223372036854775808 := by decide
  have htw := twos_eight_cast hlo hhi
  unfold signed
  rw [h64, hp]
  split <;> split at htw <;> omega

theorem readInt_encodeInt {n : Int} (hlo : -Int.pow 2 63 ≤ n) (hhi : n < Int.pow 2 63) :
    Reads readInt (encodeInt n) n := by
  have h63 : Int.pow 2 63 = 9223372036854775808 := by decide
  unfold encodeInt
  repeat' split
  · -- a positive fixint
    rename_i hpos hsmall
    unfold readInt
    apply readCode_bind
    have hc : (n.toNat.toUInt8).toNat = n.toNat := by simp; omega
    rw [if_pos (by rw [UInt8.le_iff_toNat_le, hc]; simp; omega)]
    intro rest
    simp only [hc, Int.toNat_of_nonneg hpos]
    rfl
  · rename_i hpos _ hlt
    rw [← bigEndian_one (by omega)]
    unfold readInt
    apply readCode_bind
    rw [if_neg (by decide), if_neg (by decide)]
    show Reads ((fun x => x) <$> (readUInt 1 >>= fun a => pure (a : Int))) _ _
    have := readUInt_int_reads 1 n.toNat (by rw [show Nat.pow 256 1 = 256 from rfl]; omega)
    rwa [Int.toNat_of_nonneg hpos] at this
  · rename_i hpos _ _ hlt
    unfold readInt
    apply readCode_bind
    rw [if_neg (by decide), if_neg (by decide)]
    show Reads ((fun x => x) <$> (readUInt 2 >>= fun a => pure (a : Int))) _ _
    have := readUInt_int_reads 2 n.toNat (by rw [show Nat.pow 256 2 = 65536 from rfl]; omega)
    rwa [Int.toNat_of_nonneg hpos] at this
  · rename_i hpos _ _ _ hlt
    have h32 : Int.pow 2 32 = 4294967296 := by decide
    unfold readInt
    apply readCode_bind
    rw [if_neg (by decide), if_neg (by decide)]
    show Reads ((fun x => x) <$> (readUInt 4 >>= fun a => pure (a : Int))) _ _
    have := readUInt_int_reads 4 n.toNat (by rw [show Nat.pow 256 4 = 4294967296 from rfl]; omega)
    rwa [Int.toNat_of_nonneg hpos] at this
  · rename_i hpos _ _ _ _
    unfold readInt
    apply readCode_bind
    rw [if_neg (by decide), if_neg (by decide)]
    show Reads (readSInt 8) _ _
    have h := readSInt_reads 8 n.toNat
    have hs : signed 8 (n.toNat % Nat.pow 256 8) = n := by
      have hp : Nat.pow 2 (8 * 8 - 1) = 9223372036854775808 := by decide
      have hr : Nat.pow 256 8 = 18446744073709551616 := rfl
      unfold signed
      rw [Nat.mod_eq_of_lt (by omega), if_neg (by omega)]
      exact Int.toNat_of_nonneg hpos
    rwa [hs] at h
  · -- a negative fixint
    rename_i hneg hsmall
    have h8 : Int.pow 2 (8 * 1) = 256 := by decide
    have htw := twos_of_neg 1 (n := n) (by omega) (by omega)
    have hc : ((twos 1 n).toUInt8).toNat = twos 1 n := by simp; omega
    unfold readInt
    apply readCode_bind
    rw [if_neg (by rw [UInt8.le_iff_toNat_le, hc]; simp; omega),
      if_pos (by rw [ge_iff_le, UInt8.le_iff_toNat_le, hc]; simp; omega)]
    intro rest
    simp only [hc]
    show Except.ok (((twos 1 n : Nat) : Int) - 256, rest) = _
    rw [htw, h8, Int.add_sub_cancel]
  · rename_i _ _ hlo1
    have h8 : Int.pow 2 (8 * 1) = 256 := by decide
    have htw := twos_of_neg 1 (n := n) (by omega) (by omega)
    have h := readSInt_twos 1 (n := n) (by simp; omega) (by omega) (by decide) (by decide)
    rw [bigEndian_one (by omega)] at h
    unfold readInt
    apply readCode_bind
    rw [if_neg (by decide), if_neg (by decide)]
    exact h
  · rename_i _ _ _ hlo2
    unfold readInt
    apply readCode_bind
    rw [if_neg (by decide), if_neg (by decide)]
    exact readSInt_twos 2 (by simp; omega) (by omega) (by decide) (by decide)
  · rename_i _ _ _ _ hlo4
    have h31 : Int.pow 2 31 = 2147483648 := by decide
    unfold readInt
    apply readCode_bind
    rw [if_neg (by decide), if_neg (by decide)]
    exact readSInt_twos 4 (by simp; omega) (by omega) (by decide) (by decide)
  · unfold readInt
    apply readCode_bind
    rw [if_neg (by decide), if_neg (by decide)]
    exact readSInt_twos 8 (by simp; omega) (by omega) (by decide) (by decide)

theorem readBool_reads (b : Bool) : Reads readBool (encode (.bool b)) b := by
  cases b <;> exact readCode_bind fun _ => rfl

/-! ## Length headers -/

/-- A length header starts with a code byte from which the matching length reader reads
the length off the bytes after it. -/
def HeaderReads (len : UInt8 → Reader (Option Nat)) (hdr : Bytes) (n : Nat) : Prop :=
  ∃ c tail, hdr = c :: tail ∧ Reads (len c) tail (some n)

theorem HeaderReads.reads {len : UInt8 → Reader (Option Nat)} {hdr : Bytes} {n : Nat}
    (h : HeaderReads len hdr n) : Reads (readCode >>= len) hdr (some n) := by
  obtain ⟨c, tail, rfl, hr⟩ := h
  exact readCode_bind hr

/-- The long forms of a length header: a code, then two or four big-endian bytes. -/
theorem headerReads_long {len : UInt8 → Reader (Option Nat)} {c : UInt8} (w : Nat) {n : Nat}
    (hn : n < Nat.pow 256 w) (hlen : len c = some <$> readUInt w) :
    HeaderReads len (c :: bigEndian w n) n := by
  refine ⟨c, bigEndian w n, rfl, ?_⟩
  have h := Reads.map some (readUInt_reads w n)
  rwa [Nat.mod_eq_of_lt hn, ← hlen] at h

theorem headerReads_str {n : Nat} (hn : n < 4294967296) :
    HeaderReads bytesLen (lengthHeader 0xa0 31 (some 0xd9, 0xda, 0xdb) n) n := by
  unfold lengthHeader
  split
  · rename_i hfix
    have hcode : ∀ k : Fin 32, (0xa0 + k.val).toUInt8 ≠ 0xc0 ∧
        (0xa0 + k.val).toUInt8 &&& 0xe0 = 0xa0 ∧ ((0xa0 + k.val).toUInt8 &&& 0x1f).toNat = k.val := by
      decide
    obtain ⟨hnil, hfixc, hval⟩ := hcode ⟨n, by omega⟩
    refine ⟨_, [], rfl, ?_⟩
    unfold bytesLen
    rw [if_neg hnil, if_pos hfixc, hval]
    exact Reads.pure _
  · simp only
    split
    · rw [← bigEndian_one (by omega)]
      exact headerReads_long 1 (by omega) rfl
    · split
      · exact headerReads_long 2 (by omega) rfl
      · exact headerReads_long 4 (by omega) rfl

theorem headerReads_bin {n : Nat} (h0 : 0 < n) (hn : n < 4294967296) :
    HeaderReads bytesLen (lengthHeader 0 0 (some 0xc4, 0xc5, 0xc6) n) n := by
  unfold lengthHeader
  rw [if_neg (by omega)]
  simp only
  split
  · rw [← bigEndian_one (by omega)]
    exact headerReads_long 1 (by omega) rfl
  · split
    · exact headerReads_long 2 (by omega) rfl
    · exact headerReads_long 4 (by omega) rfl

theorem headerReads_arr {n : Nat} (hn : n < 4294967296) :
    HeaderReads arrayLen (lengthHeader 0x90 15 (none, 0xdc, 0xdd) n) n := by
  unfold lengthHeader
  split
  · rename_i hfix
    have hcode : ∀ k : Fin 16, (0x90 + k.val).toUInt8 ≠ 0xc0 ∧
        (0x90 + k.val).toUInt8 &&& 0xf0 = 0x90 ∧ ((0x90 + k.val).toUInt8 &&& 0x0f).toNat = k.val := by
      decide
    obtain ⟨hnil, hfixc, hval⟩ := hcode ⟨n, by omega⟩
    refine ⟨_, [], rfl, ?_⟩
    unfold arrayLen
    rw [if_neg hnil, if_pos hfixc, hval]
    exact Reads.pure _
  · simp only
    split
    · exact headerReads_long 2 (by omega) rfl
    · exact headerReads_long 4 (by omega) rfl

theorem headerReads_map {n : Nat} (hn : n < 4294967296) :
    HeaderReads mapLen (lengthHeader 0x80 15 (none, 0xde, 0xdf) n) n := by
  unfold lengthHeader
  split
  · rename_i hfix
    have hcode : ∀ k : Fin 16, (0x80 + k.val).toUInt8 ≠ 0xc0 ∧
        (0x80 + k.val).toUInt8 &&& 0xf0 = 0x80 ∧ ((0x80 + k.val).toUInt8 &&& 0x0f).toNat = k.val := by
      decide
    obtain ⟨hnil, hfixc, hval⟩ := hcode ⟨n, by omega⟩
    refine ⟨_, [], rfl, ?_⟩
    unfold mapLen
    rw [if_neg hnil, if_pos hfixc, hval]
    exact Reads.pure _
  · simp only
    split
    · exact headerReads_long 2 (by omega) rfl
    · exact headerReads_long 4 (by omega) rfl

/-- A length reader does not read the nil code as a length. -/
theorem HeaderReads.code_ne_nil {len : UInt8 → Reader (Option Nat)} {hdr : Bytes} {n : Nat}
    (hnil : len 0xc0 = pure none) (h : HeaderReads len hdr n) :
    ∃ c tail, hdr = c :: tail ∧ c ≠ 0xc0 ∧ Reads (len c) tail (some n) := by
  obtain ⟨c, tail, rfl, hr⟩ := h
  refine ⟨c, tail, rfl, ?_, hr⟩
  rintro rfl
  have h := hr []
  rw [hnil] at h
  cases h

/-- The map header reader, which also passes over an extension header, reads a map length. -/
theorem readMapLen_reads {n : Nat} (hn : n < 4294967296) :
    Reads readMapLen (lengthHeader 0x80 15 (none, 0xde, 0xdf) n) (some n) := by
  obtain ⟨c, tail, hhdr, hr⟩ := headerReads_map hn
  have hcode : (c = (0x80 + n).toUInt8 ∧ n ≤ 15) ∨ c = 0xde ∨ c = 0xdf := by
    unfold lengthHeader at hhdr
    split at hhdr
    · simp_all
    · simp only at hhdr
      split at hhdr <;> simp_all
  -- no map code is also an extension code
  have hext : isExt c = false := by
    rcases hcode with ⟨rfl, hfix⟩ | rfl | rfl
    · have hfixed : ∀ k : Fin 16, isExt (0x80 + k.val).toUInt8 = false := by decide
      exact hfixed ⟨n, by omega⟩
    · rfl
    · rfl
  rw [hhdr]
  unfold readMapLen
  refine readCode_bind ?_
  rw [hext]
  exact hr

/-! ## Texts, arrays and records -/

theorem readBytes_reads {hdr s : Bytes} (h : HeaderReads bytesLen hdr s.length) :
    Reads readBytes (hdr ++ s) s := by
  obtain ⟨c, tail, rfl, hr⟩ := h
  have hopt : Reads readBytes? (c :: tail ++ s) (some s) := by
    unfold readBytes?
    exact readCode_bind (Reads.bind hr (Reads.map some readN_reads))
  exact Reads.map (fun o : Option Bytes => o.getD []) hopt

theorem readBytes_str {s : Bytes} (hs : s.length < 4294967296) : Reads readBytes (encode (.str s)) s :=
  readBytes_reads (headerReads_str hs)

theorem readBytes_bin {b : Bytes} (h0 : 0 < b.length) (hb : b.length < 4294967296) :
    Reads readBytes (encode (.bin b)) b :=
  readBytes_reads (headerReads_bin h0 hb)

/-- A loop that reads one item per element of `ys` reads as many items. -/
theorem mapM_reads {α β : Type} {item : Reader α} {bs : α → Bytes} :
    ∀ {xs : List α} {ys : List β}, ys.length = xs.length → (∀ x ∈ xs, Reads item (bs x) x) →
      Reads (ys.mapM fun _ => item) (xs.flatMap bs) xs
  | [], [], _, _ => Reads.pure []
  | x :: xs, y :: ys, hlen, h => by
    have hrest : Reads (ys.mapM fun _ => item) (xs.flatMap bs) xs :=
      mapM_reads (by simpa using hlen) fun x' hx' => h x' (List.mem_cons_of_mem x hx')
    rw [List.mapM_cons, List.flatMap_cons]
    exact Reads.bind (h x List.mem_cons_self) (Reads.bind_pure (fun as => x :: as) hrest)

/-- A loop that takes one step per element of `ys` reads the chunks in turn, each step
updating the accumulated value. -/
theorem foldlM_reads {α β : Type} {step : α → β → Reader α} :
    ∀ {chunks : List (Bytes × (α → α))} {ys : List β}, ys.length = chunks.length →
      (∀ c ∈ chunks, ∀ acc y, Reads (step acc y) c.1 (c.2 acc)) → ∀ acc,
      Reads (ys.foldlM step acc) (chunks.flatMap Prod.fst) (chunks.foldl (fun a c => c.2 a) acc)
  | [], [], _, _, acc => Reads.pure acc
  | c :: chunks, y :: ys, hlen, h, acc => by
    have hrest : ∀ acc, Reads (ys.foldlM step acc) (chunks.flatMap Prod.fst)
        (chunks.foldl (fun a c => c.2 a) acc) :=
      foldlM_reads (by simpa using hlen) fun c' hc' => h c' (List.mem_cons_of_mem c hc')
    rw [List.foldlM_cons, List.flatMap_cons, List.foldl_cons]
    exact Reads.bind (h c List.mem_cons_self acc y) (hrest (c.2 acc))

/-- A reader that fails is caught; one that reads is not. -/
theorem Reads.tryCatch_ok {β : Type} {x : Reader β} {b : Bytes} {a : β}
    {handler : String → Reader (Except String β)} (hx : Reads x b a) :
    Reads (tryCatch (Except.ok <$> x) handler) b (Except.ok a) := by
  intro rest
  have h := Reads.map (fun v : β => (Except.ok v : Except String β)) hx rest
  simp only [StateT.run] at h ⊢
  simp [tryCatch, tryCatchThe, MonadExceptOf.tryCatch, h, Except.tryCatch]

/-- A record written as a map of named fields reads as its fields applied in turn to the
empty record, when the reader of each field's name reads its value. -/
theorem readRecord_reads {α : Type} {empty : α} {fields : List (String × (α → Reader α))}
    (entries : List (String × Bytes × (α → α))) (hn : entries.length < 4294967296)
    (hfield : ∀ e ∈ entries, (Bytes.ofString e.1).length < 4294967296 ∧
      ∃ f, fields.find? (·.1 == e.1) = some (e.1, f) ∧ ∀ acc, Reads (f acc) e.2.1 (e.2.2 acc)) :
    Reads (readRecord empty fields)
      (lengthHeader 0x80 15 (none, 0xde, 0xdf) entries.length ++
        entries.flatMap fun e => encode (.str (Bytes.ofString e.1)) ++ e.2.1)
      (entries.foldl (fun a e => e.2.2 a) empty) := by
  obtain ⟨c, tail, hhdr, hlen⟩ := headerReads_map hn
  rw [hhdr]
  unfold readRecord
  refine readCode_bind (Reads.bind (Reads.tryCatch_ok hlen) ?_)
  -- each field is its name, read as a text, then its value, read by the field's reader
  let chunks := entries.map fun e => (encode (.str (Bytes.ofString e.1)) ++ e.2.1, e.2.2)
  have hbytes : (entries.flatMap fun e => encode (.str (Bytes.ofString e.1)) ++ e.2.1) =
      chunks.flatMap Prod.fst := by simp [chunks, List.flatMap_map]
  have hvalue : entries.foldl (fun a e => e.2.2 a) empty = chunks.foldl (fun a c => c.2 a) empty := by
    simp [chunks, List.foldl_map]
  rw [hbytes, hvalue]
  refine foldlM_reads (by simp [chunks]) ?_ empty
  intro chunk hchunk acc _
  obtain ⟨e, he, rfl⟩ := List.mem_map.mp hchunk
  obtain ⟨hname, f, hfind, hf⟩ := hfield e he
  refine Reads.bind (readBytes_str hname) ?_
  simp only [Bytes.toUtf8_ofString, hfind]
  exact hf acc

end EdgeQuery.Msgpack
