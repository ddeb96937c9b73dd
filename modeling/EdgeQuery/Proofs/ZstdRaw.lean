import Mathlib
import EdgeQuery.Codec.Zstd
/-! # Raw frames read back

`compress` writes one frame of raw blocks: the magic number, a single-segment header
carrying the content size, and the data cut into blocks of at most 128 KiB, the last one
marked. This module shows that `decompress` reads such a frame back as the data, for data no
longer than the largest content a reader accepts (`decompress_compress`).

The proof follows the frame: the header reads back its size field (`readHeader_compress`),
each raw block adds its bytes to the output (`blocks_go_raw`), and so the blocks of
`chunksOf data` add up to the data (`blocks_chunksOf`). -/

namespace EdgeQuery.Zstd

/-! ## Little-endian numbers -/

theorem toLe_succ (w v : Nat) : toLe (w + 1) v = (v % 256).toUInt8 :: toLe w (v / 256) := by
  simp only [toLe, List.range_succ_eq_map, List.map_cons, List.map_map]
  congr 1
  · simp
  · refine List.map_congr_left fun i _ => ?_
    simp only [Function.comp, Nat.pow_eq, Nat.pow_succ, Nat.div_div_eq_div_mul, Nat.mul_comm]

theorem length_toLe (w v : Nat) : (toLe w v).length = w := by simp [toLe]

/-- Little-endian bytes read back as the number modulo their range. -/
theorem le_toLe (w v : Nat) : le (toLe w v) = v % Nat.pow 256 w := by
  induction w generalizing v with
  | zero => simp [toLe, le, Nat.mod_one]
  | succ w ih =>
    rw [toLe_succ, le, List.foldr_cons, ← le, ih,
      show Nat.pow 256 (w + 1) = 256 * Nat.pow 256 w from Nat.mul_comm _ _, Nat.mod_mul]
    simp
    omega

/-! ## What `compress` writes -/

/-- The frame header descriptor and content size field `compress` writes for `n` bytes. -/
def sizeField (n : Nat) : UInt8 × Bytes :=
  if n < 256 then (0x20, toLe 1 n)
  else if n < 65536 + 256 then (0x60, toLe 2 (n - 256))
  else (0xA0, toLe 4 n)

/-- The pieces `compress` cuts data into, at most one block each. -/
def chunksOf (data : Bytes) : List Bytes :=
  let chunks := (List.range ((data.length + maxBlockSize - 1) / maxBlockSize)).map fun i =>
    (data.drop (i * maxBlockSize)).take maxBlockSize
  if chunks.isEmpty then [[]] else chunks

/-- Raw blocks holding `cs` in turn, the last one marked as the frame's last. -/
def rawBlocks : List Bytes → Bytes
  | [] => []
  | [c] => toLe 3 (1 + c.length * 8) ++ c
  | c :: cs => toLe 3 (c.length * 8) ++ c ++ rawBlocks cs

theorem rawBlocks_cons_cons (c c' : Bytes) (cs : List Bytes) :
    rawBlocks (c :: c' :: cs) = toLe 3 (c.length * 8) ++ c ++ rawBlocks (c' :: cs) := rfl

/-- Blocks numbered from `s` in a frame of `L` blocks, the one numbered `L - 1` marked last,
are `rawBlocks`. -/
theorem flatMap_zipIdx_eq_rawBlocks {L : Nat} {f : Bytes × Nat → Bytes}
    (hf : ∀ c i, f (c, i) = toLe 3 ((if i + 1 = L then 1 else 0) + c.length * 8) ++ c) :
    ∀ (cs : List Bytes) (s : Nat), s + cs.length = L → (cs.zipIdx s).flatMap f = rawBlocks cs
  | [], _, _ => rfl
  | [c], s, hL => by
    simp [List.zipIdx, hf, rawBlocks, show s + 1 = L by simpa using hL]
  | c :: c' :: cs, s, hL => by
    have hrest := flatMap_zipIdx_eq_rawBlocks hf (c' :: cs) (s + 1) (by simp at hL ⊢; omega)
    rw [List.zipIdx_cons, List.flatMap_cons, hrest, hf, if_neg (by simp at hL; omega), Nat.zero_add,
      rawBlocks_cons_cons]

theorem compress_eq (data : Bytes) :
    compress data = [0x28, 0xB5, 0x2F, 0xFD, (sizeField data.length).1] ++ (sizeField data.length).2 ++
      rawBlocks (chunksOf data) := by
  -- the blocks of `compress`, with the pair of each block read by its projections
  rw [← flatMap_zipIdx_eq_rawBlocks (L := (chunksOf data).length)
    (f := fun x => toLe 3 ((if x.2 + 1 = (chunksOf data).length then 1 else 0) + x.1.length * 8) ++ x.1)
    (fun c i => rfl) (chunksOf data) 0 (by simp)]
  rfl

theorem flatten_map_range_take (data : Bytes) (k : Nat) :
    ((List.range k).map fun i => (data.drop (i * maxBlockSize)).take maxBlockSize).flatten =
      data.take (k * maxBlockSize) := by
  induction k with
  | zero => simp
  | succ k ih =>
    rw [List.range_succ, List.map_append, List.flatten_append, ih, Nat.succ_mul, List.take_add]
    simp

theorem flatten_chunksOf (data : Bytes) : (chunksOf data).flatten = data := by
  unfold chunksOf
  simp only
  split
  · rename_i hempty
    have hk : (data.length + maxBlockSize - 1) / maxBlockSize = 0 := by simpa using hempty
    have hlen : data.length = 0 := by
      unfold maxBlockSize at hk
      omega
    simp [List.eq_nil_of_length_eq_zero hlen]
  · rw [flatten_map_range_take, List.take_of_length_le]
    have := Nat.div_add_mod (data.length + maxBlockSize - 1) maxBlockSize
    have := Nat.mod_lt (data.length + maxBlockSize - 1) (show maxBlockSize > 0 by decide)
    unfold maxBlockSize at *
    omega

theorem length_le_of_mem_chunksOf {data c : Bytes} (hc : c ∈ chunksOf data) :
    c.length ≤ maxBlockSize ∧ c.length ≤ data.length := by
  unfold chunksOf at hc
  simp only at hc
  split at hc
  · simp_all
  · obtain ⟨i, -, rfl⟩ := List.mem_map.mp hc
    simp only [List.length_take, List.length_drop]
    omega

theorem chunksOf_ne_nil (data : Bytes) : chunksOf data ≠ [] := by
  unfold chunksOf
  simp only
  split
  · simp
  · rename_i hne
    simpa using hne

theorem length_le_length_rawBlocks (cs : List Bytes) : cs.length ≤ (rawBlocks cs).length := by
  fun_induction rawBlocks cs with
  | case1 => simp
  | case2 c => simp [length_toLe]; omega
  | case3 c cs hne ih => simp [length_toLe]; omega

/-! ## Reading a frame -/

theorem readHeader_compress (data : Bytes) (h : data.length ≤ maxDecoded) (body : Bytes) :
    readHeader ([0x28, 0xB5, 0x2F, 0xFD, (sizeField data.length).1] ++ (sizeField data.length).2 ++ body) =
      .ok (.frame (max data.length 1024) (some data.length) false body) := by
  have hmax : max data.length 1024 ≤ maxDecoded := by
    unfold maxDecoded at h ⊢
    omega
  have hle : le [] = 0 := rfl
  unfold readHeader
  rw [readHeader.go]
  unfold sizeField
  split
  · rename_i hn
    have hshort : ¬ 1 + body.length + 1 + 1 + 1 + 1 + 1 < 4 := by omega
    simp [le_toLe, length_toLe, Nat.mod_eq_of_lt hn, hshort, hle, Nat.not_lt.mpr h, Nat.not_lt.mpr hmax]
    rfl
  · split
    · rename_i hn hn'
      have hshort : ¬ 2 + body.length + 1 + 1 + 1 + 1 + 1 < 4 := by omega
      have hfield : ¬ 2 + body.length < 2 := by omega
      have hfcs : (data.length - 256) % 65536 + 256 = data.length := by omega
      simp [le_toLe, length_toLe, hfcs, hshort, hfield, hle, Nat.not_lt.mpr h, Nat.not_lt.mpr hmax]
      rfl
    · have hshort : ¬ 4 + body.length + 1 + 1 + 1 + 1 + 1 < 4 := by omega
      have hfield : ¬ 4 + body.length < 4 := by omega
      have hfcs : data.length % 4294967296 = data.length := by
        unfold maxDecoded at h
        omega
      simp [le_toLe, length_toLe, hfcs, hshort, hfield, hle, Nat.not_lt.mpr h, Nat.not_lt.mpr hmax]
      rfl

theorem blocks_go_raw (window last : Nat) {c : Bytes} (hlast : last < 2) (rest : Bytes) (fuel : Nat)
    (t : Tables) (out : Array UInt8) (hc : c.length ≤ maxBlockSize) (hw : c.length ≤ window)
    (hout : out.size + c.length ≤ maxDecoded) :
    blocks.go window (fuel + 1) (toLe 3 (last + c.length * 8) ++ c ++ rest) t out =
      if last = 1 then .ok (out ++ c.toArray, rest) else blocks.go window fuel rest t (out ++ c.toArray) := by
  have hh : le (toLe 3 (last + c.length * 8)) = last + c.length * 8 := by
    rw [le_toLe, show Nat.pow 256 3 = 16777216 from rfl]
    unfold maxBlockSize at hc
    omega
  have hsize : (last + c.length * 8) / 8 = c.length := by omega
  have hkind : (last + c.length * 8) / 2 % 4 = 0 := by omega
  have hbit : (last + c.length * 8) % 2 = last := by omega
  have hfit : ¬ (maxBlockSize < c.length ∨ window < c.length) := by omega
  have hsize' : ¬ maxDecoded < out.size + c.length := by omega
  have henough : ¬ c.length + rest.length < c.length := by omega
  have hthree : ¬ 3 + (c.length + rest.length) < 3 := by omega
  rw [blocks.go]
  simp [hh, length_toLe, hsize, hkind, hbit, hfit, hsize', henough, hthree]
  rfl

/-- Raw blocks read back as their contents, in order, up to the one marked last. -/
theorem blocks_go_rawBlocks (window : Nat) (rest : Bytes) (t : Tables) :
    ∀ (cs : List Bytes) (fuel : Nat) (out : Array UInt8), cs ≠ [] → cs.length ≤ fuel →
      (∀ c ∈ cs, c.length ≤ maxBlockSize ∧ c.length ≤ window) →
      out.size + cs.flatten.length ≤ maxDecoded →
      blocks.go window fuel (rawBlocks cs ++ rest) t out = .ok (out ++ cs.flatten.toArray, rest)
  | [], _, _, hne, _, _, _ => absurd rfl hne
  | _ :: _, 0, _, _, hfuel, _, _ => by simp at hfuel
  | [c], fuel + 1, out, _, _, hc, hout => by
    have ⟨hmax, hw⟩ := hc c List.mem_cons_self
    rw [rawBlocks, blocks_go_raw window 1 (by omega) rest fuel t out hmax hw (by simpa using hout),
      if_pos rfl]
    simp
  | c :: c' :: cs, fuel + 1, out, _, hfuel, hc, hout => by
    have ⟨hmax, hw⟩ := hc c List.mem_cons_self
    have hout' : out.size + c.length ≤ maxDecoded := by
      simp only [List.flatten_cons, List.length_append] at hout
      omega
    have hrest := blocks_go_rawBlocks window rest t (c' :: cs) fuel (out ++ c.toArray) (by simp)
      (by simpa using hfuel) (fun x hx => hc x (List.mem_cons_of_mem c hx))
      (by simp only [List.flatten_cons, List.length_append, Array.size_append, List.size_toArray] at hout ⊢; omega)
    have hraw := blocks_go_raw window 0 (by omega) (rawBlocks (c' :: cs) ++ rest) fuel t out hmax hw hout'
    rw [Nat.zero_add, if_neg (by omega)] at hraw
    rw [rawBlocks_cons_cons, List.append_assoc, hraw, hrest]
    simp

theorem blocks_chunksOf {data : Bytes} (hsize : data.length ≤ maxDecoded) :
    blocks (max data.length 1024) (rawBlocks (chunksOf data)) = .ok (data.toArray, []) := by
  have h := blocks_go_rawBlocks (max data.length 1024) [] {} (chunksOf data) _ #[] (chunksOf_ne_nil data)
    (Nat.le_succ_of_le (length_le_length_rawBlocks _))
    (fun c hc => ⟨(length_le_of_mem_chunksOf hc).1, by have := (length_le_of_mem_chunksOf hc).2; omega⟩)
    (by simpa [flatten_chunksOf] using hsize)
  rw [List.append_nil, flatten_chunksOf] at h
  unfold blocks
  simpa using h

/-- A frame whose header and blocks read back, with the size its header gives and no
checksum, adds its content to the output; with no input after it, decompression ends. -/
theorem decompress_go_frame {fuel window n : Nat} {input rest : Bytes} {out content : Array UInt8}
    (hh : readHeader input = .ok (.frame window (some n) false rest))
    (hb : blocks window rest = .ok (content, [])) (hn : content.size = n)
    (hsize : out.size + content.size ≤ maxDecoded) :
    decompress.go (fuel + 1) input out = .ok (out ++ content).toList := by
  subst hn
  rw [decompress.go, hh]
  simp [bind, Except.bind, hb, pure, Except.pure, hsize]

/-- Decompressing what `compress` wrote gives back the data, for data no longer than the
largest size a reader accepts. -/
theorem decompress_compress (data : Bytes) (h : data.length ≤ maxDecoded) :
    decompress (compress data) = .ok data := by
  rw [compress_eq]
  unfold decompress
  rw [decompress_go_frame (readHeader_compress data h _) (blocks_chunksOf h) (by simp) (by simpa using h)]
  simp

end EdgeQuery.Zstd
