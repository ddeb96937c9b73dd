import EdgeQuery.Codec.Fse
import EdgeQuery.Codec.XxHash
/-! # Zstandard frames

Reading and writing the compressed frame format of RFC 8878.

A frame is a magic number, a header (window, dictionary, content size, checksum flag),
blocks and an optional checksum (the low 32 bits of the XXH64 of the content). A block is
raw, a run of one byte, or compressed: Huffman-coded literals and a list of sequences
(literal length, match length, offset), each coded with finite-state entropy tables that
are predefined, a single symbol, described in the block, or repeated from the block
before. Skippable frames are passed over. Decompression stops cleanly where the input
ends between frames or inside a frame header.

Writing stores the data in raw blocks of one frame, which every reader accepts. -/

namespace EdgeQuery.Zstd

open Fse

/-- The largest block. -/
def maxBlockSize : Nat := 128 * 1024

/-- The largest decompressed size and window accepted. -/
def maxDecoded : Nat := 16 * 1024 * 1024

/-! ## Huffman-coded literals -/

/-- A Huffman decoding table: for every value of the next `log` bits, the symbol and its
code length. -/
structure Huffman where
  log : Nat
  entries : Array (Nat × Nat)
  deriving Inhabited

/-- The table of code weights (the last weight is implied by the others). -/
def Huffman.ofWeights (ws : List Nat) : Except String Huffman := do
  let total := ws.foldl (fun acc w => if w > 0 then acc + Nat.pow 2 (w - 1) else acc) 0
  if total = 0 then throw "huffman: no symbols"
  let log := highBit total + 1
  if log > 11 then throw "huffman: table log too large"
  let rest := Nat.pow 2 log - total
  if rest &&& (rest - 1) ≠ 0 then throw "huffman: weights do not sum to a power of two"
  let ws := ws ++ [highBit rest + 1]
  let counts := (List.range (log + 1)).map fun w => (ws.filter (· = w)).length
  let starts := (List.range (log + 1)).foldl (fun (acc : Array Nat × Nat) w =>
    if w = 0 then (acc.1.push 0, acc.2)
    else (acc.1.push acc.2, acc.2 + (counts[w]!) * Nat.pow 2 (w - 1))) (#[], 0)
  let (table, _) := ws.zipIdx.foldl (fun (table, starts) (w, s) =>
    if w = 0 then (table, starts)
    else
      let len := Nat.pow 2 (w - 1)
      let st := starts[w]!
      let table := (List.range len).foldl (fun t k => t.set! (st + k) (s, log + 1 - w)) table
      (table, starts.set! w (st + len))) (Array.replicate (Nat.pow 2 log) (0, 0), starts.1)
  pure ⟨log, table⟩

/-- Decodes the weights coded with a finite-state table, alternating two states until
the stream runs out. -/
def fseWeights (data : Bytes) : Except String (List Nat) := do
  let (log, counts, used) ← readCounts data.toArray 255 6
  let t := build log counts
  let s ← Backward.ofBytes (data.drop used)
  let (st1, s) := s.read log
  let (st2, s) := s.read log
  let rec go : Nat → Nat → Nat → Backward → List Nat → List Nat
    | 0, _, _, _, acc => acc
    | fuel + 1, a, b, s, acc =>
      let acc := acc ++ [t.symbol a]
      let (a, s) := t.step a s
      if s.overflowed then acc ++ [t.symbol b]
      else go fuel b a s acc
  pure (go 255 st1 st2 s [])

/-- Reads a Huffman table description: the table and the bytes it takes. -/
def readHuffman (data : Bytes) : Except String (Huffman × Nat) := do
  match data with
  | [] => throw "huffman: missing table"
  | h :: rest =>
    if h.toNat < 128 then
      if rest.length < h.toNat then throw "huffman: truncated table"
      let ws ← fseWeights (rest.take h.toNat)
      let t ← Huffman.ofWeights ws
      pure (t, 1 + h.toNat)
    else
      let n := h.toNat - 127
      let bytes := (n + 1) / 2
      if rest.length < bytes then throw "huffman: truncated table"
      let ws := ((rest.take bytes).flatMap fun b => [b.toNat / 16, b.toNat % 16]).take n
      let t ← Huffman.ofWeights ws
      pure (t, 1 + bytes)

/-- Decodes `count` symbols of one backward stream. -/
def Huffman.decodeStream (t : Huffman) (stream : Bytes) (count : Nat) : Except String Bytes := do
  let s ← Backward.ofBytes stream
  let (out, s) := (List.range count).foldl (fun (out, s) _ =>
    let (sym, bits) := t.entries[s.peek t.log]!
    (out.push sym.toUInt8, { s with pos := s.pos - bits })) (#[], s)
  if !s.finished then throw "huffman: stream not fully consumed"
  pure out.toList

/-- Little-endian value of bytes. -/
def le (b : Bytes) : Nat := b.foldr (fun x acc => acc * 256 + x.toNat) 0

/-- Reads the literals section: the literals, the bytes taken, and the Huffman table for
later blocks. -/
def readLiterals (data : Bytes) (prev : Option Huffman) :
    Except String (Bytes × Nat × Option Huffman) := do
  let b0 ← match data.head? with
    | some b => pure b.toNat
    | none => throw "literals: empty block"
  let kind := b0 % 4
  let sf := (b0 / 4) % 4
  if kind < 2 then
    let (size, hs) :=
      if sf = 1 then (b0 / 16 + (data.getD 1 0).toNat * 16, 2)
      else if sf = 3 then (b0 / 16 + (data.getD 1 0).toNat * 16 + (data.getD 2 0).toNat * 4096, 3)
      else (b0 / 8, 1)
    if data.length < hs then throw "literals: truncated header"
    if kind = 0 then
      if data.length < hs + size then throw "literals: truncated"
      pure ((data.drop hs).take size, hs + size, prev)
    else
      match data.drop hs with
      | b :: _ => pure (List.replicate size b, hs + 1, prev)
      | [] => throw "literals: truncated"
  else
    let hs := if sf ≤ 1 then 3 else if sf = 2 then 4 else 5
    if data.length < hs then throw "literals: truncated header"
    let v := le (data.take hs)
    let fieldBits := if sf ≤ 1 then 10 else if sf = 2 then 14 else 18
    let regen := (v / 16) % Nat.pow 2 fieldBits
    let comp := (v / Nat.pow 2 (4 + fieldBits)) % Nat.pow 2 fieldBits
    if data.length < hs + comp then throw "literals: truncated"
    let payload := (data.drop hs).take comp
    let (table, streams) ← if kind = 2 then do
        let (t, used) ← readHuffman payload
        pure (t, payload.drop used)
      else match prev with
        | some t => pure (t, payload)
        | none => throw "literals: no previous huffman table"
    let lits ← if sf = 0 then table.decodeStream streams regen
      else do
        if streams.length < 6 then throw "literals: truncated jump table"
        let s1 := le (streams.take 2)
        let s2 := le ((streams.drop 2).take 2)
        let s3 := le ((streams.drop 4).take 2)
        let body := streams.drop 6
        if s1 + s2 + s3 > body.length then throw "literals: bad jump table"
        let seg := (regen + 3) / 4
        if 3 * seg > regen then throw "literals: bad stream sizes"
        let a ← table.decodeStream (body.take s1) seg
        let b ← table.decodeStream ((body.drop s1).take s2) seg
        let c ← table.decodeStream ((body.drop (s1 + s2)).take s3) seg
        let d ← table.decodeStream (body.drop (s1 + s2 + s3)) (regen - 3 * seg)
        pure (a ++ b ++ c ++ d)
    pure (lits, hs + comp, some table)

/-! ## Sequences -/

/-- Base values and extra bits of the literal length codes. -/
def literalLengthCodes : Array (Nat × Nat) :=
  ((List.range 16).map fun c => (c, 0)).toArray ++
  #[(16, 1), (18, 1), (20, 1), (22, 1), (24, 2), (28, 2), (32, 3), (40, 3), (48, 4), (64, 6),
    (128, 7), (256, 8), (512, 9), (1024, 10), (2048, 11), (4096, 12), (8192, 13), (16384, 14),
    (32768, 15), (65536, 16)]

/-- Base values and extra bits of the match length codes. -/
def matchLengthCodes : Array (Nat × Nat) :=
  ((List.range 32).map fun c => (c + 3, 0)).toArray ++
  #[(35, 1), (37, 1), (39, 1), (41, 1), (43, 2), (47, 2), (51, 3), (59, 3), (67, 4), (83, 4),
    (99, 5), (131, 7), (259, 8), (515, 9), (1027, 10), (2051, 11), (4099, 12), (8195, 13),
    (16387, 14), (32771, 15), (65539, 16)]

/-- The tables kept from block to block of a frame. -/
structure Tables where
  huffman : Option Huffman := none
  literalLengths : Option Table := none
  offsets : Option Table := none
  matchLengths : Option Table := none
  /-- The three most recent offsets. -/
  reps : Nat × Nat × Nat := (1, 4, 8)
  deriving Inhabited

/-- Reads the table of one sequence field by its mode. -/
def readTable (mode : Nat) (data : Bytes) (predefined : Table) (prev : Option Table)
    (maxSymbol maxLog : Nat) : Except String (Table × Nat) :=
  match mode with
  | 0 => .ok (predefined, 0)
  | 1 => match data with
    | b :: _ => .ok (Table.single b.toNat, 1)
    | [] => .error "sequences: truncated"
  | 2 => do
    let (log, counts, used) ← readCounts data.toArray maxSymbol maxLog
    pure (build log counts, used)
  | _ => match prev with
    | some t => .ok (t, 0)
    | none => .error "sequences: no previous table"

/-- The offset of a sequence and the new recent offsets. -/
def resolveOffset (value ll : Nat) (reps : Nat × Nat × Nat) : Nat × (Nat × Nat × Nat) :=
  let (r1, r2, r3) := reps
  if value > 3 then (value - 3, (value - 3, r1, r2))
  else
    let idx := if ll = 0 then value + 1 else value
    match idx with
    | 1 => (r1, reps)
    | 2 => (r2, (r2, r1, r3))
    | 3 => (r3, (r3, r1, r2))
    | _ => let o := r1 - 1; (o, (o, r1, r2))

/-- Decodes `count` sequences from a backward stream. -/
def decodeSequences (ll of ml : Table) (count : Nat) (s : Backward) (reps : Nat × Nat × Nat) :
    Except String (List (Nat × Nat × Nat) × (Nat × Nat × Nat)) := do
  let (sll, s) := s.read ll.log
  let (sof, s) := s.read of.log
  let (sml, s) := s.read ml.log
  let (seqs, _, reps, s) := (List.range count).foldl (fun (acc, (sll, sof, sml), reps, s) i =>
    let ofCode := of.symbol sof
    let (mlBase, mlBits) := matchLengthCodes.getD (ml.symbol sml) (0, 0)
    let (llBase, llBits) := literalLengthCodes.getD (ll.symbol sll) (0, 0)
    let (ofExtra, s) := s.read ofCode
    let (mlExtra, s) := s.read mlBits
    let (llExtra, s) := s.read llBits
    let litLen := llBase + llExtra
    let (offset, reps) := resolveOffset (Nat.pow 2 ofCode + ofExtra) litLen reps
    let acc := acc.push (litLen, mlBase + mlExtra, offset)
    if i + 1 = count then (acc, (sll, sof, sml), reps, s)
    else
      let (sll, s) := ll.step sll s
      let (sml, s) := ml.step sml s
      let (sof, s) := of.step sof s
      (acc, (sll, sof, sml), reps, s)) (#[], (sll, sof, sml), reps, s)
  if !s.finished then throw "sequences: stream not fully consumed"
  pure (seqs.toList, reps)

/-- Executes sequences: literals are copied, then each match from `offset` bytes back. -/
def execute (out : Array UInt8) (lits : Array UInt8) (seqs : List (Nat × Nat × Nat)) :
    Except String (Array UInt8) := do
  let mut out := out
  let mut lp := 0
  for (ll, ml, off) in seqs do
    if lp + ll > lits.size then throw "sequences: literal length too large"
    out := out ++ lits.extract lp (lp + ll)
    lp := lp + ll
    if off = 0 || off > out.size then throw "sequences: offset out of range"
    for _ in [0:ml] do
      out := out.push out[out.size - off]!
  pure (out ++ lits.extract lp lits.size)

/-- Decodes a compressed block, appending to the frame's output. -/
def compressedBlock (data : Bytes) (t : Tables) (out : Array UInt8) :
    Except String (Array UInt8 × Tables) := do
  let (lits, used, huffman) ← readLiterals data t.huffman
  let t := { t with huffman }
  let rest := data.drop used
  let (count, hs) ← match rest with
    | [] => throw "sequences: missing header"
    | b0 :: more =>
      let b0 := b0.toNat
      if b0 < 128 then pure (b0, 1)
      else if b0 < 255 then pure ((b0 - 128) * 256 + (more.getD 0 0).toNat, 2)
      else pure ((more.getD 0 0).toNat + (more.getD 1 0).toNat * 256 + 0x7F00, 3)
  if count = 0 then return (out ++ lits.toArray, t)
  let rest := rest.drop hs
  let modes ← match rest.head? with
    | some m => pure m.toNat
    | none => throw "sequences: missing modes"
  let rest := rest.drop 1
  let (llT, n1) ← readTable (modes / 64) rest (build 6 literalLengthCounts) t.literalLengths 35 9
  let rest := rest.drop n1
  let (ofT, n2) ← readTable ((modes / 16) % 4) rest (build 5 offsetCounts) t.offsets 31 8
  let rest := rest.drop n2
  let (mlT, n3) ← readTable ((modes / 4) % 4) rest (build 6 matchLengthCounts) t.matchLengths 52 9
  let rest := rest.drop n3
  let s ← Backward.ofBytes rest
  let (seqs, reps) ← decodeSequences llT ofT mlT count s t.reps
  let out ← execute out lits.toArray seqs
  pure (out, { t with literalLengths := some llT, offsets := some ofT, matchLengths := some mlT, reps })

/-! ## Frames -/

/-- Decodes the blocks of a frame; returns the content and the input after the blocks. -/
def blocks (window : Nat) (input : Bytes) : Except String (Array UInt8 × Bytes) := do
  let rec go : Nat → Bytes → Tables → Array UInt8 → Except String (Array UInt8 × Bytes)
    | 0, input, _, out => pure (out, input)
    | fuel + 1, input, t, out => do
      if input.length < 3 then throw "unexpected EOF"
      let h := le (input.take 3)
      let last := h % 2 = 1
      let kind := (h / 2) % 4
      let size := h / 8
      let input := input.drop 3
      let (out, t, input) ← match kind with
        | 0 =>
          if size > maxBlockSize || size > window then throw "window size exceeded"
          if input.length < size then throw "unexpected EOF"
          pure (out ++ (input.take size).toArray, t, input.drop size)
        | 1 =>
          if size > maxBlockSize || size > window then throw "window size exceeded"
          match input with
          | b :: rest => pure (out ++ Array.replicate size b, t, rest)
          | [] => throw "unexpected EOF"
        | 2 =>
          if size > maxBlockSize then throw "invalid input: compressed size too big"
          if size < 2 then throw "block too small"
          if input.length < size then throw "unexpected EOF"
          let (out, t) ← compressedBlock (input.take size) t out
          pure (out, t, input.drop size)
        | _ => throw "invalid input: reserved block type encountered"
      if out.size > maxDecoded then throw "decompressed size exceeds configured limit"
      if last then pure (out, input) else go fuel input t out
  go (input.length + 1) input {} #[]

/-- The outcome of reading a frame header: the frame's window, content size and checksum
flag with the bytes after the header; or the end of the input. -/
inductive Header where
  | frame (window : Nat) (contentSize : Option Nat) (checksum : Bool) (rest : Bytes)
  | done

/-- Reads the header of the next frame, passing over skippable frames. -/
def readHeader (input : Bytes) : Except String Header := do
  let rec go : Nat → Bytes → Except String Header
    | 0, _ => pure .done
    | fuel + 1, input => do
      if input.isEmpty then return .done
      if input.length < 4 then throw "unexpected EOF"
      let sig := input.take 4
      if sig.drop 1 = [0x2A, 0x4D, 0x18] && (sig.headD 0) &&& 0xF0 = 0x50 then
        let rest := input.drop 4
        if rest.length < 4 then throw "unexpected EOF"
        let n := le (rest.take 4)
        if rest.length < 4 + n then throw "unexpected EOF"
        go fuel (rest.drop (4 + n))
      else if sig ≠ [0x28, 0xB5, 0x2F, 0xFD] then throw "invalid input: magic number mismatch"
      else
        let rest := input.drop 4
        match rest with
        | [] => pure .done
        | fhd :: rest =>
          let fhd := fhd.toNat
          let single := (fhd / 32) % 2 = 1
          if (fhd / 8) % 2 = 1 then throw "reserved bit set on frame header"
          let (window?, rest) := if single then (some none, rest) else
            match rest with
            | wd :: r =>
              let wd := wd.toNat
              let base := Nat.pow 2 (10 + wd / 8)
              (some (some (base + base / 8 * (wd % 8))), r)
            | [] => (none, [])
          match window? with
          | none => pure .done
          | some window =>
            let dictBytes := match fhd % 4 with | 0 => 0 | 1 => 1 | 2 => 2 | _ => 4
            if rest.length < dictBytes then throw "unexpected EOF"
            let dict := le (rest.take dictBytes)
            let rest := rest.drop dictBytes
            let fcsBytes := match fhd / 64 with
              | 0 => if single then 1 else 0
              | 1 => 2
              | 2 => 4
              | _ => 8
            if rest.length < fcsBytes then throw "unexpected EOF"
            let fcs : Option Nat := if fcsBytes = 0 then none else
              let v := le (rest.take fcsBytes)
              some (if fcsBytes = 2 then v + 256 else v)
            let rest := rest.drop fcsBytes
            let window := match window with
              | some w => w
              | none => max (fcs.getD 0) 1024
            if window > maxDecoded then
              throw (if single then "decompressed size exceeds configured limit" else "window size exceeded")
            if dict ≠ 0 then throw "unknown dictionary"
            if (fcs.getD 0) > maxDecoded then throw "decompressed size exceeds configured limit"
            pure (.frame window fcs ((fhd / 4) % 2 = 1) rest)
  go (input.length + 1) input

/-- Decompresses every frame of the input, concatenated. -/
def decompress (input : Bytes) : Except String Bytes := do
  let rec go : Nat → Bytes → Array UInt8 → Except String Bytes
    | 0, _, out => pure out.toList
    | fuel + 1, input, out => do
      match ← readHeader input with
      | .done => pure out.toList
      | .frame window fcs checksum rest =>
        let (content, rest) ← blocks window rest
        if let some n := fcs then
          if content.size ≠ n then throw "frame size does not match size on stream"
        let rest ← if checksum then do
            if rest.length < 4 then throw "unexpected EOF"
            let want := (XxHash.hash64 content.toList).toNat % Nat.pow 2 32
            if le (rest.take 4) ≠ want then throw "CRC check failed"
            pure (rest.drop 4)
          else pure rest
        let out := out ++ content
        if out.size > maxDecoded then throw "decompressed size exceeds configured limit"
        if rest.isEmpty then pure out.toList else go fuel rest out
  go (input.length + 1) input #[]

/-- Little-endian bytes of a number. -/
def toLe (width v : Nat) : Bytes := (List.range width).map fun i => (v / Nat.pow 256 i % 256).toUInt8

/-- Compresses data into one frame of raw blocks, with its content size. -/
def compress (data : Bytes) : Bytes :=
  let n := data.length
  let (fhd, fcs) :=
    if n < 256 then (0x20, toLe 1 n)
    else if n < 65536 + 256 then (0x60, toLe 2 (n - 256))
    else (0xA0, toLe 4 n)
  let chunks := (List.range ((n + maxBlockSize - 1) / maxBlockSize)).map fun i =>
    (data.drop (i * maxBlockSize)).take maxBlockSize
  let chunks := if chunks.isEmpty then [[]] else chunks
  let body := chunks.zipIdx.flatMap fun (c, i) =>
    let last := if i + 1 = chunks.length then 1 else 0
    toLe 3 (last + c.length * 8) ++ c
  [0x28, 0xB5, 0x2F, 0xFD, fhd] ++ fcs ++ body

end EdgeQuery.Zstd
