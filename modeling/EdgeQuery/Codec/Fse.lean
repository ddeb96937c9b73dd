import EdgeQuery.Text.Bytes
/-! # Finite-state entropy tables

The entropy coder of compressed frames. A table of `2^log` states is described by a
normalized count per symbol (counts sum to the table size; `-1` stands for a count below
one, which takes one state at the end of the table). Symbols are spread over the states
with a fixed step, and each state records its symbol, how many bits to read for the next
state and the base to add them to.

Bits are read two ways: table descriptions forward from the least significant bit, and
coded streams backward from a final marker bit (`Backward`). -/

namespace EdgeQuery.Fse

/-- Bit `i` of a byte array, counting from the least significant bit of the first byte;
zero outside the array. -/
def bitAt (data : Array UInt8) (i : Int) : Nat :=
  if i < 0 then 0
  else
    let i := i.toNat
    ((data.getD (i / 8) 0).toNat >>> (i % 8)) % 2

/-- The `n` bits from `pos` up, as a number whose lowest bit is bit `pos`. -/
def bitsAt (data : Array UInt8) (pos : Int) (n : Nat) : Nat :=
  (List.range n).foldr (fun (k : Nat) acc => acc * 2 + bitAt data (pos + (k : Int))) 0

/-- The position of the highest set bit of a positive number. -/
def highBit (n : Nat) : Nat := Nat.log2 n

/-- A backward bit stream: bits below `pos` remain, read from the top down. -/
structure Backward where
  data : Array UInt8
  pos : Int

namespace Backward

/-- Opens a stream: the highest set bit of the last byte marks its end. -/
def ofBytes (b : Bytes) : Except String Backward :=
  match b.getLast? with
  | none => .error "empty bit stream"
  | some last =>
    if last = 0 then .error "bit stream without end marker"
    else .ok ⟨b.toArray, (8 * (b.length - 1) + highBit last.toNat : Nat)⟩

/-- Reads `n` bits (zeros below the start of the stream). -/
def read (s : Backward) (n : Nat) : Nat × Backward :=
  (bitsAt s.data (s.pos - n) n, { s with pos := s.pos - n })

/-- The next `n` bits, without reading them. -/
def peek (s : Backward) (n : Nat) : Nat := bitsAt s.data (s.pos - n) n

/-- Whether every bit was read, and no more. -/
def finished (s : Backward) : Bool := s.pos = 0

/-- Whether more bits were read than the stream holds. -/
def overflowed (s : Backward) : Bool := s.pos < 0

end Backward

/-- One state of a decoding table. -/
structure Entry where
  symbol : Nat
  bits : Nat
  base : Nat
  deriving Inhabited

/-- A decoding table and its accuracy log. -/
structure Table where
  log : Nat
  entries : Array Entry
  deriving Inhabited

/-- The table of a single symbol, which reads no bits. -/
def Table.single (sym : Nat) : Table := ⟨0, #[⟨sym, 0, 0⟩]⟩

/-- Moves a spreading position on by `step` until it is at most `high`. -/
def nextPos (step mask high : Nat) (pos : Nat) : Nat → Nat
  | 0 => pos
  | fuel + 1 =>
    let p := (pos + step) &&& mask
    if p > high then nextPos step mask high p fuel else p

/-- Builds the decoding table of normalized counts. -/
def build (log : Nat) (counts : List Int) : Table :=
  let size := Nat.pow 2 log
  let indexed := counts.zipIdx
  -- Symbols with a count below one take the last states.
  let (cells, high) := indexed.foldl (fun (cells, high) (c, s) =>
    if c = -1 then (cells.set! high s, high - 1) else (cells, high)) (Array.replicate size 0, size - 1)
  let step := (size >>> 1) + (size >>> 3) + 3
  let mask := size - 1
  let (cells, _) := indexed.foldl (fun (cells, pos) (c, s) =>
    if c > 0 then
      (List.range c.toNat).foldl (fun (cells, pos) _ =>
        (cells.set! pos s, nextPos step mask high pos size)) (cells, pos)
    else (cells, pos)) (cells, 0)
  let next0 : Array Nat := (counts.map fun c => if c = -1 then 1 else c.toNat).toArray
  let (entries, _) := (List.range size).foldl (fun (es, next) u =>
    let s := cells[u]!
    let x := next[s]!
    let nb := log - highBit x
    (es.push ⟨s, nb, (x <<< nb) - size⟩, next.set! s (x + 1))) (#[], next0)
  ⟨log, entries⟩

/-- The state after `state`, reading its bits. -/
def Table.step (t : Table) (state : Nat) (s : Backward) : Nat × Backward :=
  let e := t.entries[state]!
  let (v, s) := s.read e.bits
  (e.base + v, s)

/-- The symbol of a state. -/
def Table.symbol (t : Table) (state : Nat) : Nat := t.entries[state]!.symbol

/-- Reads a table description forward from the start of `data`: the accuracy log, the
normalized counts and the number of bytes the description takes. -/
def readCounts (data : Array UInt8) (maxSymbol maxLog : Nat) :
    Except String (Nat × List Int × Nat) := Id.run do
  let log := bitsAt data 0 4 + 5
  if log > maxLog then return .error "table log too large"
  let mut pos : Nat := 4
  let mut remaining : Int := Int.pow 2 log + 1
  let mut threshold : Nat := Nat.pow 2 log
  let mut nbBits : Nat := log + 1
  let mut counts : Array Int := #[]
  let mut previousZero := false
  for _ in [0:maxSymbol + 2] do
    if !(remaining > 1 && counts.size ≤ maxSymbol) then break
    if previousZero then
      let mut n0 := counts.size
      for _ in [0:8 * data.size + 2] do
        if bitsAt data pos 2 = 3 then
          n0 := n0 + 3
          pos := pos + 2
        else break
      n0 := n0 + bitsAt data pos 2
      pos := pos + 2
      if n0 > maxSymbol then return .error "symbol value too large"
      for _ in [0:n0] do
        if counts.size < n0 then counts := counts.push 0
      if counts.size > maxSymbol then break
    let max : Int := 2 * threshold - 1 - remaining
    let low := bitsAt data pos (nbBits - 1)
    let mut count : Int := 0
    if (low : Int) < max then
      count := low
      pos := pos + (nbBits - 1)
    else
      let v := bitsAt data pos nbBits
      count := if v ≥ threshold then (v : Int) - max else v
      pos := pos + nbBits
    count := count - 1
    remaining := remaining - (if count < 0 then -count else count)
    counts := counts.push count
    previousZero := count = 0
    for _ in [0:log + 1] do
      if remaining < threshold then
        nbBits := nbBits - 1
        threshold := threshold / 2
  if remaining ≠ 1 then return .error "corrupted table description"
  return .ok (log, counts.toList, (pos + 7) / 8)

/-- The predefined distribution of literal lengths. -/
def literalLengthCounts : List Int :=
  [4, 3, 2, 2, 2, 2, 2, 2, 2, 2, 2, 2, 2, 1, 1, 1, 2, 2, 2, 2, 2, 2, 2, 2, 2, 3, 2, 1, 1, 1, 1, 1,
   -1, -1, -1, -1]

/-- The predefined distribution of match lengths. -/
def matchLengthCounts : List Int :=
  [1, 4, 3, 2, 2, 2, 2, 2, 2, 1, 1, 1, 1, 1, 1, 1, 1, 1, 1, 1, 1, 1, 1, 1, 1, 1, 1, 1, 1, 1, 1, 1,
   1, 1, 1, 1, 1, 1, 1, 1, 1, 1, 1, 1, 1, 1, -1, -1, -1, -1, -1, -1, -1]

/-- The predefined distribution of offset codes. -/
def offsetCounts : List Int :=
  [1, 1, 1, 1, 1, 1, 2, 2, 2, 1, 1, 1, 1, 1, 1, 1, 1, 1, 1, 1, 1, 1, 1, 1, -1, -1, -1, -1, -1]

end EdgeQuery.Fse
