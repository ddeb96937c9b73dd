import EdgeQuery.Text.Bytes
/-! # XXH64

The 64-bit xxHash of a byte string with seed 0, as compressed frames use for their
content checksum. All arithmetic is modulo 2^64. -/

namespace EdgeQuery.XxHash

def prime1 : UInt64 := 11400714785074694791
def prime2 : UInt64 := 14029467366897019727
def prime3 : UInt64 := 1609587929392839161
def prime4 : UInt64 := 9650029242287828579
def prime5 : UInt64 := 2870177450012600261

/-- Rotates left. -/
def rotl (x : UInt64) (r : UInt64) : UInt64 := (x <<< r) ||| (x >>> (64 - r))

/-- The little-endian value of up to eight bytes. -/
def le (b : Bytes) : UInt64 := b.foldr (fun x acc => (acc <<< 8) ||| x.toUInt64) 0

/-- One accumulator step. -/
def round (acc input : UInt64) : UInt64 := rotl (acc + input * prime2) 31 * prime1

/-- Merges an accumulator into the hash. -/
def mergeRound (h v : UInt64) : UInt64 := (h ^^^ round 0 v) * prime1 + prime4

/-- Hashes the whole stripes of 32 bytes, returning the accumulators and the bytes after
them. -/
def stripes (v : UInt64 × UInt64 × UInt64 × UInt64) (b : Bytes) :
    (UInt64 × UInt64 × UInt64 × UInt64) × Bytes :=
  let n := b.length / 32
  let v := (List.range n).foldl (fun (v1, v2, v3, v4) i =>
    let c := (b.drop (32 * i)).take 32
    (round v1 (le (c.take 8)), round v2 (le ((c.drop 8).take 8)),
      round v3 (le ((c.drop 16).take 8)), round v4 (le ((c.drop 24).take 8)))) v
  (v, b.drop (32 * n))

/-- The tail: eight, four and single bytes. -/
def tail (h : UInt64) : Bytes → UInt64
  | [] => h
  | x :: rest =>
    let b := x :: rest
    if b.length ≥ 8 then
      tail (rotl (h ^^^ round 0 (le (b.take 8))) 27 * prime1 + prime4) (b.drop 8)
    else if b.length ≥ 4 then
      tail (rotl (h ^^^ (le (b.take 4) * prime1)) 23 * prime2 + prime3) (b.drop 4)
    else tail (rotl (h ^^^ (x.toUInt64 * prime5)) 11 * prime1) rest
termination_by b => b.length
decreasing_by all_goals simp only [List.length_drop, List.length_cons]; all_goals omega

/-- The hash of a byte string. -/
def hash64 (data : Bytes) : UInt64 :=
  let len := data.length.toUInt64
  let (h, rest) :=
    if data.length ≥ 32 then
      let ((v1, v2, v3, v4), rest) :=
        stripes (prime1 + prime2, prime2, 0, 0 - prime1) data
      let h := rotl v1 1 + rotl v2 7 + rotl v3 12 + rotl v4 18
      let h := mergeRound (mergeRound (mergeRound (mergeRound h v1) v2) v3) v4
      (h, rest)
    else (prime5, data)
  let h := tail (h + len) rest
  let h := (h ^^^ (h >>> 33)) * prime2
  let h := (h ^^^ (h >>> 29)) * prime3
  h ^^^ (h >>> 32)

end EdgeQuery.XxHash
