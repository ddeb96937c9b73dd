import EdgeQuery.Text.Bytes
/-! # Tables of code points

A property of code points is stored as sorted runs: each entry gives the first code point
of a run and the value the property has from there up to the next entry. A mapping of
code points is stored as sorted pairs. Both are written as compact text and read once;
look-ups go by bisection.

The texts are sequences of `key:value` items separated by blanks. Keys are lower-case
hexadecimal numbers; values are hexadecimal numbers in a pair table and short tags in a
run table. A pair table may also be written as a list of steps, each standing for pairs
whose key and value advance together. -/

namespace EdgeQuery.Unicode

/-! ## Reading the compact texts -/

/-- Reads a hexadecimal number. -/
def readHex (s : String) : Nat :=
  s.foldl (fun n c => n * 16 + (Bytes.hexValue? c).getD 0) 0

/-- Splits a table text into its items, each a hexadecimal key and a tag. -/
def readRuns (s : String) : Array (Nat × String) :=
  ((s.splitOn " ").filterMap fun item =>
    match item.splitOn ":" with
    | [k, v] => some (readHex k, v)
    | _ => none).toArray

/-- Splits a table text into its pairs of hexadecimal numbers. -/
def readPairs (s : String) : Array (Nat × Nat) :=
  (readRuns s).map fun (k, v) => (k, readHex v)

/-- A step of a pair table: `count` pairs from `(key, value)`, the key and the value
advancing together by `stride`. -/
structure Step where
  key : Nat
  value : Nat
  count : Nat
  stride : Nat

/-- The pairs of a step, in key order. -/
def Step.pairs (s : Step) : List (Nat × Nat) :=
  (List.range s.count).map fun i => (s.key + i * s.stride, s.value + i * s.stride)

/-- The pair table of steps listed in key order, none reaching past the next. -/
def Step.table (steps : List Step) : Array (Nat × Nat) := (steps.flatMap Step.pairs).toArray

/-- The pair table of steps in any order, its pairs sorted by key. -/
def Step.sortedTable (steps : List Step) : Array (Nat × Nat) :=
  ((steps.flatMap Step.pairs).mergeSort fun a b => a.1 ≤ b.1).toArray

/-! ## Bisection -/

/-- The index of the last entry whose key is at most `c`, searching between `lo`
(whose key is at most `c`) and `hi` (exclusive). -/
def lastAtMost {α : Type} (t : Array (Nat × α)) (c : Nat) (lo hi : Nat) : Nat :=
  if h : lo + 1 < hi then
    let mid := (lo + hi) / 2
    if (t[mid]?.map (·.1)).getD 0 ≤ c then lastAtMost t c mid hi
    else lastAtMost t c lo mid
  else lo
termination_by hi - lo

/-- The value of the run that contains `c`, or `none` before the first run. -/
def runValue? {α : Type} (t : Array (Nat × α)) (c : Nat) : Option α :=
  match t[0]? with
  | none => none
  | some (first, _) =>
    if c < first then none
    else (t[lastAtMost t c 0 t.size]?).map (·.2)

/-- The value paired with exactly `c`, if any. -/
def pairValue? (t : Array (Nat × Nat)) (c : Nat) : Option Nat :=
  match t[0]? with
  | none => none
  | some (first, _) =>
    if c < first then none
    else
      match t[lastAtMost t c 0 t.size]? with
      | some (k, v) => if k = c then some v else none
      | none => none

end EdgeQuery.Unicode
