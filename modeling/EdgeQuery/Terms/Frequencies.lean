import EdgeQuery.Terms.Phrases
/-! # Term frequencies

A term-frequency list holds, for each term, the token offsets at which it occurs in each
record, sorted and without repeats. An offset map holds one such list per field, and the
phrase positions recorded while one record is evaluated.

The terms of a list are kept in order, each once, so that the offsets of many terms are
added in one pass that merges them in; offsets are found in a sorted list by halving. -/

namespace EdgeQuery

/-- Token offsets are 64-bit integers: the sum of two wraps around. -/
def offsetAdd (a b : Int) : Int := (Int64.ofInt a + Int64.ofInt b).toInt

/-- Sorts offsets and drops repeats. -/
def sortedOffsets (xs : List Int) : List Int :=
  ((xs.mergeSort (· ≤ ·)).foldr (fun x acc =>
    match acc with
    | y :: _ => if x == y then acc else x :: acc
    | [] => [x]) [])

/-- The first index of a sorted array whose value is at least `x` (the size if there is
none), halving `[lo, hi)` at most `fuel` times. -/
def lowerBoundIn (a : Array Int) (x : Int) : Nat → Nat → Nat → Nat
  | 0, lo, _ => lo
  | fuel + 1, lo, hi =>
    if lo < hi then
      let mid := (lo + hi) / 2
      if a.getD mid 0 < x then lowerBoundIn a x fuel (mid + 1) hi else lowerBoundIn a x fuel lo mid
    else lo

/-- The first index of a sorted array whose value is at least `x`, the size if none: each
halving at least halves the interval, so as many steps as values always suffice. -/
def lowerBound (a : Array Int) (x : Int) : Nat := lowerBoundIn a x (a.size + 1) 0 a.size

/-- The search never leaves `[lo, hi]` on the right, sorted or not. -/
theorem lowerBoundIn_le (a : Array Int) (x : Int) :
    ∀ (fuel lo hi : Nat), lo ≤ hi → lowerBoundIn a x fuel lo hi ≤ hi
  | 0, _, _, h => h
  | fuel + 1, lo, hi, h => by
    rw [lowerBoundIn]
    by_cases hlt : lo < hi
    · rw [if_pos hlt]
      by_cases hmid : a.getD ((lo + hi) / 2) 0 < x
      · rw [if_pos hmid]
        exact lowerBoundIn_le a x fuel _ _ (by omega)
      · rw [if_neg hmid]
        have := lowerBoundIn_le a x fuel lo ((lo + hi) / 2) (by omega)
        omega
    · rw [if_neg hlt]
      exact h

/-- The index found is at most the size of the array. -/
theorem lowerBound_le_size (a : Array Int) (x : Int) : lowerBound a x ≤ a.size :=
  lowerBoundIn_le a x (a.size + 1) 0 a.size (Nat.zero_le _)

/-- The first value of a sorted array that is at least `x`. -/
def firstAtLeast? (a : Array Int) (x : Int) : Option Int :=
  let i := lowerBound a x
  if i < a.size then some (a.getD i 0) else none

/-- Whether a sorted array holds `x`. -/
def holds (a : Array Int) (x : Int) : Bool := firstAtLeast? a x == some x

/-- Token offsets per term and record; terms in order, each once. -/
structure Frequencies where
  byTerm : List (String × List (Bytes × List Int)) := []
  deriving Inhabited, Repr

namespace Frequencies

/-- The offsets of a term within a record, sorted. -/
def offsets (f : Frequencies) (term : String) (record : Bytes) : List Int :=
  match f.byTerm.find? (·.1 == term) with
  | some (_, recs) => ((recs.find? (·.1 == record)).map (·.2)).getD []
  | none => []

/-- Merges offsets into those of a record among a term's records; a record that is not
there yet comes last. -/
def mergeRecord (recs : List (Bytes × List Int)) (record : Bytes) (offs : List Int) :
    List (Bytes × List Int) :=
  if recs.any (·.1 == record) then
    recs.map fun (r, os) => if r == record then (r, sortedOffsets (os ++ offs)) else (r, os)
  else recs ++ [(record, sortedOffsets offs)]

/-- Merges terms with offsets, in order and each once, into the terms of a list, in order
and each once, within one record; `fuel` bounds the steps. -/
def mergeTerms (record : Bytes) :
    Nat → List (String × List (Bytes × List Int)) → List (String × List Int) →
      List (String × List (Bytes × List Int))
  | 0, xs, _ => xs
  | _ + 1, xs, [] => xs
  | _ + 1, [], gs => gs.map fun (g, os) => (g, [(record, sortedOffsets os)])
  | fuel + 1, (t, recs) :: xs, (g, os) :: gs =>
    if t < g then (t, recs) :: mergeTerms record fuel xs ((g, os) :: gs)
    else if t == g then (t, mergeRecord recs record os) :: mergeTerms record fuel xs gs
    else (g, [(record, sortedOffsets os)]) :: mergeTerms record fuel ((t, recs) :: xs) gs

/-- Terms with offsets, in order and each once: the offsets of a term that comes twice are
put together. -/
def gather (groups : List (String × List Int)) : List (String × List Int) :=
  (groups.mergeSort fun a b => a.1 ≤ b.1).foldr (fun (t, os) acc =>
    match acc with
    | (t', os') :: rest => if t == t' then (t, os ++ os') :: rest else (t, os) :: acc
    | [] => [(t, os)]) []

/-- Adds offsets of several terms within a record. Each term's offsets are merged into the
record's as `add` merges them, so this is adding the terms one at a time. -/
def addAll (f : Frequencies) (record : Bytes) (groups : List (String × List Int)) : Frequencies :=
  let gs := gather groups
  ⟨mergeTerms record (f.byTerm.length + gs.length + 1) f.byTerm gs⟩

/-- Adds offsets of a term within a record. -/
def add (f : Frequencies) (term : String) (record : Bytes) (offs : List Int) : Frequencies :=
  f.addAll record [(term, offs)]

/-- The records containing a term, in byte order. -/
def records (f : Frequencies) (term : String) : List Bytes :=
  match f.byTerm.find? (·.1 == term) with
  | some (_, recs) => (recs.map (·.1)).mergeSort PhraseIndexes.bytesLe
  | none => []

/-- Every term, in order. -/
def terms (f : Frequencies) : List String := (f.byTerm.map (·.1)).mergeSort (· ≤ ·)

end Frequencies

/-- Term frequencies per field, and the phrase positions recorded by one evaluation. -/
structure OffsetMap where
  lists : List (Bytes × Frequencies) := []
  phrases : PhraseIndexes := {}
  deriving Inhabited, Repr

namespace OffsetMap

/-- The same lists with no phrase positions, for one evaluation. -/
def forCall (m : OffsetMap) : OffsetMap := { lists := m.lists }

/-- The list of a field. -/
def frequencies? (m : OffsetMap) (field : Bytes) : Option Frequencies :=
  (m.lists.find? (·.1 == field)).map (·.2)

/-- Sets the list of a field. -/
def putFrequencies (m : OffsetMap) (field : Bytes) (f : Frequencies) : OffsetMap :=
  if m.lists.any (·.1 == field) then
    { m with lists := m.lists.map fun (k, v) => if k == field then (k, f) else (k, v) }
  else { m with lists := m.lists ++ [(field, f)] }

/-- Records a phrase position. -/
def addPosition (m : OffsetMap) (field record : Bytes) (start stop : Int) : OffsetMap :=
  { m with phrases := m.phrases.add field record start stop }

/-- Whether any phrase position is recorded. -/
def hasPhrases (m : OffsetMap) : Bool := !m.phrases.isEmpty

end OffsetMap

end EdgeQuery
