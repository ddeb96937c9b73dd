import EdgeQuery.Store.Range
/-! # Tables

A table holds entries, a value under each key, in key order with each key once. Writing
an entry under a key that is present replaces its value; deleting a key that is absent
changes nothing. Reading a range gives the entries whose keys lie in it, in key order.

The table is kept as a list sorted by key with no two keys equal in key order, and every
operation keeps it so. -/

namespace EdgeQuery.Store

/-- A key with its value. -/
structure Entry where
  key : Key
  value : Bytes := []
  deriving DecidableEq, Inhabited, Repr

/-- Entries in key order, each key once. -/
structure Table where
  entries : List Entry := []
  deriving Inhabited

namespace Table

/-- Inserts an entry into a sorted list, replacing an entry with an equal key. -/
def insertSorted (e : Entry) : List Entry → List Entry
  | [] => [e]
  | x :: xs =>
    match e.key.compare x.key with
    | .lt => e :: x :: xs
    | .eq => e :: xs
    | .gt => x :: insertSorted e xs

/-- Writes entries in order; a later entry with an equal key wins. -/
def put (t : Table) (es : List Entry) : Table :=
  ⟨es.foldl (fun acc e => insertSorted e acc) t.entries⟩

/-- Removes the entries under the given keys. -/
def delete (t : Table) (keys : List Key) : Table :=
  ⟨t.entries.filter fun e => !keys.any fun k => k.compare e.key == .eq⟩

/-- The value under a key. -/
def get? (t : Table) (k : Key) : Option Bytes :=
  (t.entries.find? fun e => k.compare e.key == .eq).map (·.value)

/-- The entries whose keys lie in a range, in key order. -/
def read (t : Table) (r : Range) : List Entry := t.entries.filter fun e => r.contains e.key

/-- The number of entries. -/
def size (t : Table) : Nat := t.entries.length

theorem length_insertSorted_le (e : Entry) (xs : List Entry) :
    (insertSorted e xs).length ≤ xs.length + 1 := by
  induction xs with
  | nil => simp [insertSorted]
  | cons x xs ih =>
    simp only [insertSorted]
    split <;> simp only [List.length_cons] <;> omega

end Table

end EdgeQuery.Store
