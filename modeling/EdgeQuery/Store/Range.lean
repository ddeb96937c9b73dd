import EdgeQuery.Store.Key
/-! # Key ranges

A range is an interval of keys. Each end is a key, included or not, or is unbounded.
`Range.prefix` and `Range.rowPrefix` give the ranges of the keys that share a prefix;
`Range.after` the part of a range after a key, from which a scan resumes.

Ranges sort by their start: unbounded starts first, then by start key, an included start
before an excluded one. -/

namespace EdgeQuery.Store

/-- An interval of keys. -/
structure Range where
  start : Key := {}
  stop : Key := {}
  startInclusive : Bool := false
  stopInclusive : Bool := false
  unboundedStart : Bool := false
  unboundedStop : Bool := false
  deriving DecidableEq, Inhabited, Repr

namespace Range

/-- The keys from `start` up to, not including, `stop`. -/
def between (start stop : Key) : Range := { start, stop, startInclusive := true }

/-- Every key. -/
def everything : Range := { unboundedStart := true, unboundedStop := true }

/-- The keys of one row. -/
def exactRow (row : Bytes) : Range := between (Key.ofRow row) ((Key.ofRow row).following .row)

/-- The keys sharing `k`'s prefix `part`; without a part, the versions of `k`'s cell from
the newest down to `k`. -/
def ofPrefix (k : Key) : Option Part → Range
  | some part => between (k.start.truncate part) (k.following part)
  | none => between k.start k.successor

/-- The smallest text after every text that starts with `p`: the prefix up to its last
byte below 255, that byte increased; none when every byte is 255. -/
def prefixEnd (p : Bytes) : Option Bytes :=
  match (p.reverse.dropWhile (· = 0xFF)) with
  | [] => none
  | b :: rest => some ((b + 1) :: rest).reverse

/-- The keys of the rows that start with `p`. -/
def rowPrefix (p : Bytes) : Range :=
  if p.isEmpty then everything
  else
    match prefixEnd p with
    | some e => between (Key.ofRow p) (Key.ofRow e)
    | none => { start := Key.ofRow p, startInclusive := true, unboundedStop := true }

/-- Whether a key sorts before the range. -/
def beforeStart (r : Range) (k : Key) : Bool :=
  if r.unboundedStart then false
  else
    match k.compare r.start with
    | .lt => true
    | .eq => !r.startInclusive
    | .gt => false

/-- Whether a key sorts after the range. -/
def afterEnd (r : Range) (k : Key) : Bool :=
  if r.unboundedStop then false
  else
    match k.compare r.stop with
    | .gt => true
    | .eq => !r.stopInclusive
    | .lt => false

/-- Whether a key is in the range. -/
def contains (r : Range) (k : Key) : Bool := !r.beforeStart k && !r.afterEnd k

/-- Whether no key can be in the range. -/
def isEmpty (r : Range) : Bool :=
  if r.unboundedStart || r.unboundedStop then false
  else
    match r.start.compare r.stop with
    | .gt => true
    | .eq => !(r.startInclusive && r.stopInclusive)
    | .lt => false

/-- The part of the range strictly after `last`, if any remains. -/
def after (r : Range) (last : Key) : Option Range :=
  if r.afterEnd last then none
  else if r.beforeStart last then some r
  else
    let rest := { r with start := last, startInclusive := false, unboundedStart := false }
    if rest.isEmpty then none else some rest

/-- The text of a range, as an interval. -/
def render (r : Range) : Bytes :=
  let lo := if r.unboundedStart then Bytes.ofString "(-inf"
    else (if r.startInclusive then Bytes.ofString "[" else Bytes.ofString "(") ++ r.start.render
  let hi := if r.unboundedStop then Bytes.ofString "+inf)"
    else r.stop.render ++ (if r.stopInclusive then Bytes.ofString "]" else Bytes.ofString ")")
  lo ++ Bytes.ofString ", " ++ hi

/-- Range order: by start, unbounded starts first, included starts before excluded. -/
def compareStart (a b : Range) : Ordering :=
  match a.unboundedStart, b.unboundedStart with
  | true, true => .eq
  | true, false => .lt
  | false, true => .gt
  | false, false =>
    (a.start.compare b.start).then (Ord.compare (!a.startInclusive) (!b.startInclusive))

/-- Drops each range equal to the one before it. -/
def dropRepeats : List Range → List Range
  | a :: b :: rest => if a = b then dropRepeats (b :: rest) else a :: dropRepeats (b :: rest)
  | rs => rs

/-- Ranges sorted by start (stably), without repeats of a range next to itself. -/
def sort (rs : List Range) : List Range :=
  dropRepeats (rs.mergeSort fun a b => compareStart a b != .gt)

end Range

end EdgeQuery.Store
