import EdgeQuery.Text.Bytes
/-! # Documents

A document is the evidence kept for a record: named attributes in the order their names
were first added, each name with any number of values. A value carries a visibility
label, a logical timestamp and a flag saying whether it is kept in the output.

Evaluation writes three kinds of attributes: `HIT_TERM` values `FIELD:value` naming the
field values that made a record match, `EVAL_STATE` when the match was only partial, and
`PHRASE_INDEXES_ATTRIBUTE` with the phrase positions found; excerpts are written as
`HIT_EXCERPT`. -/

namespace EdgeQuery

/-- One value of a document attribute. -/
structure Attribute where
  value : Bytes
  visibility : Bytes := []
  timestamp : Int := 0
  /-- Whether the value is kept in the output; other values are dropped before results
  leave the engine. -/
  keep : Bool := false
  deriving DecidableEq, Inhabited, Repr

/-- A document: attribute names in the order they were first added, with their values. -/
structure Document where
  visibility : Bytes := []
  timestamp : Int := 0
  keep : Bool := true
  entries : List (Bytes × List Attribute) := []
  deriving Inhabited, Repr

/-- Evidence that a field value made a record match. -/
structure HitTerm where
  field : Bytes
  value : Bytes
  visibility : Bytes := []
  deriving DecidableEq, Inhabited, Repr

namespace Document

/-- The attribute names written by evaluation and excerpts. -/
def hitTermName : Bytes := Bytes.ofString "HIT_TERM"
def evalStateName : Bytes := Bytes.ofString "EVAL_STATE"
def phraseIndexesName : Bytes := Bytes.ofString "PHRASE_INDEXES_ATTRIBUTE"
def hitExcerptName : Bytes := Bytes.ofString "HIT_EXCERPT"

/-- The values of a name, empty when it is absent. -/
def get (d : Document) (name : Bytes) : List Attribute :=
  ((d.entries.find? (·.1 == name)).map (·.2)).getD []

/-- Whether a name is present (possibly with no values). -/
def mem (d : Document) (name : Bytes) : Bool := d.entries.any (·.1 == name)

/-- Changes the values of a name with `f`, adding the name at the end when it is absent. -/
def update (d : Document) (name : Bytes) (f : List Attribute → List Attribute) : Document :=
  if d.mem name then
    { d with entries := d.entries.map fun (n, vs) => if n == name then (n, f vs) else (n, vs) }
  else { d with entries := d.entries ++ [(name, f [])] }

/-- Replaces all values of a name. -/
def put (d : Document) (name : Bytes) (attrs : List Attribute) : Document :=
  d.update name fun _ => attrs

/-- Appends values to a name. -/
def add (d : Document) (name : Bytes) (attrs : List Attribute) : Document :=
  d.update name fun vs => vs ++ attrs

/-- Removes a name. -/
def remove (d : Document) (name : Bytes) : Document :=
  { d with entries := d.entries.filter (·.1 != name) }

/-- The first value of a name. -/
def first? (d : Document) (name : Bytes) : Option Attribute := (d.get name).head?

/-- Whether a name has at least one value. -/
def has (d : Document) (name : Bytes) : Bool := !(d.get name).isEmpty

/-- The names, in insertion order. -/
def names (d : Document) : List Bytes := d.entries.map (·.1)

/-- The number of names. -/
def size (d : Document) : Nat := d.entries.length

/-- The plain values of a name. -/
def values (d : Document) (name : Bytes) : List Bytes := (d.get name).map (·.value)

/-- The visibility of the first value of `field` equal to `value`. -/
def visibilityFor (d : Document) (field value : Bytes) : Option Bytes :=
  ((d.get field).find? (·.value == value)).map (·.visibility)

end Document

namespace HitTerm

/-- A hit as `FIELD:value`. -/
def render (h : HitTerm) : Bytes := h.field ++ [Bytes.ofChar ':'] ++ h.value

/-- Reads `FIELD:value`, split at the first colon; the field must not be empty. -/
def parse? (s : Bytes) : Option HitTerm :=
  match Bytes.cut s (Bytes.ofChar ':') with
  | (field, some value) => if field.isEmpty then none else some ⟨field, value, []⟩
  | (_, none) => none

end HitTerm

/-- The hits recorded on a document, with the visibility of each value. -/
def Document.hitTerms (d : Document) : List HitTerm :=
  (d.get Document.hitTermName).filterMap fun a =>
    (HitTerm.parse? a.value).map fun h => { h with visibility := a.visibility }

end EdgeQuery
