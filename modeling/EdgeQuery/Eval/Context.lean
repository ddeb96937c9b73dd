import EdgeQuery.Document
import EdgeQuery.Terms.Frequencies
import EdgeQuery.Text.Utf8
import EdgeQuery.Text.Unicode.Case
/-! # What a filter is evaluated against

The context of an evaluation maps field names to the values of one record. A field holds
any number of values and behaves as a set: a comparison holds if it holds of some value. A
value has a normalized form, which comparisons read, and the form it was ingested in,
which hit terms and `filter:includeText` read; it may also know the document attribute it
came from, whose visibility then labels its hit terms.

A context may also carry the term-frequency lists that the phrase functions search. -/

namespace EdgeQuery.Eval

/-- One value of a field. -/
structure Value where
  /-- The form comparisons read. -/
  normalized : Bytes
  /-- The form the value was ingested in. -/
  original : Bytes
  /-- The document attribute the value came from, if known. -/
  source : Option Attribute := none
  deriving Inhabited, Repr

namespace Value

/-- A value whose two forms are the same. -/
def ofBytes (s : Bytes) : Value := ⟨s, s, none⟩

/-- The ingested form, or the normalized one when the ingested form is empty. -/
def text (v : Value) : Bytes := if v.original.isEmpty then v.normalized else v.original

end Value

/-- The values of one record by field, and the term frequencies of its text fields. -/
structure Context where
  fields : List (Bytes × List Value) := []
  offsets : Option OffsetMap := none
  deriving Inhabited

namespace Context

/-- The values of a field, empty when it is absent. -/
def values (c : Context) (field : Bytes) : List Value :=
  ((c.fields.find? (·.1 == field)).map (·.2)).getD []

/-- Changes the values of a field with `f`; an absent field starts with none. -/
def update (c : Context) (field : Bytes) (f : List Value → List Value) : Context :=
  if c.fields.any (·.1 == field) then
    { c with fields := c.fields.map fun (n, vs) => if n == field then (n, f vs) else (n, vs) }
  else { c with fields := c.fields ++ [(field, f [])] }

/-- Replaces the values of a field. -/
def set (c : Context) (field : Bytes) (vs : List Value) : Context := c.update field fun _ => vs

/-- Appends values to a field. -/
def add (c : Context) (field : Bytes) (vs : List Value) : Context :=
  c.update field fun old => old ++ vs

/-- The field names present, in byte order. -/
def fieldNames (c : Context) : List Bytes :=
  (c.fields.map (·.1)).mergeSort fun a b => Bytes.cmp a b != .gt

/-- The context of a document: every attribute becomes a value of the field of its name,
normalized by `normalize` (given the field and the value) when one is given, and
remembering the attribute it came from. -/
def ofDocument (doc : Document) (normalize : Option (Bytes → Bytes → Bytes) := none) :
    Context :=
  { fields := doc.entries.map fun (name, attrs) =>
      (name, attrs.map fun a =>
        { normalized := match normalize with
            | some f => f name a.value
            | none => a.value
          original := a.value, source := some a }) }

end Context

/-- Lower-cases a text character by character; bytes that are not UTF-8 become the
replacement character. -/
def lowerText (b : Bytes) : Bytes := Utf8.mapChars Unicode.toLower b

/-- Upper-cases a text character by character; bytes that are not UTF-8 become the
replacement character. -/
def upperText (b : Bytes) : Bytes := Utf8.mapChars Unicode.toUpper b

end EdgeQuery.Eval
