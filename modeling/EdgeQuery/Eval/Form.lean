import EdgeQuery.Eval.Evaluate
import EdgeQuery.Store.Form
import EdgeQuery.Terms.Tokenizer
/-! # JSON forms of documents and outcomes

A document is written as the list of its attributes in the order they were first added,
`[{"name", "attrs": [{"value", "vis", "ts", "keep"}]}]`, and read from
`{"visibility", "timestamp", "keep", "attrs": [{"name", "value", "vis", "ts", "keep"}]}`,
attributes added in order. A hit term is `[field, value, visibility]`. An outcome is
`{"matched", "state", "partial_fields", "hit_terms", "phrase_indexes"}`. A context is
written as an object from each field to its normalized values.

A context is read from `{"fields": {field: [value]}, "from_doc", "offsets", "texts"}`: a
value is a text, or `{"n", "o", "vis"}` (normalized, original, and the visibility of its
source attribute); `from_doc` (`plain`, `lower` or `upper`) starts from a document's
values; term positions come from `offsets` (`{field: {term: {record: [offset]}}}`) and
from tokenizing `texts` (`{field: {record: text}}`). -/

namespace EdgeQuery

/-- The JSON form of a document. -/
def Document.toJson (d : Document) : Json :=
  .array (d.entries.map fun (name, attrs) => .object [("name", Bytes.toJson name), ("attrs", .array (attrs.map
    fun (a : Attribute) => .object [("value", Bytes.toJson a.value), ("vis", Bytes.toJson a.visibility),
      ("ts", Json.ofInt a.timestamp), ("keep", .bool a.keep)]))])

/-- Reads an attribute. -/
def Attribute.ofJson (j : Json) : Attribute :=
  { value := Bytes.ofJson (j.get "value"), visibility := Bytes.ofJson (j.get "vis"), timestamp := (j.get "ts").int
    keep := (j.get "keep").truth }

/-- Reads a document; it is kept unless it says otherwise. -/
def Document.ofJson (j : Json) : Document :=
  (j.get "attrs").items.foldl (fun d a => d.add (Bytes.ofJson (a.get "name")) [Attribute.ofJson a])
    { visibility := Bytes.ofJson (j.get "visibility"), timestamp := (j.get "timestamp").int
      keep := (j.get "keep").truth true }

/-- The JSON form of a hit term. -/
def HitTerm.toJson (h : HitTerm) : Json := .array [Bytes.toJson h.field, Bytes.toJson h.value, Bytes.toJson h.visibility]

namespace Eval

/-- The JSON form of an outcome. -/
def Outcome.toJson (r : Outcome) : Json :=
  .object [("matched", .bool r.matched), ("state", .string r.state.name),
    ("partial_fields", .array (r.partialFields.map Bytes.toJson)), ("hit_terms", .array (r.hitTerms.map HitTerm.toJson)),
    ("phrase_indexes", match r.phrases with | some p => Bytes.toJson p.render | none => .null)]

/-- The JSON form of a context: each field's normalized values. -/
def Context.toJson (c : Context) : Json :=
  .object (c.fields.map fun (f, vs) => (Bytes.keyText f, .array (vs.map fun v => Bytes.toJson v.normalized)))

/-- Reads a value. -/
def Value.ofJson (j : Json) : Value :=
  match j with
  | .string s => Value.ofBytes (Bytes.ofString s)
  | _ => { normalized := Bytes.ofJson (j.get "n"), original := Bytes.ofJson (j.get "o"),
           source := if j.has "vis" then
             some { value := Bytes.ofJson (j.get "o"), visibility := Bytes.ofJson (j.get "vis") } else none }

/-- Reads term positions: given offsets, and tokenized texts. -/
def offsetMapOfJson (c : Json) : OffsetMap :=
  let freq (m : OffsetMap) (field : String) (k : Frequencies → Frequencies) :=
    m.putFrequencies (Bytes.ofString field) (k ((m.frequencies? (Bytes.ofString field)).getD {}))
  let m := (c.get "offsets").members.foldl (fun m (field, terms) => freq m field fun fr =>
    terms.members.foldl (fun fr (term, recs) => recs.members.foldl (fun fr (rid, offs) =>
      fr.add term (Bytes.ofString rid) (offs.items.map Json.int)) fr) fr) {}
  (c.get "texts").members.foldl (fun m (field, recs) => freq m field fun fr =>
    recs.members.foldl (fun fr (rid, text) => Tokenizer.addFrequencies fr (Bytes.ofString rid) (Bytes.ofJson text)) fr) m

/-- Reads a context, starting from a document's values when asked to. -/
def Context.ofJson (c : Json) (doc : Option Document) : Context :=
  let base : Context := match (c.get "from_doc").text, doc with
    | "plain", some d => Context.ofDocument d
    | "lower", some d => Context.ofDocument d (some fun _ v => lowerText v)
    | "upper", some d => Context.ofDocument d (some fun _ v => upperText v)
    | _, _ => {}
  let ctx := ((c.get "fields").members.mergeSort (fun a b => a.1 ≤ b.1)).foldl (fun ctx (f, vs) =>
    ctx.add (Bytes.ofString f) (vs.items.map Value.ofJson)) base
  if c.has "offsets" || c.has "texts" then { ctx with offsets := some (offsetMapOfJson c) } else ctx

end Eval

end EdgeQuery
