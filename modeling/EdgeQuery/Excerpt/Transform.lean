import EdgeQuery.Excerpt.Fields
import EdgeQuery.Excerpt.Stage
import EdgeQuery.Log.Event
import EdgeQuery.Document
import EdgeQuery.Terms.Phrases
/-! # Adding excerpts to documents

The excerpt transform gives a matched document the text around each phrase that was found
in it. It reads the document's phrase indexes and, for every configured field in name
order and every position recorded for it, widens the position by the field's window and
scans the record (whose id is `row 00 family`) with an excerpt stage over the widened
range. The distinct non-empty texts found, sorted, replace the document's `HIT_EXCERPT`
values, with the document's visibility and timestamp, and kept.

A document that is not kept, has no phrase indexes, or whose phrase indexes do not read is
left as it is, as is one where nothing was found. A record id without a family, or a scan
whose first entry is not an excerpt of the field, gives nothing for that position; each of
these is reported as a warning. A scan that fails ends the transform with its failure. -/

namespace EdgeQuery.Excerpt

open Store

/-- What the transform needs: the fields, the table and stage kinds to scan, and the
priority of the excerpt stage. -/
structure Transform where
  fields : Fields
  table : Table
  registry : Registry
  priority : Int := 0

/-- The component name of the transform's warnings. -/
def component : String := "excerpt"

/-- A warning of the transform. -/
def warning (msg : String) (attrs : List (String × Log.Value)) : Log.Event :=
  Log.Event.scoped component Log.warn msg attrs

/-- The text of bytes in a message. -/
def lossy (b : Bytes) : String := String.ofList (Utf8.chars b)

namespace Transform

/-- The scan that fetches tokens `[first, stop)` of a field of a record. -/
def request (t : Transform) (field : String) (row family : Bytes) (first stop : Int) : Request :=
  { ranges := [Range.ofPrefix { row, family } (some .family)]
    stages := [{ priority := t.priority, name := "excerpt", kind := "excerpt"
                 options := [("field", field), ("start", toString first), ("end", toString stop)] }] }

/-- Looks up the excerpt of tokens `[first, stop)` of a field of a record: the text if
one was found, and any warning. -/
def lookup (t : Transform) (field : String) (record : Bytes) (first stop : Int) :
    Except Report (Option Bytes × List Log.Event) :=
  match Bytes.cut record 0 with
  | (_, none) => .ok (none, [warning "phrase position without a column family" [("record", .text (lossy record))]])
  | (row, some family) =>
    let s := t.table.scan t.registry (t.request field row family first stop)
    match s.entries, s.failure with
    | e :: _, _ =>
      match Bytes.cut e.key.qualifier 0 with
      | (got, some text) =>
        if got == Bytes.ofString field then .ok (some text, [])
        else .ok (none, [warning "unexpected excerpt result" [("key", .text (lossy e.key.render))]])
      | (_, none) => .ok (none, [warning "unexpected excerpt result" [("key", .text (lossy e.key.render))]])
    | [], some r => .error r
    | [], none => .ok (none, [])

/-- Looks up every position of the configured fields: the texts found in order, and the
warnings. -/
def lookups (t : Transform) (p : PhraseIndexes) : Except Report (List Bytes × List Log.Event) :=
  t.fields.names.foldlM (fun acc field =>
    (p.positions (Bytes.ofString field)).foldlM (fun (texts, logs) pos => do
      let (first, stop) := widen pos.start pos.stop (t.fields.window field)
      let (found, more) ← (t.lookup field pos.record first stop).mapError
        (Report.context ("excerpt lookup for " ++ lossy pos.record ++ ": "))
      return (texts ++ found.toList, logs ++ more)) acc) ([], [])

/-- Distinct texts in byte order. -/
def sortedDistinct (xs : List Bytes) : List Bytes :=
  ((xs.filter (!·.isEmpty)).mergeSort fun a b => Bytes.cmp a b != .gt).foldr
    (fun x acc => if acc.head? == some x then acc else x :: acc) []

/-- Adds excerpts to a document: the document after, and the warnings given. -/
def apply (t : Transform) (doc : Document) : Except Report (Document × List Log.Event) :=
  if !doc.keep then .ok (doc, [])
  else
    match doc.first? Document.phraseIndexesName with
    | none => .ok (doc, [])
    | some a =>
      match PhraseIndexes.parse a.value with
      | .error e => .ok (doc, [warning "ignoring unreadable phrase indexes" [("error", .text e)]])
      | .ok p => do
        let (texts, logs) ← t.lookups p
        match sortedDistinct texts with
        | [] => return (doc, logs)
        | texts =>
          return (doc.put Document.hitExcerptName (texts.map fun x =>
            { value := x, visibility := doc.visibility, timestamp := doc.timestamp, keep := true }), logs)

end Transform

end EdgeQuery.Excerpt
