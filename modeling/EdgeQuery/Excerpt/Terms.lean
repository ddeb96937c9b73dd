import EdgeQuery.Store.Table
import EdgeQuery.Codec.Serial
import EdgeQuery.Terms.Frequencies
/-! # Term entries

The text of a record is kept in the store as one entry per field and term: the key has
the record's row and family, and the qualifier `tf 00 FIELD 00 term`; the value is the
serial form of the term's token offsets, sorted (the program writes a MessagePack array).
An excerpt is assembled from these entries. -/

namespace EdgeQuery.Excerpt

open Store

/-- The start of the qualifier of a term entry. -/
def termPrefix : Bytes := [116, 102, 0]

/-- The key of the entry of a term of a field of a record. -/
def termKey (row family field term : Bytes) : Key :=
  { row, family, qualifier := termPrefix ++ field ++ [0] ++ term }

/-- The entry of a term's offsets, sorted and written in the serial form `S`. -/
def termEntry (S : Serial (List Int)) (row family field term : Bytes) (offsets : List Int) :
    Entry :=
  ⟨termKey row family field term, S.write (offsets.mergeSort (· ≤ ·))⟩

/-- The field and term of a term entry's qualifier, split at the first zero byte after
the prefix. -/
def parseTermKey (qualifier : Bytes) : Option (Bytes × Bytes) :=
  if termPrefix.isPrefixOf qualifier then
    match Bytes.cut (qualifier.drop termPrefix.length) 0 with
    | (field, some term) => some (field, term)
    | (_, none) => none
  else none

/-- The term entries of a field of a record, whose id is `row 00 family`: one per term
with offsets in that record, terms in byte order. -/
def termEntries (S : Serial (List Int)) (recordId field : Bytes) (f : Frequencies) :
    Except String (List Entry) :=
  match Bytes.cut recordId 0 with
  | (_, none) => .error ("record id " ++ Quote.bytes recordId ++ " has no column family")
  | (row, some family) =>
    .ok (f.terms.filterMap fun term =>
      let offs := f.offsets term recordId
      if offs.isEmpty then none
      else some (termEntry S row family field (Bytes.ofString term) offs))

end EdgeQuery.Excerpt
