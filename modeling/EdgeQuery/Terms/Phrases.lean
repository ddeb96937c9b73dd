import EdgeQuery.Text.Quote
import EdgeQuery.Number.Read
/-! # Phrase indexes

Phrase and proximity functions record where their terms were found: for a field, the
record and the first and last token offsets of each hit. The positions of a field are
kept in the order they were found, duplicates included.

The written form lists the fields with at least one position in byte order, separated by
`/`; each field is followed by its positions as `:record,start,end`. The characters `%`,
`:`, `,` and `/` in field names and record ids are written `%25`, `%3A`, `%2C` and `%2F`.
`PhraseIndexes.parse` reads that form back. -/

namespace EdgeQuery

/-- One phrase hit: tokens `start` to `stop` of a record's field. -/
structure Position where
  record : Bytes
  start : Int
  stop : Int
  deriving DecidableEq, Inhabited, Repr

/-- The positions recorded per field. -/
structure PhraseIndexes where
  byField : List (Bytes × List Position) := []
  deriving Inhabited, Repr

namespace PhraseIndexes

/-- Records a hit; the offsets are put in order. -/
def add (p : PhraseIndexes) (field record : Bytes) (start stop : Int) : PhraseIndexes :=
  let pos : Position := if start > stop then ⟨record, stop, start⟩ else ⟨record, start, stop⟩
  if p.byField.any (·.1 == field) then
    ⟨p.byField.map fun (f, ps) => if f == field then (f, ps ++ [pos]) else (f, ps)⟩
  else ⟨p.byField ++ [(field, [pos])]⟩

/-- Records hits of a field in order, as `add` records them one at a time. -/
def addAll (p : PhraseIndexes) (field : Bytes) (hits : List (Bytes × Int × Int)) : PhraseIndexes :=
  let pos : List Position := hits.map fun (record, start, stop) =>
    if start > stop then ⟨record, stop, start⟩ else ⟨record, start, stop⟩
  if pos.isEmpty then p
  else if p.byField.any (·.1 == field) then
    ⟨p.byField.map fun (f, ps) => if f == field then (f, ps ++ pos) else (f, ps)⟩
  else ⟨p.byField ++ [(field, pos)]⟩

/-- The positions of a field. -/
def positions (p : PhraseIndexes) (field : Bytes) : List Position :=
  ((p.byField.find? (·.1 == field)).map (·.2)).getD []

/-- The byte order. -/
def bytesLe (a b : Bytes) : Bool := Bytes.cmp a b != .gt

/-- The fields with at least one position, in byte order. -/
def fields (p : PhraseIndexes) : List Bytes :=
  ((p.byField.filter fun (_, ps) => !ps.isEmpty).map (·.1)).mergeSort bytesLe

/-- Whether no position is recorded. -/
def isEmpty (p : PhraseIndexes) : Bool := p.fields.isEmpty

/-- Escapes the reserved characters of a name or id. -/
def escape (b : Bytes) : Bytes :=
  b.flatMap fun c =>
    if c == Bytes.ofChar '%' then Bytes.ofString "%25"
    else if c == Bytes.ofChar ':' then Bytes.ofString "%3A"
    else if c == Bytes.ofChar ',' then Bytes.ofString "%2C"
    else if c == Bytes.ofChar '/' then Bytes.ofString "%2F"
    else [c]

/-- Undoes `escape`, reading left to right. -/
def unescape : Bytes → Bytes
  | 37 :: 51 :: 65 :: rest => Bytes.ofChar ':' :: unescape rest
  | 37 :: 50 :: 67 :: rest => Bytes.ofChar ',' :: unescape rest
  | 37 :: 50 :: 70 :: rest => Bytes.ofChar '/' :: unescape rest
  | 37 :: 50 :: 53 :: rest => Bytes.ofChar '%' :: unescape rest
  | c :: rest => c :: unescape rest
  | [] => []

/-- The written form. -/
def render (p : PhraseIndexes) : Bytes :=
  Bytes.joinWith [Bytes.ofChar '/'] (p.fields.map fun f =>
    escape f ++ (p.positions f).flatMap fun pos =>
      [Bytes.ofChar ':'] ++ escape pos.record ++ [Bytes.ofChar ','] ++
        Bytes.ofString (toString pos.start) ++ [Bytes.ofChar ','] ++ Bytes.ofString (toString pos.stop))

/-- Reads one `record,start,end` item of a field. -/
def parsePosition (p : PhraseIndexes) (field : Bytes) (item : Bytes) :
    Except String PhraseIndexes :=
  match Bytes.splitOn item (Bytes.ofChar ',') with
  | [record, s, e] =>
    match Read.atoi (Bytes.toUtf8 s) with
    | .error err => .error ("phrase indexes: start offset " ++ Quote.bytes s ++ ": " ++ err.message)
    | .ok start =>
      match Read.atoi (Bytes.toUtf8 e) with
      | .error err => .error ("phrase indexes: end offset " ++ Quote.bytes e ++ ": " ++ err.message)
      | .ok stop => .ok (p.add field (unescape record) start stop)
  | _ => .error ("phrase indexes: malformed position " ++ Quote.bytes item)

/-- Reads the written form. -/
def parse (s : Bytes) : Except String PhraseIndexes :=
  if s.isEmpty then .ok {}
  else
    (Bytes.splitOn s (Bytes.ofChar '/')).foldlM (fun p group =>
      match Bytes.splitOn group (Bytes.ofChar ':') with
      | [] => .ok p
      | name :: items =>
        let field := unescape name
        if field.isEmpty then .error ("phrase indexes: empty field in " ++ Quote.bytes group)
        else items.foldlM (fun p item => p.parsePosition field item) p) {}

end PhraseIndexes

end EdgeQuery
