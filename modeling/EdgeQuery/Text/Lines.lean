import EdgeQuery.Text.Utf8
import EdgeQuery.Text.Unicode.Category
/-! # Lines of text

A text is read line by line: lines end at line feeds, a carriage return right before the
feed is not part of the line, and the text after the last feed is a last line when it is
not empty. Files of records and edges skip blank lines and lines whose first character
after leading white space is `#`; the other lines keep their numbers, counted from one. -/

namespace EdgeQuery

/-- The text with white space removed from both ends. Bytes that are not UTF-8 are not
white space. -/
def Bytes.trimSpace (b : Bytes) : Bytes :=
  let cs := Utf8.charsAt b
  match cs.find? (fun (c, _, _) => !Unicode.isSpace c) with
  | none => []
  | some (_, start, _) =>
    match cs.reverse.find? (fun (c, _, _) => !Unicode.isSpace c) with
    | some (_, off, w) => (b.take (off + w)).drop start
    | none => []

namespace Lines

/-- Drops a carriage return that ends a line. -/
def dropReturn (l : Bytes) : Bytes :=
  if l.getLast? == some 13 then l.dropLast else l

/-- The lines of a text. -/
def split (b : Bytes) : List Bytes :=
  let parts := Bytes.splitOn b 10
  let parts := if parts.getLast? == some [] then parts.dropLast else parts
  parts.map dropReturn

/-- The lines that hold something, trimmed and numbered from one. -/
def meaningful (b : Bytes) : List (Nat × Bytes) :=
  (split b).zipIdx.filterMap fun (l, i) =>
    let t := Bytes.trimSpace l
    if t.isEmpty || t.head? == some 35 then none else some (i + 1, t)

end Lines

end EdgeQuery
