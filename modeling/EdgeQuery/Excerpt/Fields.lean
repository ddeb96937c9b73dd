import EdgeQuery.Number.Read
import EdgeQuery.Report
import EdgeQuery.Text.Unicode.Category
/-! # Excerpt fields

The fields to excerpt are written `FIELD/window,FIELD/window,...`: each field with the
number of tokens added on each side of a phrase found in it. White space around entries,
names and windows is ignored, empty entries are skipped, and a later entry for a field
replaces an earlier one. A window is a whole number, zero or more.

Widening the inclusive phrase `[start, end]` by a window gives the half-open token range
`[start - window, end + window + 1)`, its start not below zero; the arithmetic is that of
64-bit whole numbers. -/

namespace EdgeQuery.Excerpt

/-- Fields and their windows, in name order. -/
structure Fields where
  windows : List (String × Int) := []
  deriving Inhabited, Repr

/-- The failure of a bad entry. -/
def badEntry (entry what : String) : Report :=
  Report.withCause .invalidFields "invalid excerpt fields: " (Quote.text entry ++ ": " ++ what)

namespace Fields

/-- Sets the window of a field, keeping the names in order. -/
def set (f : Fields) (name : String) (w : Int) : Fields :=
  { windows := ((f.windows.filter (·.1 != name)) ++ [(name, w)]).mergeSort fun a b => a.1 ≤ b.1 }

/-- Reads one entry into the fields. -/
def readEntry (f : Fields) (entry : String) : Except Report Fields :=
  let entry := Unicode.trimSpace entry
  if entry.isEmpty then .ok f
  else
    match entry.splitOn "/" with
    | [] | [_] => .error (badEntry entry "expected FIELD/window")
    | name :: rest =>
      let name := Unicode.trimSpace name
      if name.isEmpty then .error (badEntry entry "expected FIELD/window")
      else
        match Read.atoi (Unicode.trimSpace ("/".intercalate rest)) with
        | .ok n => if n < 0 then .error (badEntry entry "window must be a non-negative integer") else .ok (f.set name n)
        | .error _ => .error (badEntry entry "window must be a non-negative integer")

/-- Reads a field list; the empty text gives no fields. -/
def parse (s : String) : Except Report Fields := (s.splitOn ",").foldlM readEntry {}

/-- The field names, sorted. -/
def names (f : Fields) : List String := f.windows.map (·.1)

/-- The window of a field. -/
def window (f : Fields) (name : String) : Int := ((f.windows.lookup name)).getD 0

/-- The text of the fields: `FIELD/window` in name order, joined by commas. -/
def render (f : Fields) : String := ",".intercalate (f.windows.map fun (n, w) => n ++ "/" ++ toString w)

end Fields

/-- Wraps a whole number into the 64-bit range. -/
def wrap64 (n : Int) : Int := (Int64.ofInt n).toInt

/-- Widens the inclusive phrase `[start, stop]` by `window` tokens on each side into a
half-open range, its start not below zero. -/
def widen (start stop window : Int) : Int × Int :=
  (if start ≤ window then 0 else wrap64 (start - window), wrap64 (stop + window + 1))

example : widen 3 3 2 = (1, 6) := by decide
example : widen 1 1 5 = (0, 7) := by decide

end EdgeQuery.Excerpt
