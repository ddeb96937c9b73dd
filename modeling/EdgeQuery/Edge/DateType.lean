import EdgeQuery.Text.Quote
import EdgeQuery.Eval.Compare
import EdgeQuery.Eval.Context
/-! # Date types

An edge is recorded under its event date (code `E`), its activity date (`A`) or both
(`B`). A date type says which edges a query's dates apply to: `EVENT` takes event and
both, `ACTIVITY` takes activity and both, `ANY` takes every code. The `_LOAD` variants
(`LOAD` for events) filter on the date the edge was loaded instead of the date in its
key.

A date type is read without regard to case and surrounding white space; the empty text is
`EVENT`. -/

namespace EdgeQuery.Edge

/-- Which dated edges a query's dates apply to. -/
inductive DateType where
  | event
  | activity
  | any
  | load
  | activityLoad
  | anyLoad
  deriving DecidableEq, Inhabited, Repr

namespace DateType

/-- Every date type. -/
def all : List DateType := [.event, .activity, .any, .load, .activityLoad, .anyLoad]

/-- The name of a date type. -/
def name : DateType → String
  | .event => "EVENT"
  | .activity => "ACTIVITY"
  | .any => "ANY"
  | .load => "LOAD"
  | .activityLoad => "ACTIVITY_LOAD"
  | .anyLoad => "ANY_LOAD"

/-- Reads a date type: the empty text is `EVENT`; otherwise the text with white space
trimmed and letters in upper case must be a name. -/
def parse (s : String) : Except String DateType :=
  if s.isEmpty then .ok .event
  else
    let t := Utf8.mapChars Unicode.toUpper (Bytes.trimSpace (Bytes.ofString s))
    match all.find? (fun d => Bytes.ofString d.name == t) with
    | some d => .ok d
    | none => .error ("unknown date type " ++ Quote.text s)

/-- Whether a date type filters on the load date. -/
def isLoad : DateType → Bool
  | .load | .activityLoad | .anyLoad => true
  | _ => false

/-- Whether a date type takes every date code. -/
def isAny : DateType → Bool
  | .any | .anyLoad => true
  | _ => false

/-- Whether an edge recorded under `code` passes. -/
def accepts (t : DateType) (code : Bytes) : Bool :=
  match t with
  | .event | .load => code == [69] || code == [66]
  | .activity | .activityLoad => code == [65] || code == [66]
  | .any | .anyLoad => true

example : accepts .event [66] = true ∧ accepts .activity [69] = false := by
  decide

end DateType

end EdgeQuery.Edge
