import EdgeQuery.Excerpt.Terms
import EdgeQuery.Store.Scan
import EdgeQuery.Number.Read
/-! # The excerpt stage

The `excerpt` stage assembles a piece of a record's text from its term entries. Its
options name a `field` and a token range `[start, end)`. It reads every entry of the scan,
takes the term entries of that field, and gathers the terms at offsets in the range (a
later entry wins an offset). It then produces one entry: the key of the first term entry
of the field, with the qualifier `FIELD 00 text`, where the text is the gathered terms in
offset order joined by blanks; or nothing when no term falls in the range. Term entries
whose offsets do not read are passed over. -/

namespace EdgeQuery.Excerpt

open Store

/-- The options of an excerpt stage. -/
structure StageOptions where
  field : String
  first : Int
  stop : Int

/-- A token offset option: a whole number, zero or more. -/
def offsetOption (st : Stage) (name : String) : Except Report Int :=
  match st.option? name with
  | none => .error (badOption ("missing " ++ name))
  | some v =>
    match Read.atoi v with
    | .ok n => if n < 0 then .error (badOption (name ++ "=" ++ Quote.text v)) else .ok n
    | .error _ => .error (badOption (name ++ "=" ++ Quote.text v))

/-- Reads the options of an excerpt stage. -/
def StageOptions.ofStage (st : Stage) : Except Report StageOptions := do
  let field := (st.option? "field").getD ""
  if field.isEmpty then throw (badOption "missing field")
  let first ← offsetOption st "start"
  let stop ← offsetOption st "end"
  if stop ≤ first then
    throw (badOption ("empty token range [" ++ toString first ++ ", " ++ toString stop ++ ")"))
  return { field, first, stop }

/-- The qualifier of an excerpt: the field, a zero byte and the text. -/
def phraseQualifier (field text : Bytes) : Bytes := field ++ [0] ++ text

/-- Sets the term at an offset, replacing the one there. -/
def setToken (tokens : List (Int × Bytes)) (off : Int) (term : Bytes) : List (Int × Bytes) :=
  (tokens.filter (·.1 != off)) ++ [(off, term)]

/-- Gathers the terms of the field in the range, and the key of the first term entry of
the field. -/
def gather (S : Serial (List Int)) (o : StageOptions) :
    List Entry → List (Int × Bytes) × Option Key → List (Int × Bytes) × Option Key
  | [], acc => acc
  | e :: rest, (tokens, first) =>
    match parseTermKey e.key.qualifier with
    | some (field, term) =>
      if field != Bytes.ofString o.field then gather S o rest (tokens, first)
      else
        match S.read e.value with
        | .error _ => gather S o rest (tokens, first)
        | .ok offs =>
          let tokens := offs.foldl (fun ts off =>
            if o.first ≤ off && off < o.stop then setToken ts off term else ts) tokens
          gather S o rest (tokens, first <|> some e.key)
    | none => gather S o rest (tokens, first)

/-- The text of gathered terms: in offset order, joined by blanks. -/
def phrase (tokens : List (Int × Bytes)) : Bytes :=
  Bytes.joinWith [32] ((tokens.mergeSort fun a b => a.1 ≤ b.1).map (·.2))

/-- The excerpt filter, reading offsets in the serial form `S`. -/
def excerptFilter (S : Serial (List Int)) (st : Stage) : Except Report Filter := do
  let o ← StageOptions.ofStage st
  return fun s =>
    let remarks := s.remarks.map fun r => { r with after := 0 }
    match s.failure with
    | some r => { failure := some r, remarks }
    | none =>
      match gather S o s.entries ([], none) with
      | ([], _) | (_, none) => { remarks }
      | (tokens, some k) =>
        { entries := [⟨{ k with qualifier := phraseQualifier (Bytes.ofString o.field) (phrase tokens) }, []⟩]
          remarks }

/-- Registers the excerpt stage kind, reading offsets in the serial form `S`. -/
def registerStage (S : Serial (List Int)) (r : Registry) : Registry :=
  r.register "excerpt" (excerptFilter S)

end EdgeQuery.Excerpt
