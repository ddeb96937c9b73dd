import EdgeQuery.Number.Shortest
/-! # Writing binary64 values as text

Values are written with their shortest digits (`Decimal.ofFloat`), either positionally
(`1500`, `0.001`) or in scientific form (`1.5e+07`). A `FloatStyle` says where the
scientific form starts, how the exponent is written and how non-finite values are
spelled. The `general` style uses the scientific form for decimal exponents below -4 or
from 6 on, as in `1e+06`; the `json` style stays positional from 1e-6 up to 1e21. -/

namespace EdgeQuery

/-- How a value is laid out as text. -/
structure FloatStyle where
  /-- Decimal exponents below this are written in scientific form. -/
  scientificBelow : Int
  /-- Decimal exponents from this on are written in scientific form. -/
  scientificFrom : Int
  /-- The least number of digits of a positive exponent, padded with zeros. -/
  exponentDigits : Nat
  /-- The least number of digits of a negative exponent, padded with zeros. -/
  negativeExponentDigits : Nat
  /-- Whether a positive exponent carries a plus sign. -/
  plusSign : Bool
  /-- The text of positive infinity. -/
  infinity : String := "+Inf"

namespace FloatStyle

/-- The general style: scientific form for decimal exponents below -4 or from 6 on, with
at least two exponent digits and a signed exponent (`1e+06`, `1.5e-07`). -/
def general : FloatStyle := ⟨-4, 6, 2, 2, true, "+Inf"⟩

/-- The positional style: never scientific. -/
def positional : FloatStyle := ⟨-100000, 100000, 2, 2, true, "+Inf"⟩

/-- The style of JSON numbers: positional from 1e-6 up to 1e21, otherwise scientific with
a negative exponent written without padding (`1e-7`, `1e+21`). -/
def json : FloatStyle := ⟨-6, 21, 2, 1, true, "+Inf"⟩

end FloatStyle

namespace FloatText

/-- `k` zeros. -/
def zeros (k : Nat) : List Char := List.replicate k '0'

/-- Positional text of digits `0.d1...dn * 10^point`, with every digit shown. -/
def positional (ds : List Char) (point : Int) : List Char :=
  if ds.isEmpty then ['0']
  else if point ≤ 0 then
    ['0', '.'] ++ zeros (-point).toNat ++ ds
  else
    let p := point.toNat
    if p ≥ ds.length then ds ++ zeros (p - ds.length)
    else ds.take p ++ ['.'] ++ ds.drop p

/-- Scientific text of digits `0.d1...dn * 10^point`: `d1.d2...dn` then the exponent. -/
def scientific (style : FloatStyle) (ds : List Char) (point : Int) : List Char :=
  let mant := match ds with
    | [] => ['0']
    | [d] => [d]
    | d :: rest => d :: '.' :: rest
  let exp : Int := if ds.isEmpty then 0 else point - 1
  let sign := if exp < 0 then ['-'] else if style.plusSign then ['+'] else []
  let digits := Nat.toDigits 10 exp.natAbs
  let width := if exp < 0 then style.negativeExponentDigits else style.exponentDigits
  mant ++ ['e'] ++ sign ++ zeros (width - digits.length) ++ digits

end FloatText

/-- The text of a value in a style. -/
def FloatStyle.render (style : FloatStyle) (x : Float) : String :=
  if Binary64.isNaN x then "NaN"
  else
    let neg := (Binary64.parts x).negative
    if Binary64.isInfinite x then (if neg then "-Inf" else style.infinity)
    else
      let d := Decimal.ofFloat x
      let exp : Int := d.point - 1
      let body :=
        if !d.digits.isEmpty ∧ (exp < style.scientificBelow ∨ exp ≥ style.scientificFrom) then
          FloatText.scientific style d.digits d.point
        else FloatText.positional d.digits d.point
      String.ofList ((if neg then ['-'] else []) ++ body)

end EdgeQuery
