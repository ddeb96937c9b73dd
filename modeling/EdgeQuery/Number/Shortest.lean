import EdgeQuery.Number.Binary64
/-! # Shortest decimal digits

Every finite binary64 value is the nearest value to a whole interval of reals: the ones
that read back as it. The shortest text of a value is the decimal with the fewest
significant digits inside that interval, and of those the one nearest to the value, an
exact tie going to an even last digit.

For the value `m * 2^q` the interval reaches half a unit on each side, where a unit is
`2^q`, except that below a power of two (a significand of exactly 2^52 above the least
exponent) the lower unit is half as large. The ends belong to the interval exactly when
`m` is even, because a tie reads back to the even significand.

The search tries 1, 2, ... 17 digits. For `n` digits the grid is `10^e` with `e` chosen so
that the upper end of the interval has `n` digits before the point; the grid points inside
the interval form a run of consecutive multiples, and the nearest of them to the value is
the rounded value clamped into the run. All arithmetic is exact on natural numbers. -/

namespace EdgeQuery.Decimal

/-- Digits `d` and an exponent `e`: the number `d * 10^e`. -/
structure Scientific where
  digits : Nat
  exponent : Int
  deriving Repr, DecidableEq

/-- `a * 10^i` compared with `b * 2^j`, exactly. -/
def cmpScaled (a : Nat) (i : Int) (b : Nat) (j : Int) : Ordering :=
  let lhs := a * Nat.pow 10 i.toNat * Nat.pow 2 (-j).toNat
  let rhs := b * Nat.pow 2 j.toNat * Nat.pow 10 (-i).toNat
  compare lhs rhs

/-- `b * 2^j / 10^i` as a fraction of natural numbers. -/
def ratio (b : Nat) (j i : Int) : Nat × Nat :=
  (b * Nat.pow 2 j.toNat * Nat.pow 10 (-i).toNat, Nat.pow 2 (-j).toNat * Nat.pow 10 i.toNat)

/-- The greatest `k` with `10^k ≤ b * 2^j`, for `b > 0`. -/
def log10Floor (b : Nat) (j : Int) : Int :=
  -- 30103 / 100000 is just below log10 2, so the estimate is at most one too small
  -- or one too large; two corrections each way are enough.
  let bits : Int := (Binary64.bitLength b : Int) - 1 + j
  let est : Int := (bits * 30103) / 100000
  let fix (k : Int) : Int :=
    if cmpScaled 1 (k + 1) b j != .gt then k + 1
    else if cmpScaled 1 k b j == .gt then k - 1 else k
  fix (fix (fix est))

/-- The interval of a finite positive value `m * 2^q`, in units of `2^(q-2)`: the value,
the lower and upper ends, and whether the ends are included. -/
def interval (m : Nat) (q : Int) : Nat × Nat × Nat × Bool :=
  let lowerGap := if m = Nat.pow 2 52 ∧ q > -1074 then 1 else 2
  (4 * m, 4 * m - lowerGap, 4 * m + 2, m % 2 = 0)

/-- The nearest grid point with `n` significant digits inside the interval, if any. -/
def tryDigits (m : Nat) (q : Int) (n : Nat) : Option Scientific :=
  let (v, lo, hi, inclusive) := interval m q
  let s := q - 2
  let e : Int := log10Floor hi s - (n : Int) + 1
  -- The largest grid point at or below the upper end.
  let (hn, hd) := ratio hi s e
  let dHi := if hn % hd = 0 ∧ ¬inclusive then hn / hd - 1 else hn / hd
  -- The least grid point at or above the lower end.
  let (ln, ld) := ratio lo s e
  let dLo := if ln % ld = 0 then (if inclusive then ln / ld else ln / ld + 1) else ln / ld + 1
  if dLo ≤ dHi then
    let (vn, vd) := ratio v s e
    let d := Binary64.roundHalfEven vn vd
    some ⟨max dLo (min d dHi), e⟩
  else none

/-- The shortest digits of the finite positive value `m * 2^q`, searching `n` digits and
more, up to 17. -/
def shortestFrom (m : Nat) (q : Int) : Nat → Nat → Scientific
  | 0, _ => ⟨m, 0⟩
  | fuel + 1, n =>
    match tryDigits m q n with
    | some s => s
    | none => shortestFrom m q fuel (n + 1)

/-- The shortest decimal of the finite positive value `m * 2^q` that reads back as it. -/
def shortest (m : Nat) (q : Int) : Scientific := shortestFrom m q 17 1

/-- The decimal digits of a natural number, most significant first; none for zero. -/
def digitsOf (n : Nat) : List Char :=
  if n = 0 then [] else (Nat.toDigits 10 n)

/-- Digits and the position of the decimal point: `0.d1 d2 ... dn * 10^point`. A value of
zero has no digits. -/
structure Digits where
  digits : List Char
  point : Int
  deriving Repr, DecidableEq

/-- The shortest digits of a finite value's magnitude. -/
def ofFloat (x : Float) : Digits :=
  let p := Binary64.parts x
  let (m, q) := Binary64.significand p
  if m = 0 then ⟨[], 0⟩
  else
    let s := shortest m q
    let ds := digitsOf s.digits
    ⟨ds, s.exponent + ds.length⟩

end EdgeQuery.Decimal
