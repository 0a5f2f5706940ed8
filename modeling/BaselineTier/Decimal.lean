import BaselineTier.Binary64

/-! # Shortest decimals

A double is written with the fewest significant digits that read back as the
same double.  Every real number in the double's rounding interval reads back as
it, so it remains to find the coarsest decimal grid `10 ^ k` that has a point in
that interval, and on it the point nearest to the double.

All comparisons are between naturals: `Interval` gives the interval and the
double itself over one common denominator.
-/

set_option autoImplicit false

namespace BaselineTier

/-- The decimal number `digits * 10 ^ exponent`. -/
structure Decimal where
  digits : Nat
  exponent : Int
  deriving DecidableEq

namespace Decimal

/-! ## Digit selection -/

/-- A positive number `centre / denominator` between the ends
`low / denominator` and `high / denominator`; the ends belong to the interval
when it is `closed`. -/
structure Interval where
  low : Nat
  centre : Nat
  high : Nat
  denominator : Nat
  closed : Bool

namespace Interval

/-- The numbers that round to a positive finite double.  The neighbours are half
a unit away, except that the lower neighbour of a power of two is only a quarter
of a unit away.  The ends round to even, so they belong to a double with an even
significand. -/
def ofDouble (x : Binary64) : Interval :=
  let narrowBelow := x.significand = 0x10000000000000 ∧ 1 < x.exponentField
  let centre := 4 * x.significand
  let scale := 1 <<< x.unitExponent
  { low := (if narrowBelow then centre - 1 else centre - 2) * scale
    centre := centre * scale
    high := (centre + 2) * scale
    denominator := 4 * Binary64.unitsPerOne
    closed := x.significand % 2 = 0 }

/-- Whether the fraction `n / denominator` lies in the interval. -/
def contains (i : Interval) (n : Nat) : Bool :=
  if i.closed then i.low ≤ n && n ≤ i.high else i.low < n && n < i.high

/-- The point of the grid `10 ^ exponent` that is nearest to the centre among
those in the interval.  Of two equally near points the larger is taken. -/
def nearestOnGrid? (i : Interval) (exponent : Int) : Option Nat :=
  let fine := Nat.pow 10 (-exponent).toNat
  let step := Nat.pow 10 exponent.toNat * i.denominator
  let j : Interval :=
    { i with low := i.low * fine, centre := i.centre * fine, high := i.high * fine }
  let below := j.centre / step
  let above := below + 1
  match j.contains (below * step), j.contains (above * step) with
  | true, true =>
    if j.centre - below * step < above * step - j.centre then some below else some above
  | true, false => some below
  | false, true => some above
  | false, false => none

/-- The exponent of the finest grid: the smallest double is `5 * 10 ^ (-324)`,
and every rounding interval is wide enough to hold a point of this grid. -/
def finestExponent : Int := -324

/-- How many grids above the finest one a double can need: none exceeds
`2 * 10 ^ 308`. -/
def gridCount : Nat := 632

/-- The interval's point on the coarsest grid that has one, looking at the
`n + 1` finest grids. -/
def coarsestPoint (i : Interval) : Nat → Decimal
  | 0 => ⟨(i.nearestOnGrid? finestExponent).getD 0, finestExponent⟩
  | n + 1 =>
    let exponent := finestExponent + (n + 1 : Nat)
    match i.nearestOnGrid? exponent with
    | some digits => ⟨digits, exponent⟩
    | none => i.coarsestPoint n

end Interval

/-- The shortest decimal that reads back as the magnitude of a finite double. -/
def shortest (x : Binary64) : Decimal :=
  if x.isZero then ⟨0, 0⟩ else (Interval.ofDouble x).coarsestPoint Interval.gridCount

/-! ## Layout -/

/-- A run of zeros. -/
def zeros (n : Nat) : String :=
  String.ofList (List.replicate n '0')

/-- Positional notation, never with an exponent: missing places are filled with
zeros and a whole number has no decimal point. -/
def positional (d : Decimal) : String :=
  let digits := toString d.digits
  let places := (-d.exponent).toNat
  if places = 0 then
    digits ++ zeros d.exponent.toNat
  else
    let padded := (zeros (places + 1 - digits.length) ++ digits).toList
    let whole := padded.length - places
    String.ofList (padded.take whole) ++ "." ++ String.ofList (padded.drop whole)

end Decimal

namespace Binary64

/-- The text of a double: the shortest positional decimal, the sign of zero kept,
and no sign on not-a-number. -/
def text (x : Binary64) : String :=
  if x.isNaN then "NaN"
  else
    let sign := if x.isNegative then "-" else ""
    sign ++ if x.isFinite then (Decimal.shortest x).positional else "inf"

end Binary64

end BaselineTier
