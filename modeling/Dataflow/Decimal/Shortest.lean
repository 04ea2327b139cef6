import Dataflow.Scalar.Basic

/-!
# Shortest decimal digits of a float

A positive finite float is `mantissa * 2 ^ exponent`.  Every real number that is
nearer to it than to its neighbours reads back as that float; these numbers form
an interval, which contains its two ends exactly when the mantissa is even.

The shortest decimal is a point of the coarsest decimal grid that meets the
interval.  Of the points of a grid only the two next to the float can be the
nearest ones, so the search goes through the grids from coarse to fine and tests
these two in exact integer arithmetic.
-/

namespace Dataflow.Decimal

open Float.Model (Format UnpackedFloat)

/-- A decimal number `digits * 10 ^ exponent`. -/
structure Number where
  digits : Nat
  exponent : Int
  deriving DecidableEq, Repr

/-- Which of two decimals stands for a float halfway between them. -/
inductive Tie
  | toEven
  | up
  deriving DecidableEq, Repr

/-- The reals that read back as one float, scaled to integers: the float is
`value / unit`, the interval reaches from `lower / unit` to `upper / unit`, and
`closed` says whether the ends belong to it. -/
structure Interval where
  lower : Nat
  value : Nat
  upper : Nat
  unit : Nat
  closed : Bool
  deriving Repr

/-- The interval of `mantissa * 2 ^ exponent`.  The gap to the next smaller float
is half as wide when the mantissa is the smallest of its binade and the exponent
can still decrease. -/
def Interval.ofFloat (format : Format) (mantissa : Nat) (exponent : Int) : Interval :=
  let narrowBelow := mantissa = Nat.pow 2 (format.mantissaBits - 1) ∧ format.minExponent < exponent
  let below := if narrowBelow then 1 else 2
  let scale := Nat.pow 2 (exponent - 2).toNat
  { lower := (4 * mantissa - below) * scale
    value := 4 * mantissa * scale
    upper := (4 * mantissa + 2) * scale
    unit := Nat.pow 2 (2 - exponent).toNat
    closed := mantissa % 2 = 0 }

/-- The same interval measured in units of `10 ^ exponent`. -/
def Interval.onGrid (interval : Interval) (exponent : Int) : Interval :=
  let scale := Nat.pow 10 (-exponent).toNat
  { lower := interval.lower * scale
    value := interval.value * scale
    upper := interval.upper * scale
    unit := interval.unit * Nat.pow 10 exponent.toNat
    closed := interval.closed }

/-- Whether an integer number of units lies in the interval. -/
def Interval.contains (interval : Interval) (point : Nat) : Bool :=
  let position := point * interval.unit
  if interval.closed then
    interval.lower ≤ position && position ≤ interval.upper
  else
    interval.lower < position && position < interval.upper

/-- The integer number of units in the interval that is nearest to the float, if
there is one. -/
def Interval.nearest? (interval : Interval) (tie : Tie) : Option Nat :=
  let below := interval.value / interval.unit
  let above := below + 1
  match interval.contains below, interval.contains above with
  | false, false => none
  | true, false => some below
  | false, true => some above
  | true, true =>
      let remainder := 2 * (interval.value % interval.unit)
      if remainder < interval.unit then some below
      else if interval.unit < remainder then some above
      else if tie = .toEven ∧ below % 2 = 0 then some below
      else some above

/-- A decimal exponent whose grid is too coarse to meet the interval.  The
logarithm of two is a little above `1233 / 4096`, and one more unit makes up for
the difference. -/
def coarsestExponent (mantissa : Nat) (exponent : Int) : Int :=
  ((mantissa.log2 + 1 : Nat) + exponent) * 1233 / 4096 + 1

/-- Number of grids to try: a double has at most 17 significant digits. -/
def gridCount : Nat := 24

/-- The shortest decimal that reads back as `mantissa * 2 ^ exponent` in the given
format, and of these the nearest one. -/
def shortest (tie : Tie) (format : Format) (mantissa : Nat) (exponent : Int) : Number :=
  let interval := Interval.ofFloat format mantissa exponent
  let start := coarsestExponent mantissa exponent
  let candidate (step : Nat) : Option Number :=
    let gridExponent := start - step
    ((interval.onGrid gridExponent).nearest? tie).map (⟨·, gridExponent⟩)
  ((List.range gridCount).findSome? candidate).getD ⟨mantissa, exponent⟩

end Dataflow.Decimal
