import Dataflow.Scalar.Basic

/-!
# Reading a decimal by one scaling

A decimal literal is read in two roundings.  Its digits form a significand below
`2 ^ 64`; digits that do not fit are dropped.  The significand is rounded to a
double and then multiplied or divided once by a power of ten.  The result may
differ in the last bit from the double nearest to the literal.
-/

namespace Dataflow.Decimal

/-- Significands stay below this bound. -/
def significandBound : Nat := Nat.pow 2 64

/-- The largest exponent whose power of ten is a double. -/
def maxScale : Nat := 308

/-- A significand with the power of ten that scales it. -/
structure Scaled where
  significand : Nat
  exponent : Int
  deriving DecidableEq, Repr

/-- Appends digits to a significand for as long as it stays in bounds.  Returns
the significand and the number of digits taken. -/
def takeDigits (significand : Nat) : List Nat → Nat × Nat
  | [] => (significand, 0)
  | digit :: rest =>
      let next := significand * 10 + digit
      if next < significandBound then
        let (final, taken) := takeDigits next rest
        (final, taken + 1)
      else
        (significand, 0)

/-- The significand of a literal with the given digits before and after the
point, scaled by `exponent`.  A digit dropped before the point still counts as a
place; a digit dropped after it does not. -/
def Scaled.ofDigits (whole fraction : List Nat) (exponent : Int) : Scaled :=
  let (significand, taken) := takeDigits 0 whole
  let (significand, places) := takeDigits significand fraction
  ⟨significand, exponent + (whole.length - taken : Nat) - places⟩

/-- The power of ten with the given exponent, rounded to a double. -/
def powerOfTen (exponent : Nat) : Float :=
  .ofScientific 1 false exponent

/-- Divides by a power of ten.  A power that is no double is divided out in
steps. -/
def scaleDown (value : Float) (exponent : Nat) : Float :=
  if exponent ≤ maxScale then
    value / powerOfTen exponent
  else if value == 0 then
    value
  else
    scaleDown (value / powerOfTen maxScale) (exponent - maxScale)
termination_by exponent
decreasing_by
  simp only [maxScale] at *
  omega

/-- The double of a scaled significand.  It is undefined when the result is
infinite. -/
def Scaled.toDouble? (scaled : Scaled) : Option Float :=
  let value := scaled.significand.toUInt64.toFloat
  if scaled.exponent < 0 then
    some (scaleDown value scaled.exponent.natAbs)
  else if scaled.exponent.natAbs ≤ maxScale then
    let product := value * powerOfTen scaled.exponent.natAbs
    if product.isInf then none else some product
  else if value == 0 then
    some value
  else
    none

end Dataflow.Decimal
