import Dataflow.Scalar.Precision

/-!
# The Hamming window

The weights of a Hamming window are computed in double precision and then rounded
to the type of the signal.
-/

namespace Dataflow

/-- The circle constant, as a double. -/
def circleConstant : Float := 3.141592653589793

/-- Weight number `index` of a window with `size` weights, of which there are at
least two. -/
def hammingWeight (size index : Nat) : Float :=
  0.54 - 0.46 * (2.0 * circleConstant * index.toFloat / (size - 1).toFloat).cos

/-- The Hamming window of a size.  A window of one weight is one. -/
def hammingWindow (type : RealType) (size : Nat) : Array type.Carrier :=
  match size with
  | 0 => #[]
  | 1 => #[type.one]
  | size => (Array.range size).map fun index => type.ofFloat (hammingWeight size index)

end Dataflow
