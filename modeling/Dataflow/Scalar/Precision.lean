import Dataflow.Scalar.Basic

/-!
# Changing precision

Widening a single precision float keeps its value, because every such value is
a double.  Narrowing rounds to the nearest single precision float, ties going
to the even significand, and a value beyond the largest becomes infinite.
Both take the value apart into sign, significand and exponent and round it into
the other format.
-/

namespace Dataflow

open Float.Model (Format UnpackedFloat)

/-- The number of a format that is nearest to an unpacked value. -/
def roundInto (format : Format) : UnpackedFloat → UnpackedFloat
  | .finite sign mantissa exponent _ => .round format sign mantissa exponent
  | value => value

/-- The double with the value of a single precision float. -/
def widen (value : Float32) : Float :=
  .ofModel (.pack (roundInto .binary64 value.toModel.unpack))

/-- The single precision float nearest to a double. -/
def narrow (value : Float) : Float32 :=
  .ofModel (.pack (roundInto .binary32 value.toModel.unpack))

/-- A float rounded to a floating point type. -/
def RealType.ofFloat : (type : RealType) → Float → type.Carrier
  | .f32, value => .ofValue (narrow value)
  | .f64, value => .ofValue value

/-- A value of a floating point type as a float of double precision. -/
def RealType.toFloat : (type : RealType) → type.Carrier → Float
  | .f32, single => widen single.value
  | .f64, double => double.value

/-- A double rounded to single precision.  An undefined one keeps its sign and as many
of its leading bits as there is room for, and is quiet. -/
def Double.toSingle (double : Double) : Single :=
  if double.isNaN then
    let sign := (double.bits >>> 32) &&& 0x80000000
    let payload := (double.bits >>> 29) &&& 0x3fffff
    ⟨(sign ||| payload ||| 0x7fc00000).toUInt32⟩
  else
    .ofValue (narrow double.value)

end Dataflow
