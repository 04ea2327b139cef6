import Dataflow.Routine.Basic

/-!
# Words

What a variable of native code holds.  A boolean is a byte, which counts as true
unless it is zero, and an index is a word of 64 bits, whose sums wrap around.  Every
scalar is read back from its word (`toScalar?_ofScalar`).
-/

namespace Dataflow.Native

/-- The contents of a variable of native code. -/
inductive Word
  | f32 (value : Single)
  | f64 (value : Double)
  | byte (value : UInt8)
  | index (value : UInt64)
  deriving DecidableEq, Repr, Inhabited

namespace Word

/-- The word of a scalar. -/
def ofScalar : Scalar → Word
  | .f32 value => f32 value
  | .f64 value => f64 value
  | .bool value => byte value.toUInt8

/-- The word of a literal. -/
def ofLiteral : Literal → Word
  | .scalar value => ofScalar value
  | .index value => index (UInt64.ofNat value)

/-- The scalar that a word stands for.  An index stands for none. -/
def toScalar? : Word → Option Scalar
  | f32 value => some (.f32 value)
  | f64 value => some (.f64 value)
  | byte value => some (.bool (value != 0))
  | index _ => none

@[simp]
theorem toScalar?_ofScalar (value : Scalar) : (ofScalar value).toScalar? = some value := by
  cases value with
  | f32 value => rfl
  | f64 value => rfl
  | bool value => cases value <;> rfl

/-- The type of the scalar that a word stands for. -/
def scalarType? : Word → Option ScalarType
  | f32 _ => some .f32
  | f64 _ => some .f64
  | byte _ => some .bool
  | index _ => none

/-! ## Operations -/

/-- A binary operation.  It works on two floats of one precision, which is all that
the variables of a routine hold where it stands. -/
def binary (op : BinaryOp) : Word → Word → Word
  | f32 left, f32 right => f32 (op.apply left right)
  | f64 left, f64 right => f64 (op.apply left right)
  | left, _ => left

/-- A comparison of two floats of one precision or of two bytes. -/
def compare (predicate : Predicate) : Word → Word → Word
  | f32 left, f32 right => byte (predicate.apply left right).toUInt8
  | f64 left, f64 right => byte (predicate.apply left right).toUInt8
  | byte left, byte right => byte (predicate.apply left right).toUInt8
  | _, _ => byte 0

/-- Whether a branch on a word is taken. -/
def isTrue : Word → Bool
  | byte value => value != 0
  | _ => false

/-! ## Bits -/

/-- The bits of a word as a number. -/
def toBits : Word → Nat
  | f32 value => value.bits.toNat
  | f64 value => value.bits.toNat
  | byte value => value.toNat
  | index value => value.toNat

/-- The word that some bits are when read as a scalar of a type. -/
def ofBits : ScalarType → Nat → Word
  | .f32, bits => f32 ⟨UInt32.ofNat bits⟩
  | .f64, bits => f64 ⟨UInt64.ofNat bits⟩
  | .bool, bits => byte (UInt8.ofNat bits)

end Word

end Dataflow.Native
