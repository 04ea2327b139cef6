import Dataflow.Scalar.Real

/-!
# Scalars and their types

A port carries single precision floats, double precision floats or booleans.
The two floating point types are also named on their own, because the numeric
operators exist for them alone.
-/

namespace Dataflow

/-- The types a port can carry. -/
inductive ScalarType
  | f32
  | f64
  | bool
  deriving DecidableEq, Repr, Inhabited

/-- The floating point types, which the numeric operators work on. -/
inductive RealType
  | f32
  | f64
  deriving DecidableEq, Repr, Inhabited

/-- One typed value. -/
inductive Scalar
  | f32 (value : Single)
  | f64 (value : Double)
  | bool (value : Bool)
  deriving DecidableEq, Repr, Inhabited

namespace ScalarType

/-- The short name that stands in type tags and listings. -/
def name : ScalarType → String
  | f32 => "f32"
  | f64 => "f64"
  | bool => "bool"

/-- The type with the given short name. -/
def ofName? : String → Option ScalarType
  | "f32" => some f32
  | "f64" => some f64
  | "bool" => some bool
  | _ => none

/-- Storage size of one element in compiled code.  A boolean takes a byte. -/
def byteSize : ScalarType → Nat
  | f32 => 4
  | f64 => 8
  | bool => 1

/-- The value a fresh element of this type starts with. -/
def zero : ScalarType → Scalar
  | f32 => .f32 0
  | f64 => .f64 0
  | bool => .bool false

end ScalarType

namespace RealType

/-- A floating point type is one of the port types. -/
def toScalarType : RealType → ScalarType
  | f32 => .f32
  | f64 => .f64

instance : Coe RealType ScalarType := ⟨toScalarType⟩

/-- The floating point type among the port types, if it is one. -/
def ofScalarType? : ScalarType → Option RealType
  | .f32 => some f32
  | .f64 => some f64
  | .bool => none

@[simp]
theorem ofScalarType?_toScalarType (type : RealType) :
    ofScalarType? type.toScalarType = some type := by
  cases type <;> rfl

theorem ofScalarType?_eq_some_iff {scalar : ScalarType} {type : RealType} :
    ofScalarType? scalar = some type ↔ scalar = type.toScalarType := by
  cases scalar <;> cases type <;> simp [ofScalarType?, toScalarType]

/-- The values of a floating point type. -/
abbrev Carrier : RealType → Type
  | f32 => Single
  | f64 => Double

instance : (type : RealType) → Add type.Carrier
  | f32 => inferInstanceAs (Add Single)
  | f64 => inferInstanceAs (Add Double)

instance : (type : RealType) → Sub type.Carrier
  | f32 => inferInstanceAs (Sub Single)
  | f64 => inferInstanceAs (Sub Double)

instance : (type : RealType) → Mul type.Carrier
  | f32 => inferInstanceAs (Mul Single)
  | f64 => inferInstanceAs (Mul Double)

instance : (type : RealType) → Div type.Carrier
  | f32 => inferInstanceAs (Div Single)
  | f64 => inferInstanceAs (Div Double)

instance : (type : RealType) → BEq type.Carrier
  | f32 => inferInstanceAs (BEq Single)
  | f64 => inferInstanceAs (BEq Double)

instance : (type : RealType) → LT type.Carrier
  | f32 => inferInstanceAs (LT Single)
  | f64 => inferInstanceAs (LT Double)

instance : (type : RealType) → LE type.Carrier
  | f32 => inferInstanceAs (LE Single)
  | f64 => inferInstanceAs (LE Double)

instance : (type : RealType) → DecidableLT type.Carrier
  | f32 => inferInstanceAs (DecidableLT Single)
  | f64 => inferInstanceAs (DecidableLT Double)

instance : (type : RealType) → DecidableLE type.Carrier
  | f32 => inferInstanceAs (DecidableLE Single)
  | f64 => inferInstanceAs (DecidableLE Double)

instance : (type : RealType) → DecidableEq type.Carrier
  | f32 => inferInstanceAs (DecidableEq Single)
  | f64 => inferInstanceAs (DecidableEq Double)

/-- Positive zero. -/
def zero : (type : RealType) → type.Carrier
  | f32 => (0 : Single)
  | f64 => (0 : Double)

/-- One. -/
def one : (type : RealType) → type.Carrier
  | f32 => (1 : Single)
  | f64 => (1 : Double)

/-- A value of a floating point type as a scalar. -/
def toScalar : (type : RealType) → type.Carrier → Scalar
  | f32, value => .f32 value
  | f64, value => .f64 value

end RealType

/-- The type of a scalar. -/
def Scalar.type : Scalar → ScalarType
  | .f32 _ => .f32
  | .f64 _ => .f64
  | .bool _ => .bool

@[simp]
theorem Scalar.type_zero (type : ScalarType) : type.zero.type = type := by
  cases type <;> rfl

@[simp]
theorem RealType.type_toScalar (type : RealType) (value : type.Carrier) :
    (type.toScalar value).type = type.toScalarType := by
  cases type <;> rfl

end Dataflow
