import Dataflow.Scalar.Basic

/-!
# Buffers

A buffer holds the elements of one port: an array whose elements all have one
scalar type.  Its view is the partial function `get?` from positions to
scalars.
-/

namespace Dataflow

/-- Elements of one type, in order. -/
inductive Buffer
  | f32 (elements : Array Single)
  | f64 (elements : Array Double)
  | bool (elements : Array Bool)
  deriving DecidableEq, Repr, Inhabited

namespace Buffer

/-- The type of the elements. -/
def type : Buffer → ScalarType
  | f32 _ => .f32
  | f64 _ => .f64
  | bool _ => .bool

/-- Number of elements. -/
def size : Buffer → Nat
  | f32 elements => elements.size
  | f64 elements => elements.size
  | bool elements => elements.size

def isEmpty (buffer : Buffer) : Bool :=
  buffer.size == 0

/-- A buffer without elements. -/
def empty : ScalarType → Buffer
  | .f32 => f32 #[]
  | .f64 => f64 #[]
  | .bool => bool #[]

/-- A buffer of zeros. -/
def zeros (type : ScalarType) (size : Nat) : Buffer :=
  match type with
  | .f32 => f32 (Array.replicate size 0)
  | .f64 => f64 (Array.replicate size 0)
  | .bool => bool (Array.replicate size false)

/-- The element at a position. -/
def get? (buffer : Buffer) (index : Nat) : Option Scalar :=
  match buffer with
  | f32 elements => elements[index]?.map .f32
  | f64 elements => elements[index]?.map .f64
  | bool elements => elements[index]?.map .bool

/-- Whether a scalar can overwrite the element at a position. -/
def accepts (buffer : Buffer) (index : Nat) (value : Scalar) : Bool :=
  value.type = buffer.type && index < buffer.size

/-- Overwrites one element.  Past the end, and for a scalar of another type, nothing
changes. -/
def set (buffer : Buffer) (index : Nat) (value : Scalar) : Buffer :=
  match buffer, value with
  | f32 elements, .f32 value => f32 (elements.setIfInBounds index value)
  | f64 elements, .f64 value => f64 (elements.setIfInBounds index value)
  | bool elements, .bool value => bool (elements.setIfInBounds index value)
  | other, _ => other

/-- Overwrites one element, where the buffer accepts the scalar. -/
def set? (buffer : Buffer) (index : Nat) (value : Scalar) : Option Buffer :=
  if buffer.accepts index value then some (buffer.set index value) else none

/-- Appends one element.  Undefined for a scalar of another type. -/
def push? (buffer : Buffer) (value : Scalar) : Option Buffer :=
  match buffer, value with
  | f32 elements, .f32 value => some (f32 (elements.push value))
  | f64 elements, .f64 value => some (f64 (elements.push value))
  | bool elements, .bool value => some (bool (elements.push value))
  | _, _ => none

/-- The elements from `start` up to `stop`, when that range lies inside. -/
def slice? (buffer : Buffer) (start stop : Nat) : Option Buffer :=
  if start ≤ stop ∧ stop ≤ buffer.size then
    match buffer with
    | f32 elements => some (f32 (elements.extract start stop))
    | f64 elements => some (f64 (elements.extract start stop))
    | bool elements => some (bool (elements.extract start stop))
  else
    none

/-- The elements as scalars, in order. -/
def toList : Buffer → List Scalar
  | f32 elements => elements.toList.map .f32
  | f64 elements => elements.toList.map .f64
  | bool elements => elements.toList.map .bool

/-! ## Floating point elements -/

/-- A buffer from the elements of a floating point type. -/
def ofReals : (type : RealType) → Array type.Carrier → Buffer
  | .f32, elements => f32 elements
  | .f64, elements => f64 elements

/-- The elements, when they have the given floating point type. -/
def reals? : (type : RealType) → Buffer → Option (Array type.Carrier)
  | .f32, f32 elements => some elements
  | .f64, f64 elements => some elements
  | _, _ => none

/-- The elements, when they are booleans. -/
def bools? : Buffer → Option (Array Bool)
  | bool elements => some elements
  | _ => none

/-! ## Laws of the view -/

@[simp]
theorem type_zeros (type : ScalarType) (size : Nat) : (zeros type size).type = type := by
  cases type <;> rfl

@[simp]
theorem size_zeros (type : ScalarType) (size : Nat) : (zeros type size).size = size := by
  cases type <;> simp [zeros, Buffer.size]

@[simp]
theorem type_ofReals (type : RealType) (elements : Array type.Carrier) :
    (ofReals type elements).type = type.toScalarType := by
  cases type <;> rfl

@[simp]
theorem size_ofReals (type : RealType) (elements : Array type.Carrier) :
    (ofReals type elements).size = elements.size := by
  cases type <;> rfl

@[simp]
theorem reals?_ofReals (type : RealType) (elements : Array type.Carrier) :
    reals? type (ofReals type elements) = some elements := by
  cases type <;> rfl

theorem reals?_eq_some_iff {type : RealType} {buffer : Buffer} {elements : Array type.Carrier} :
    reals? type buffer = some elements ↔ buffer = ofReals type elements := by
  cases type <;> cases buffer <;> simp [reals?, ofReals]

theorem get?_ofReals (type : RealType) (elements : Array type.Carrier) (index : Nat) :
    (ofReals type elements).get? index = elements[index]?.map type.toScalar := by
  cases type <;> rfl

theorem type_of_get?_eq_some {buffer : Buffer} {index : Nat} {value : Scalar}
    (found : buffer.get? index = some value) : value.type = buffer.type := by
  cases buffer <;> simp only [get?, Option.map_eq_some_iff] at found <;>
    obtain ⟨_, _, rfl⟩ := found <;> rfl

theorem get?_eq_none_iff {buffer : Buffer} {index : Nat} :
    buffer.get? index = none ↔ buffer.size ≤ index := by
  cases buffer <;> simp [get?, size]

@[simp]
theorem type_set (buffer : Buffer) (index : Nat) (value : Scalar) :
    (buffer.set index value).type = buffer.type := by
  cases buffer <;> cases value <;> rfl

@[simp]
theorem size_set (buffer : Buffer) (index : Nat) (value : Scalar) :
    (buffer.set index value).size = buffer.size := by
  cases buffer <;> cases value <;> simp [set, size]

theorem get?_set (buffer : Buffer) (index position : Nat) (value : Scalar) :
    (buffer.set index value).get? position =
      if position = index ∧ buffer.accepts index value then some value
      else buffer.get? position := by
  cases buffer <;> cases value <;>
    simp only [set, get?, accepts, Scalar.type, type, size, Array.getElem?_setIfInBounds] <;>
    grind

end Buffer

end Dataflow
