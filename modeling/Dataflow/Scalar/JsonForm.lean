import Dataflow.Json.Form
import Dataflow.Scalar.Buffer
import Dataflow.Scalar.Operation

/-!
# Scalars and buffers in JSON

Types and operations are written by their names.  A scalar is an object with one
member, whose key is the type, and a buffer is an object with its type and its
elements.
-/

namespace Dataflow

instance : JsonForm ScalarType where
  toJson type := .string type.name
  ofJson? := Json.choice? ScalarType.ofName?

instance : JsonForm BinaryOp where
  toJson op := .string op.name
  ofJson? := Json.choice? BinaryOp.ofName?

instance : JsonForm Predicate where
  toJson predicate := .string predicate.name
  ofJson? := Json.choice? Predicate.ofName?

/-- The JSON form of a scalar. -/
def Scalar.json : Scalar → Json
  | f32 value => .object [("F32", .number (.single value.value))]
  | f64 value => .object [("F64", .number (.double value.value))]
  | bool value => .object [("Bool", .bool value)]

/-- The scalar with a JSON form. -/
def Scalar.ofJson? : Json → Option Scalar
  | .object [("F32", value)] => (f32 ∘ .ofValue) <$> Json.single? value
  | .object [("F64", value)] => (f64 ∘ .ofValue) <$> Json.double? value
  | .object [("Bool", value)] => bool <$> Json.bool? value
  | _ => none

instance : JsonForm Scalar where
  toJson := Scalar.json
  ofJson? := Scalar.ofJson?

/-- The elements of a buffer as a JSON array. -/
def Buffer.elementsJson : Buffer → Json
  | f32 elements => .array (elements.toList.map fun value => .number (.single value.value))
  | f64 elements => .array (elements.toList.map fun value => .number (.double value.value))
  | bool elements => .array (elements.toList.map .bool)

/-- The buffer with the elements of a JSON array, which are read as a type. -/
def Buffer.ofElementsJson? (type : ScalarType) (elements : Json) : Option Buffer :=
  match type with
  | .f32 => (f32 ∘ List.toArray) <$> Json.list? (Json.real? .f32) elements
  | .f64 => (f64 ∘ List.toArray) <$> Json.list? (Json.real? .f64) elements
  | .bool => (bool ∘ List.toArray) <$> Json.list? Json.bool? elements

/-- The element type of a buffer from its field `type`.  A buffer in the form of an
array gives it as a plain string. -/
def Buffer.ofTypeJson? : (buffer type : Json) → Option ScalarType
  | .array _, type => type.string? >>= ScalarType.ofName?
  | _, type => ofJson? type

instance : JsonForm Buffer where
  toJson buffer := .object [("type", toJson buffer.type), ("values", buffer.elementsJson)]
  ofJson? value := do
    match ← Json.fields? ["type", "values"] value with
    | [some type, some elements] =>
        Buffer.ofElementsJson? (← Buffer.ofTypeJson? value type) elements
    | _ => none

end Dataflow
