import Dataflow.Json.Basic

/-!
# Values with a JSON form

A type with a JSON form has a writer and a reader.  The reader is strict about
types: an integer is accepted where a float is wanted, never the other way round,
and null stands for nothing but itself.
-/

namespace Dataflow

/-- Values that are written as JSON and read back. -/
class JsonForm (α : Type) where
  toJson : α → Json
  ofJson? : Json → Option α

export JsonForm (toJson ofJson?)

namespace Json

/-- Sizes, positions and ids stay below this bound. -/
def wordBound : Nat := Nat.pow 2 64

/-- Versions stay below this bound. -/
def halfWordBound : Nat := Nat.pow 2 32

/-! ## Numbers, booleans and strings -/

/-- A natural number below a bound. -/
def natBelow? (bound : Nat) : Json → Option Nat
  | number (.integer value) =>
      if 0 ≤ value ∧ value < bound then some value.toNat else none
  | _ => none

/-- The double nearest to an integer of at most 64 bits. -/
def doubleOfInt (value : Int) : Float :=
  if value < 0 then -value.natAbs.toUInt64.toFloat else value.natAbs.toUInt64.toFloat

/-- The single precision float nearest to an integer of at most 64 bits. -/
def singleOfInt (value : Int) : Float32 :=
  if value < 0 then -value.natAbs.toUInt64.toFloat32 else value.natAbs.toUInt64.toFloat32

/-- A double, from an integer or a float. -/
def double? : Json → Option Float
  | number (.integer value) => some (doubleOfInt value)
  | number (.double value) => some value
  | number (.single value) => some (widen value)
  | _ => none

/-- A single precision float, from an integer or a float.  A float beyond the
largest one becomes infinite. -/
def single? : Json → Option Float32
  | number (.integer value) => some (singleOfInt value)
  | number (.double value) => some (narrow value)
  | number (.single value) => some value
  | _ => none

/-- A number of a floating point type. -/
def real? : (type : RealType) → Json → Option type.Carrier
  | .f32, value => Single.ofValue <$> single? value
  | .f64, value => Double.ofValue <$> double? value

/-- A boolean. -/
def bool? : Json → Option Bool
  | bool value => some value
  | _ => none

/-- A string. -/
def string? : Json → Option String
  | string value => some value
  | _ => none

/-! ## Arrays and objects -/

/-- The items of an array, each read by the same reader. -/
def list? {α : Type} (item? : Json → Option α) : Json → Option (List α)
  | array items => items.mapM item?
  | _ => none

/-- The fields of a structure with the given field names.  In an object fields
come in any order, other keys are skipped, and no field comes twice.  An array
gives the fields in their order and may end early. -/
def fields? (names : List String) : Json → Option (List (Option Json))
  | object members =>
      if names.all fun name => members.countP (·.1 = name) ≤ 1 then
        some (names.map (lookup? members))
      else
        none
  | array items =>
      if items.length ≤ names.length then
        some (items.map some ++ List.replicate (names.length - items.length) none)
      else
        none
  | _ => none

/-- The value of a field that has to be there. -/
def required? {α : Type} [JsonForm α] : Option Json → Option α
  | some value => ofJson? value
  | none => none

/-- The value of a field that may be missing. -/
def optional? {α : Type} [JsonForm α] (default : α) : Option Json → Option α
  | some value => ofJson? value
  | none => some default

/-- A name out of a fixed choice: a string, or an object that gives null to the
name. -/
def choice? {α : Type} (ofName? : String → Option α) : Json → Option α
  | string name => ofName? name
  | object [(name, null)] => ofName? name
  | _ => none

end Json

/-! ## Basic forms -/

instance : JsonForm Nat where
  toJson := Json.nat
  ofJson? := Json.natBelow? Json.wordBound

instance : JsonForm Bool where
  toJson := .bool
  ofJson? := Json.bool?

instance : JsonForm String where
  toJson := .string
  ofJson? := Json.string?

instance {α : Type} [JsonForm α] : JsonForm (List α) where
  toJson values := .array (values.map toJson)
  ofJson? := Json.list? ofJson?

end Dataflow
