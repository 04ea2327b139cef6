import Dataflow.Graph.Elements
import Dataflow.Graph.Shape
import Dataflow.Json.Form

/-!
# Coordinates and shapes in JSON

A coordinate is an array of three numbers and a shape an array of its dimensions.
-/

namespace Dataflow

instance : JsonForm OutputRef where
  toJson output := .object [("node", toJson output.node), ("port", toJson output.port)]
  ofJson? value := do
    match ← Json.fields? ["node", "port"] value with
    | [node, port] => return ⟨← Json.required? node, ← Json.required? port⟩
    | _ => none

instance : JsonForm Coordinate where
  toJson coordinate :=
    .array [toJson coordinate.node, toJson coordinate.port, toJson coordinate.element]
  ofJson?
    | .array [node, port, element] => do
        return ⟨← ofJson? node, ← ofJson? port, ← ofJson? element⟩
    | _ => none

instance : JsonForm Shape where
  toJson shape := toJson shape.dims
  ofJson? value := Shape.mk <$> ofJson? value

instance : JsonForm MemoryLayout where
  toJson layout :=
    .object [("active", toJson layout.active), ("padding", toJson layout.padding)]
  ofJson? value := do
    match ← Json.fields? ["active", "padding"] value with
    | [active, padding] => return ⟨← Json.required? active, ← Json.required? padding⟩
    | _ => none

end Dataflow
