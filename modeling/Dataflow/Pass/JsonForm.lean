import Dataflow.Json.Form
import Dataflow.Pass.Refinement

/-!
# Refinement options in JSON

An option that is left out keeps its default.
-/

namespace Dataflow

instance : JsonForm RefineOptions where
  toJson options := .object [("max_iterations", toJson options.maxIterations)]
  ofJson? value := do
    let defaults : RefineOptions := {}
    match ← Json.fields? ["max_iterations"] value with
    | [maxIterations] => return ⟨← Json.optional? defaults.maxIterations maxIterations⟩
    | _ => none

end Dataflow
