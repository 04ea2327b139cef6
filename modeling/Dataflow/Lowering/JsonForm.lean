import Dataflow.Json.Form
import Dataflow.Lowering.Options

/-!
# Compiler options in JSON

Options that are left out keep their defaults.
-/

namespace Dataflow

instance : JsonForm InlinePolicy where
  toJson policy := .string policy.name
  ofJson? := Json.choice? InlinePolicy.ofName?

instance : JsonForm Strategy where
  toJson strategy := .string strategy.name
  ofJson? := Json.choice? Strategy.ofName?

namespace CompilerOptions

/-- The names of the options, in order. -/
def fieldNames : List String :=
  ["function_name", "inline", "inline_size_threshold", "unroll_threshold", "unroll_loops"]

instance : JsonForm CompilerOptions where
  toJson options :=
    .object (fieldNames.zip
      [toJson options.functionName, toJson options.inline, toJson options.inlineSizeThreshold,
        toJson options.unrollThreshold, toJson options.unrollLoops])
  ofJson? value := do
    let defaults : CompilerOptions := {}
    match ← Json.fields? fieldNames value with
    | [functionName, inline, inlineSizeThreshold, unrollThreshold, unrollLoops] =>
        return {
          functionName := ← Json.optional? defaults.functionName functionName
          inline := ← Json.optional? defaults.inline inline
          inlineSizeThreshold := ← Json.optional? defaults.inlineSizeThreshold inlineSizeThreshold
          unrollThreshold := ← Json.optional? defaults.unrollThreshold unrollThreshold
          unrollLoops := ← Json.optional? defaults.unrollLoops unrollLoops }
    | _ => none

end CompilerOptions

end Dataflow
