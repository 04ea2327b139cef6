import Dataflow.Json.Form

/-!
# Archive versions

The fields of a record depend on its version.
-/

namespace Dataflow

/-- The version of a record. -/
structure Version where
  number : Nat
  deriving DecidableEq, Repr, Inhabited

/-- A version as messages show it. -/
def Version.text (version : Version) : String :=
  s!"v{version.number}"

instance : JsonForm Version where
  toJson version := .nat version.number
  ofJson? value := Version.mk <$> Json.natBelow? Json.halfWordBound value

end Dataflow
