import Dataflow.Archive.Version
import Dataflow.Graph.Error

/-!
# What can go wrong with archives

An archive can name types or versions that nobody knows, miss fields, hold fields
of the wrong form, or describe nodes that do not fit together.
-/

namespace Dataflow

/-- Failures of reading and writing archives. -/
inductive ArchiveError
  | unsupportedVersion (typeTag : String) (version : Version)
  | unknownType (typeTag : String)
  | unexpectedType (expected found : String)
  | missingField (typeTag field : String)
  /-- A field whose value has the wrong form. -/
  | malformedField (typeTag field : String)
  /-- A field with a name for an element that stands for no element. -/
  | unknownElement (typeTag field name : String)
  /-- A text that is no record. -/
  | json
  | model (cause : ModelError)
  | node (cause : NodeError)
  deriving DecidableEq, Repr, Inhabited

/-- The text of an archive's failure. -/
def ArchiveError.message : ArchiveError → String
  | unsupportedVersion typeTag version =>
      typeTag ++ " does not support archive version " ++ version.text
  | unknownType typeTag => "no node type registered for tag `" ++ typeTag ++ "`"
  | unexpectedType expected found =>
      "expected a `" ++ expected ++ "` record, found `" ++ found ++ "`"
  | missingField typeTag field => typeTag ++ " record is missing field `" ++ field ++ "`"
  | malformedField typeTag field => "field `" ++ field ++ "` of " ++ typeTag
  | unknownElement typeTag field name =>
      "field `" ++ field ++ "` of " ++ typeTag ++ ": unknown value `" ++ name ++ "`"
  | json => "not a record"
  | model cause => cause.message
  | node cause => cause.message

/-- The kind of an archive's failure.  The kind of its cause follows a slash. -/
def ArchiveError.kind : ArchiveError → String
  | unsupportedVersion _ _ => "UnsupportedVersion"
  | unknownType _ => "UnknownType"
  | unexpectedType _ _ => "UnexpectedType"
  | missingField _ _ => "MissingField"
  | malformedField _ _ => "Field"
  | unknownElement _ _ _ => "Field"
  | json => "Json"
  | model cause => "Model/" ++ cause.kind
  | node cause => "Node/" ++ cause.kind

end Dataflow
