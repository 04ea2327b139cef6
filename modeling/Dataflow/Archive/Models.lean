import Dataflow.Archive.Nodes
import Dataflow.Graph.Model

/-!
# Models in archives

The record of a model has the records of its nodes in creation order.  Reading
inserts the nodes one by one, so every check of a model applies to them.
-/

namespace Dataflow

/-- The type tag of a model record. -/
def modelTag : String :=
  "Model"

namespace Registry

/-- The record of a model. -/
def archiveModel (registry : Registry) (model : Model) : Except ArchiveError Record := do
  let nodes ← model.entries.mapM fun entry => registry.archiveNode entry.id entry.node
  return (Record.start "model" modelTag modelVersion).write "nodes" nodes

/-- The text of a model. -/
def archiveText (registry : Registry) (model : Model) : Except ArchiveError String := do
  return (← registry.archiveModel model).prettyText

/-- Adds the nodes of records to a model. -/
def insertNodes (registry : Registry) : List Record → Model → Except ArchiveError Model
  | [], model => .ok model
  | record :: rest, model => do
      let (id, node) ← registry.unarchiveNode record
      let model ← (model.insert id node).mapError ArchiveError.model
      registry.insertNodes rest model

/-- The model of a record. -/
def unarchiveModel (registry : Registry) (record : Record) : Except ArchiveError Model := do
  if record.typeTag ≠ modelTag then
    throw (.unexpectedType modelTag record.typeTag)
  if !acceptsModelVersion record.version then
    throw (.unsupportedVersion modelTag record.version)
  let nodes : List Record ← record.read "nodes"
  registry.insertNodes nodes .empty

/-- The model in a text. -/
def unarchiveText (registry : Registry) (text : String) : Except ArchiveError Model :=
  match Record.ofText? text with
  | some record => registry.unarchiveModel record
  | none => .error .json

end Registry

end Dataflow
