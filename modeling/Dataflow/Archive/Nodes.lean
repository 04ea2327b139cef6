import Dataflow.Archive.Record
import Dataflow.Archive.Registry
import Dataflow.Graph.JsonForm
import Dataflow.Graph.Node

/-!
# Nodes in archives

The record of a node has its id and then the fields of its kind.  Callbacks of
sinks are not archived.
-/

namespace Dataflow

/-! ## Writing -/

/-- The elements that an input port reads, or none for a port that does not
exist. -/
def Node.wires (node : Node) (port : Nat) : Elements :=
  (node.wiring[port]?).getD []

/-- Writes the fields of a node to a record. -/
def Node.writeFields (node : Node) (record : Record) : Record :=
  match node.operator with
  | .input _ size => record.write "size" size
  | .constant values shape =>
      let record := record.writeElements "values" values
      if 2 ≤ record.version.number then record.write "shape" shape else record
  | .arithmetic _ op _ =>
      ((record.write "operation" op.name).write "input1" (node.wires 0)).write "input2"
        (node.wires 1)
  | .comparison _ predicate _ =>
      ((record.write "predicate" predicate.name).write "input1" (node.wires 0)).write "input2"
        (node.wires 1)
  | .coordinatewise type op values =>
      ((record.write "operation" op.name).writeElements "values" (.ofReals type values)).write
        "coordinates" (node.wires 0)
  | .sum _ _ => record.write "groups" node.wiring
  | .concatenation _ shape => (record.write "input" (node.wires 0)).write "shape" shape
  | .hamming _ _ => record.write "input" (node.wires 0)
  | .sink _ name _ _ =>
      ((record.write "input" (node.wires 0)).write "trigger" (node.wires 1)).write "sink_name" name
  | .custom _ => record

/-- The record of a node. -/
def Registry.archiveNode (registry : Registry) (id : NodeId) (node : Node) :
    Except ArchiveError Record := do
  let version ← registry.currentVersion node.typeName
  let record := (Record.start s!"node_{id}" node.typeName version).write "id" id
  return node.writeFields record

/-! ## Reading -/

/-- Passes on the outcome of building a node. -/
def archivedNode (outcome : Except NodeError Node) : Except ArchiveError Node :=
  outcome.mapError .node

/-- Reads the fields of a node of a kind. -/
def Record.readNode (record : Record) : NodeKind → Except ArchiveError Node
  | .input type => return Node.input type (← record.read "size")
  | .constant type => do
      let values ← record.readElements type "values"
      if 2 ≤ record.version.number then
        archivedNode (Node.shapedConstant values (← record.read "shape"))
      else
        return Node.constant values
  | .arithmetic type => do
      let operation ← record.read "operation"
      let left ← record.read "input1"
      let right ← record.read "input2"
      archivedNode do Node.arithmetic type (← BinaryOp.parse operation) left right
  | .comparison type => do
      let predicate ← record.read "predicate"
      let left ← record.read "input1"
      let right ← record.read "input2"
      archivedNode do Node.comparison type (← Predicate.parse predicate) left right
  | .coordinatewise type => do
      let operation ← record.read "operation"
      let op ← (CoordinateOp.parse operation).mapError ArchiveError.node
      let values ← record.readReals type "values"
      let coordinates ← record.read "coordinates"
      archivedNode (Node.coordinatewise type op values coordinates)
  | .sum type => return Node.sum type (← record.read "groups")
  | .concatenation type => do
      let input ← record.read "input"
      archivedNode (Node.shapedConcatenation type input (← record.read "shape"))
  | .hamming type => return Node.hamming type (← record.read "input")
  | .sink type => do
      let input ← record.read "input"
      let trigger ← record.read "trigger"
      let name ← record.read "sink_name"
      archivedNode (Node.sink type name false input trigger)

/-- The node of a record, with its id. -/
def Registry.unarchiveNode (registry : Registry) (record : Record) :
    Except ArchiveError (NodeId × Node) := do
  let id ← record.read "id"
  match registry.find? record.typeTag with
  | none => throw (.unknownType record.typeTag)
  | some (kind, registration) =>
      if record.version ∉ registration.accepted then
        throw (.unsupportedVersion record.typeTag record.version)
      return (id, ← record.readNode kind)

end Dataflow
