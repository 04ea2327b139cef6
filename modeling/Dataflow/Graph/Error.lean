import Dataflow.Graph.Elements
import Dataflow.Scalar.Operation

/-!
# What can go wrong in a graph

A node fails when it is built from parts that do not fit together, or when it
computes with buffers that do not fit its ports.  A graph refuses operations that
would break its structure.
-/

namespace Dataflow

/-- Failures of a single node. -/
inductive NodeError
  | lengthMismatch (what : String) (expected found : Nat)
  | unknownVariant (kind name : String)
  | portType (port : String) (expected found : ScalarType)
  | portIndex (index : Nat)
  | layout (reason : String)
  deriving DecidableEq, Repr, Inhabited

/-- The text of a node's failure. -/
def NodeError.message : NodeError → String
  | lengthMismatch what expected found =>
      s!"{what}: expected {expected} elements, found {found}"
  | unknownVariant kind name => "unknown " ++ kind ++ " `" ++ name ++ "`"
  | portType port expected found =>
      "port `" ++ port ++ "` expects " ++ expected.name ++ " elements, found " ++ found.name
  | portIndex index => s!"no port with index {index}"
  | layout reason => "invalid memory layout: " ++ reason

/-- The kind of a node's failure. -/
def NodeError.kind : NodeError → String
  | lengthMismatch _ _ _ => "LengthMismatch"
  | unknownVariant _ _ => "UnknownVariant"
  | portType _ _ _ => "PortType"
  | portIndex _ => "PortIndex"
  | layout _ => "Layout"

/-! ## Names from outside -/

/-- The binary operation with a name. -/
def BinaryOp.parse (name : String) : Except NodeError BinaryOp :=
  match BinaryOp.ofName? name with
  | some op => .ok op
  | none => .error (.unknownVariant "operation" name)

/-- The predicate with a name. -/
def Predicate.parse (name : String) : Except NodeError Predicate :=
  match Predicate.ofName? name with
  | some predicate => .ok predicate
  | none => .error (.unknownVariant "predicate" name)

/-- The coordinate operation with a name. -/
def CoordinateOp.parse (name : String) : Except NodeError CoordinateOp :=
  match CoordinateOp.ofName? name with
  | some op => .ok op
  | none => .error (.unknownVariant "coordinatewise operation" name)

/-! ## Failures of graphs -/

/-- Failures of an operation on a graph. -/
inductive ModelError
  | unknownNode (node : NodeId)
  | invalidReference (node : NodeId) (coordinate : Coordinate)
  | coordinateOutOfRange (coordinate : Coordinate)
  | portTypeMismatch (port : OutputRef) (expected found : ScalarType)
  | dependencyViolation (node : NodeId) (dependents : List NodeId)
  | unmappedPort (port : OutputRef)
  | portAlreadyMapped (port : OutputRef)
  | mappingSize (port : OutputRef) (expected found : Nat)
  | noCurrentNode
  | cycleDetected (path : List NodeId)
  | tooManyOutputPorts (count : Nat)
  | notAnInput (node : NodeId)
  | node (node : NodeId) (typeName : String) (cause : NodeError)
  | nonMonotonicId (node : NodeId)
  | construction (cause : NodeError)
  deriving DecidableEq, Repr, Inhabited

/-- The text of a graph's failure. -/
def ModelError.message : ModelError → String
  | unknownNode id => s!"node {id} does not exist"
  | invalidReference id coordinate =>
      s!"node {id} references " ++ coordinate.text ++
        ", which is not an earlier node in this model"
  | coordinateOutOfRange coordinate => "coordinate " ++ coordinate.text ++ " is out of range"
  | portTypeMismatch port expected found =>
      "port " ++ port.text ++ " carries " ++ found.name ++ " values but " ++ expected.name ++
        " were expected"
  | dependencyViolation id dependents =>
      s!"node {id} is still referenced by " ++ nodeIdsText dependents
  | unmappedPort port => "port " ++ port.text ++ " has not been mapped in the current pass"
  | portAlreadyMapped port =>
      "port " ++ port.text ++ " is already mapped in the current pass"
  | mappingSize port expected found =>
      "port " ++ port.text ++ s!" has {expected} elements but was mapped to {found}"
  | noCurrentNode => "mapping was requested outside of a node transformation"
  | cycleDetected path => "cycle through nodes " ++ nodeIdsText path
  | tooManyOutputPorts count => s!"node declares {count} output ports"
  | notAnInput id => s!"node {id} is not an input node"
  | node id typeName cause => s!"node {id} (" ++ typeName ++ ") failed: " ++ cause.message
  | nonMonotonicId id => s!"node id {id} is not greater than existing ids"
  | construction cause => cause.message

/-- The kind of a graph's failure.  The kind of a failed node follows a slash. -/
def ModelError.kind : ModelError → String
  | unknownNode _ => "UnknownNode"
  | invalidReference _ _ => "InvalidReference"
  | coordinateOutOfRange _ => "CoordinateOutOfRange"
  | portTypeMismatch _ _ _ => "PortTypeMismatch"
  | dependencyViolation _ _ => "DependencyViolation"
  | unmappedPort _ => "UnmappedPort"
  | portAlreadyMapped _ => "PortAlreadyMapped"
  | mappingSize _ _ _ => "MappingSize"
  | noCurrentNode => "NoCurrentNode"
  | cycleDetected _ => "CycleDetected"
  | tooManyOutputPorts _ => "TooManyOutputPorts"
  | notAnInput _ => "NotAnInput"
  | node _ _ cause => "Node/" ++ cause.kind
  | nonMonotonicId _ => "NonMonotonicId"
  | construction cause => "Construction/" ++ cause.kind

end Dataflow
