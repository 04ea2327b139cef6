import Dataflow.Graph.Kind
import Dataflow.Graph.Recipe
import Dataflow.Graph.Window

/-!
# Nodes

A node is an operator together with its wiring.  The operator fixes what the node
computes and how large its ports are; the wiring says, port by port, which elements
of earlier nodes it reads.  Copying a node to another graph keeps the operator and
renames the wiring.
-/

namespace Dataflow

/-- An operator that is described by its ports and its behaviour. -/
structure CustomOperator where
  name : String
  inputTypes : List ScalarType
  outputs : List OutputPort
  capabilities : Capabilities
  behaviour : Behaviour
  deriving Inhabited

/-- What a node computes. -/
inductive Operator
  /-- Data from outside. -/
  | input (type : ScalarType) (size : Nat)
  /-- Fixed values. -/
  | constant (values : Buffer) (shape : Shape)
  /-- Elementwise arithmetic on two inputs. -/
  | arithmetic (type : RealType) (op : BinaryOp) (size : Nat)
  /-- Elementwise comparison of two inputs. -/
  | comparison (type : RealType) (predicate : Predicate) (size : Nat)
  /-- Each element combined with a stored value. -/
  | coordinatewise (type : RealType) (op : CoordinateOp) (values : Array type.Carrier)
  /-- One sum for each group of elements. -/
  | sum (type : RealType) (groups : Nat)
  /-- Elements from anywhere as one port. -/
  | concatenation (type : ScalarType) (shape : Shape)
  /-- The input weighted by a Hamming window. -/
  | hamming (type : RealType) (size : Nat)
  /-- Passes its input on, and hands it to a callback while a trigger is set. -/
  | sink (type : ScalarType) (name : String) (size : Nat) (notifies : Bool)
  | custom (operator : CustomOperator)
  deriving Inhabited

/-- An operator and the elements that its input ports read. -/
structure Node where
  operator : Operator
  wiring : List Elements
  deriving Inhabited

namespace Operator

/-- The kind of a standard operator. -/
def kind? : Operator → Option NodeKind
  | input type _ => some (.input type)
  | constant values _ => some (.constant values.type)
  | arithmetic type _ _ => some (.arithmetic type)
  | comparison type _ _ => some (.comparison type)
  | coordinatewise type _ _ => some (.coordinatewise type)
  | sum type _ => some (.sum type)
  | concatenation type _ => some (.concatenation type)
  | hamming type _ => some (.hamming type)
  | sink type _ _ _ => some (.sink type)
  | custom _ => none

/-- The type name. -/
def typeName : Operator → String
  | custom operator => operator.name
  | operator => (operator.kind?.map NodeKind.tag).getD ""

/-- The output ports. -/
def outputs : Operator → List OutputPort
  | input type size => [.vector "output" type size]
  | constant values shape => [⟨"output", values.type, .unpadded shape⟩]
  | arithmetic type _ size => [.vector "output" type size]
  | comparison _ _ size => [.vector "output" .bool size]
  | coordinatewise type _ values => [.vector "output" type values.size]
  | sum type groups => [.vector "output" type groups]
  | concatenation type shape => [⟨"output", type, .unpadded shape⟩]
  | hamming type size => [.vector "output" type size]
  | sink type _ size _ => [.vector "output" type size]
  | custom operator => operator.outputs

/-- The names and types of the input ports, for a number of ports. -/
def inputNames (count : Nat) : Operator → List (String × ScalarType)
  | input _ _ => []
  | constant _ _ => []
  | arithmetic type _ _ => [("input1", type), ("input2", type)]
  | comparison type _ _ => [("input1", type), ("input2", type)]
  | coordinatewise type _ _ => [("input", type)]
  | sum type _ => List.replicate count ("input", type)
  | concatenation type _ => [("input", type)]
  | hamming type _ => [("input", type)]
  | sink type _ _ _ => [("input", type), ("trigger", .bool)]
  | custom operator => operator.inputTypes.map (("in", ·))

/-- What can be done with a node. -/
def capabilities : Operator → Capabilities
  | input _ _ => .parameter
  | constant _ _ => .code .required
  | arithmetic _ _ _ => .code .preferred
  | comparison _ _ _ => .code .preferred
  | coordinatewise _ _ _ => .refineOnly
  | sum _ _ => .code .preferred
  | concatenation _ _ => .code .required
  | hamming _ _ => .refineOnly
  | sink _ _ _ _ => .code .required
  | custom operator => operator.capabilities

/-- Whether an archive holds more of a node than its wiring. -/
def hasState : Operator → Bool
  | input _ _ => false
  | arithmetic _ _ _ => false
  | sum _ _ => false
  | _ => true

end Operator

namespace Node

/-- The type name. -/
def typeName (node : Node) : String :=
  node.operator.typeName

/-- The input ports. -/
def inputs (node : Node) : List InputPort :=
  List.zipWith (fun (name, type) elements => ⟨name, type, elements⟩)
    (node.operator.inputNames node.wiring.length) node.wiring

/-- The output ports. -/
def outputs (node : Node) : List OutputPort :=
  node.operator.outputs

/-- What can be done with the node. -/
def capabilities (node : Node) : Capabilities :=
  node.operator.capabilities

/-! ## Building nodes

The builders check that the parts of a node fit together. -/

/-- Requires two lengths to agree. -/
def checkLength (what : String) (expected found : Nat) : Except NodeError Unit :=
  if expected = found then .ok () else .error (.lengthMismatch what expected found)

/-- Data from outside. -/
def input (type : ScalarType) (size : Nat) : Node :=
  ⟨.input type size, []⟩

/-- Fixed values with one dimension. -/
def constant (values : Buffer) : Node :=
  ⟨.constant values (.vector values.size), []⟩

/-- Fixed values with a shape. -/
def shapedConstant (values : Buffer) (shape : Shape) : Except NodeError Node := do
  checkLength "constant shape" shape.elementCount values.size
  return ⟨.constant values shape, []⟩

/-- Elementwise arithmetic. -/
def arithmetic (type : RealType) (op : BinaryOp) (left right : Elements) :
    Except NodeError Node := do
  checkLength "binary operation inputs" left.length right.length
  return ⟨.arithmetic type op left.length, [left, right]⟩

/-- Elementwise comparison. -/
def comparison (type : RealType) (predicate : Predicate) (left right : Elements) :
    Except NodeError Node := do
  checkLength "binary predicate inputs" left.length right.length
  return ⟨.comparison type predicate left.length, [left, right]⟩

/-- Elements combined with stored values. -/
def coordinatewise (type : RealType) (op : CoordinateOp) (values : Array type.Carrier)
    (coordinates : Elements) : Except NodeError Node := do
  checkLength "coordinatewise values" coordinates.length values.size
  return ⟨.coordinatewise type op values, [coordinates]⟩

/-- Sums of groups. -/
def sum (type : RealType) (groups : List Elements) : Node :=
  ⟨.sum type groups.length, groups⟩

/-- Elements as one port with one dimension. -/
def concatenation (type : ScalarType) (input : Elements) : Node :=
  ⟨.concatenation type (.vector input.length), [input]⟩

/-- Elements as one port with a shape. -/
def shapedConcatenation (type : ScalarType) (input : Elements) (shape : Shape) :
    Except NodeError Node := do
  checkLength "concatenation shape" shape.elementCount input.length
  return ⟨.concatenation type shape, [input]⟩

/-- A weighted input. -/
def hamming (type : RealType) (input : Elements) : Node :=
  ⟨.hamming type input.length, [input]⟩

/-- A sink, whose trigger is a single element. -/
def sink (type : ScalarType) (name : String) (notifies : Bool) (input trigger : Elements) :
    Except NodeError Node := do
  checkLength "sink trigger" 1 trigger.length
  return ⟨.sink type name input.length notifies, [input, trigger]⟩

/-- The layout of a planned output. -/
def plannedLayout (output : PlannedOutput) : Except NodeError MemoryLayout :=
  match output.padding with
  | none => .ok (.unpadded output.active)
  | some padding =>
      match MemoryLayout.padded? output.active padding with
      | some layout => .ok layout
      | none => .error (.layout "padding rank")

/-- A custom node. -/
def custom (name : String) (inputs : List (ScalarType × Elements))
    (outputs : List PlannedOutput) (capabilities : Capabilities) (behaviour : Behaviour) :
    Except NodeError Node := do
  let outputs ← outputs.mapM fun output => do
    return (⟨"out", output.type, ← plannedLayout output⟩ : OutputPort)
  return {
    operator := .custom
      { name, inputTypes := inputs.map (·.1), outputs, capabilities, behaviour }
    wiring := inputs.map (·.2) }

end Node

/-! ## Plans -/

/-- Passes on the outcome of building a node. -/
def built (outcome : Except NodeError Node) : Except ModelError Node :=
  outcome.mapError .construction

/-- Builds a planned node, given what its selections stand for. -/
def NodePlan.build (resolve : Selection → Except ModelError Elements) :
    NodePlan → Except ModelError Node
  | .input type size => return Node.input type size
  | .constant values none => return Node.constant values
  | .constant values (some shape) => built (Node.shapedConstant values shape)
  | .arithmetic type op left right => do
      let left ← resolve left
      let right ← resolve right
      built do Node.arithmetic type (← BinaryOp.parse op) left right
  | .comparison type predicate left right => do
      let left ← resolve left
      let right ← resolve right
      built do Node.comparison type (← Predicate.parse predicate) left right
  | .coordinatewise type op values coordinates => do
      let op ← (CoordinateOp.parse op).mapError ModelError.construction
      let coordinates ← resolve coordinates
      built (Node.coordinatewise type op values coordinates)
  | .sum type groups => return Node.sum type (← groups.mapM resolve)
  | .concatenation type elements none => return Node.concatenation type (← resolve elements)
  | .concatenation type elements (some shape) => do
      built (Node.shapedConcatenation type (← resolve elements) shape)
  | .hamming type elements => return Node.hamming type (← resolve elements)
  | .sink type elements trigger name notifies => do
      let elements ← resolve elements
      let trigger ← resolve trigger
      built (Node.sink type name notifies elements trigger)
  | .custom name inputs outputs capabilities behaviour => do
      let inputs ← inputs.mapM fun (type, elements) => return (type, ← resolve elements)
      built (Node.custom name inputs outputs capabilities behaviour)

end Dataflow
