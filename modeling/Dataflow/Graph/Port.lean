import Dataflow.Graph.Elements
import Dataflow.Graph.Shape
import Dataflow.Scalar.Basic

/-!
# Ports and capabilities

An input port reads elements of earlier nodes and owns no memory.  An output port
describes a buffer of its node.
-/

namespace Dataflow

/-- A graph's node has at most this many output ports. -/
def maxOutputPorts : Nat := 8

/-- What a node reads in one place. -/
structure InputPort where
  name : String
  type : ScalarType
  elements : Elements
  deriving DecidableEq, Repr, Inhabited

/-- What a node produces in one place. -/
structure OutputPort where
  name : String
  type : ScalarType
  layout : MemoryLayout
  deriving DecidableEq, Repr, Inhabited

/-- Number of elements that an input port reads. -/
def InputPort.size (port : InputPort) : Nat :=
  port.elements.length

/-- Number of active elements, which is the length of the computed buffer. -/
def OutputPort.size (port : OutputPort) : Nat :=
  port.layout.activeSize

/-- An output port with one dimension. -/
def OutputPort.vector (name : String) (type : ScalarType) (size : Nat) : OutputPort :=
  ⟨name, type, .vector size⟩

/-- How strongly the code of a node wants to stand inside the code of its
caller. -/
inductive InlineHint
  /-- The node has no code of its own. -/
  | required
  /-- Inline as long as the node is small. -/
  | preferred
  /-- Always a subroutine. -/
  | never
  deriving DecidableEq, Repr, Inhabited

namespace InlineHint

def name : InlineHint → String
  | required => "required"
  | preferred => "preferred"
  | never => "never"

def ofName? : String → Option InlineHint
  | "required" => some required
  | "preferred" => some preferred
  | "never" => some never
  | _ => none

@[simp]
theorem ofName?_name (hint : InlineHint) : ofName? hint.name = some hint := by
  cases hint <;> rfl

end InlineHint

/-- What can be done with a node. -/
structure Capabilities where
  compilable : Bool
  /-- The node's output is a parameter of the compiled routine. -/
  input : Bool
  inline : InlineHint
  deriving DecidableEq, Repr, Inhabited

namespace Capabilities

/-- A node that has code. -/
def code (inline : InlineHint) : Capabilities :=
  ⟨true, false, inline⟩

/-- A node that has to be replaced before compilation. -/
def refineOnly : Capabilities :=
  ⟨false, false, .preferred⟩

/-- A node that stands for a parameter. -/
def parameter : Capabilities :=
  ⟨true, true, .required⟩

/-- Whether a node has to be replaced before compilation. -/
def mustRefine (capabilities : Capabilities) : Bool :=
  !capabilities.compilable

end Capabilities

end Dataflow
