import Dataflow.Pass.PortMap
import Dataflow.Routine.Assembly

/-!
# Behaviour of custom nodes

Besides the standard operators a graph can hold custom ones.  What a custom node
computes, how it is refined and what it compiles to are short lists of steps that
name the ports and nodes they work with; a step of a computation can be any
procedure on the values of the ports.  A refinement adds nodes to a graph that is
being built, so the elements it reads are known only when it runs; a `Selection`
describes them.
-/

namespace Dataflow

/-- A computation that writes to output ports.  It learns whether a write failed
and need not fail with it. -/
inductive Procedure
  | finish (result : Except NodeError Unit)
  | write (port : Nat) (values : Buffer) (next : Except NodeError Unit → Procedure)

/-- A step of a custom node's computation. -/
inductive ComputeStep
  /-- Reports the values of an input port. -/
  | observe (port : Nat)
  /-- Writes fixed values to an output port. -/
  | set (port : Nat) (values : Buffer)
  /-- Copies an input port of a type to an output port. -/
  | copy (source target : Nat) (type : ScalarType)
  /-- Follows a procedure that is chosen by the values of the input ports. -/
  | perform (procedure : List Buffer → Procedure)
  deriving Inhabited

/-- A step of a custom node's code that refers to the ports of the node. -/
inductive PortStep
  | inputArray (port : Nat) (result : Option String)
  | inputElement (port element : Nat) (result : Option String)
  | outputArray (port : Nat) (result : Option String)
  | bindArray (port : Nat) (array : String)
  | bindAlias (port : Nat) (elements : Elements)
  /-- Reports the strategy for a size. -/
  | strategy (size : Nat)
  /-- Reports on an input port. -/
  | ask (port : Nat)
  /-- Reports where the node is compiled. -/
  | whereabouts (port : Nat)
  /-- Gives up under a type name. -/
  | fail (typeName : String)
  deriving Repr, Inhabited

/-- Elements of a graph that is being built. -/
inductive Selection
  | coordinates (elements : Elements)
  | concat (parts : List Selection)
  /-- Elements translated by a port map. -/
  | via (map : PortMap) (part : Selection)
  /-- What now stands for an input port of the current node. -/
  | input (port : Nat)
  /-- Elements of a node that was added under a label. -/
  | added (label : String) (port size : Nat)
  /-- What now stands for elements of the source graph. -/
  | translated (part : Selection)
  deriving Repr, Inhabited

/-- An output port that is not checked yet. -/
structure PlannedOutput where
  type : ScalarType
  active : Shape
  padding : Option Shape
  deriving Repr, Inhabited

mutual

/-- A node that is not built yet.  Operations are given by their names. -/
inductive NodePlan
  | input (type : ScalarType) (size : Nat)
  | constant (values : Buffer) (shape : Option Shape)
  | arithmetic (type : RealType) (op : String) (left right : Selection)
  | comparison (type : RealType) (predicate : String) (left right : Selection)
  | coordinatewise (type : RealType) (op : String) (values : Array type.Carrier)
      (input : Selection)
  | sum (type : RealType) (groups : List Selection)
  | concatenation (type : ScalarType) (input : Selection) (shape : Option Shape)
  | hamming (type : RealType) (input : Selection)
  | sink (type : ScalarType) (input trigger : Selection) (name : String) (notifies : Bool)
  | custom (name : String) (inputs : List (ScalarType × Selection))
      (outputs : List PlannedOutput) (capabilities : Capabilities) (behaviour : Behaviour)

/-- A step of a refinement. -/
inductive RecipeStep
  /-- Copies the current node and labels the copy. -/
  | copy (label : String)
  /-- Adds a node and labels it. -/
  | add (plan : NodePlan) (label : String)
  /-- Lets elements stand for an output port of the current node. -/
  | map (port : Nat) (elements : Selection)
  /-- Reports the state of the pass. -/
  | look

/-- A refinement: its steps, and whether the node counts as refined after them. -/
inductive Recipe
  | mk (steps : List RecipeStep) (refined : Bool)

/-- What a custom node does. -/
inductive Behaviour
  | mk (compute : List ComputeStep) (refinement : Option Recipe)
      (code : Option (List (AssemblyStep PortStep)))

end

namespace Recipe

/-- The steps of a refinement. -/
def steps : Recipe → List RecipeStep
  | mk steps _ => steps

/-- Whether a refinement counts. -/
def refined : Recipe → Bool
  | mk _ refined => refined

end Recipe

namespace Behaviour

/-- The steps of the computation. -/
def compute : Behaviour → List ComputeStep
  | mk compute _ _ => compute

/-- The refinement, if there is one. -/
def refinement : Behaviour → Option Recipe
  | mk _ refinement _ => refinement

/-- The code, if there is some. -/
def code : Behaviour → Option (List (AssemblyStep PortStep))
  | mk _ _ code => code

instance : Inhabited Behaviour := ⟨mk [] none none⟩

end Behaviour

end Dataflow
