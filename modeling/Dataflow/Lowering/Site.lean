import Dataflow.Graph.Node
import Dataflow.Lowering.Scope

/-!
# Sites

The site of a node is what its code can see: the ports of the node, the options,
and whether the code stands inside the entry routine or in a routine of its own.
Inside the entry routine, ports are looked up in the scope.  In a subroutine they
are the parameters, inputs before outputs, and nothing can be bound.
-/

namespace Dataflow

/-- The state of a lowering next to the routine that is being built: the finished
routines, the scope of the entry routine, the strategies that nodes chose, the
nodes that became subroutines, and what nodes reported. -/
structure Lowering where
  program : Program
  scope : Scope
  strategies : Array (NodeId × Strategy)
  subroutines : Array NodeId
  notices : Array Notice
  deriving Inhabited

/-- A lowering that has done nothing yet. -/
def Lowering.start : Lowering :=
  ⟨.empty, .empty, #[], #[], #[]⟩

/-- An action that emits code for a graph. -/
abbrev Lower := Emit Lowering

namespace Lower

/-- The scope of the entry routine. -/
def scope : Lower Scope :=
  return (← Emit.own).scope

/-- Changes the scope of the entry routine. -/
def setScope (scope : Scope) : Lower Unit :=
  Emit.modifyOwn fun lowering => { lowering with scope }

end Lower

/-- Whether code stands inside the entry routine or in a routine of its own. -/
inductive Placement
  | inline
  | subroutine
  deriving DecidableEq, Repr, Inhabited

/-- What the code of a node can see. -/
structure Site where
  node : NodeId
  typeName : String
  inputs : List InputPort
  outputs : List OutputPort
  options : CompilerOptions
  placement : Placement
  deriving Inhabited

namespace Site

/-- The site of a node. -/
def ofNode (id : NodeId) (node : Node) (options : CompilerOptions) (placement : Placement) : Site :=
  ⟨id, node.typeName, node.inputs, node.outputs, options, placement⟩

/-- The parameters of a subroutine: one for each input port, then one for each
output port. -/
def parameters (site : Site) : List Parameter :=
  (site.inputs.mapIdx fun index port => ⟨s!"in_{index}", port.type, port.size⟩) ++
    site.outputs.mapIdx fun index port => ⟨s!"out_{index}", port.type, port.size⟩

/-- A port of the node, by its position. -/
def port (site : Site) (index : Nat) : OutputRef :=
  ⟨site.node, index⟩

/-- An input port. -/
def inputPort (site : Site) (index : Nat) : Except CompileError InputPort :=
  match site.inputs[index]? with
  | some port => .ok port
  | none => .error (.unboundPort (site.port index))

/-- An output port. -/
def outputPort (site : Site) (index : Nat) : Except CompileError OutputPort :=
  match site.outputs[index]? with
  | some port => .ok port
  | none => .error (.unboundPort (site.port index))

/-- The parameter of a subroutine for an input port. -/
def inputParameter (index : Nat) (port : InputPort) : ArrayRef :=
  ⟨index, port.type, 0, port.size⟩

/-- The parameter of a subroutine for an output port. -/
def outputParameter (site : Site) (index : Nat) (port : OutputPort) : ArrayRef :=
  ⟨site.inputs.length + index, port.type, 0, port.size⟩

/-- Gives up on the node under a type name. -/
def uncompilable {α : Type} (site : Site) (typeName : String) : Lower α :=
  throw (.uncompilableNode site.node typeName)

/-! ## Strategies -/

/-- Chooses a strategy for a number of elements and records the choice. -/
def strategy (site : Site) (size : Nat) : Lower Strategy := do
  let choice := site.options.strategyFor size
  Emit.modifyOwn fun lowering =>
    { lowering with strategies := lowering.strategies.push (site.node, choice) }
  pure choice

/-! ## Inputs -/

/-- Whether an input can be read as one array without copying. -/
def inputIsContiguous (site : Site) (index : Nat) : Lower Bool := do
  let port ← Emit.check (site.inputPort index)
  match site.placement with
  | .inline => do
      let scope ← Lower.scope
      return (← Emit.check (scope.contiguous port.elements port.type)).isSome
  | .subroutine => pure true

/-- An input as one array. -/
def inputArray (site : Site) (index : Nat) : Lower ArrayRef := do
  let port ← Emit.check (site.inputPort index)
  match site.placement with
  | .inline => do
      let scope ← Lower.scope
      scope.gather port.elements port.type
  | .subroutine => pure (inputParameter index port)

/-- Reads one element of an input. -/
def inputElement (site : Site) (index element : Nat) : Lower ValueId := do
  let port ← Emit.check (site.inputPort index)
  match site.placement with
  | .inline =>
      match port.elements[element]? with
      | some coordinate => do
          let scope ← Lower.scope
          scope.load coordinate
      | none => throw (.indexOutOfBounds element port.size)
  | .subroutine => Emit.load (inputParameter index port) (.fixed element)

/-! ## Outputs -/

/-- The array of an output, which is declared on first use. -/
def outputArray (site : Site) (index : Nat) : Lower ArrayRef := do
  let port ← Emit.check (site.outputPort index)
  match site.placement with
  | .inline => do
      let scope ← Lower.scope
      match scope.binding? (site.port index) with
      | some (.array window) => pure window
      | _ => do
          let window ← Emit.declareArray port.type port.size
          Lower.setScope (scope.bindArray (site.port index) window)
          pure window
  | .subroutine => pure (site.outputParameter index port)

/-- Requires the code to stand inside the entry routine. -/
def requireInline (site : Site) : Lower Unit :=
  match site.placement with
  | .inline => pure ()
  | .subroutine => throw (.inlineRequired site.node site.typeName)

/-- Binds an output to an array that exists already. -/
def bindOutputArray (site : Site) (index : Nat) (window : ArrayRef) : Lower Unit := do
  let port ← Emit.check (site.outputPort index)
  if window.length ≠ port.size ∨ window.type ≠ port.type then
    throw (.invalidOutput (s!"array of {window.length} " ++ window.type.name ++
      s!" bound to port {index} of node {site.node}"))
  site.requireInline
  let scope ← Lower.scope
  Lower.setScope (scope.bindArray (site.port index) window)

/-- Lets an output be another name for elements. -/
def bindOutputAlias (site : Site) (index : Nat) (elements : Elements) : Lower Unit := do
  let port ← Emit.check (site.outputPort index)
  if elements.length ≠ port.size then
    throw (.invalidOutput (s!"{elements.length} elements aliased to port {index} of node " ++
      s!"{site.node} with size {port.size}"))
  site.requireInline
  let scope ← Lower.scope
  Lower.setScope (← Emit.check (scope.bindAlias (site.port index) elements))

/-- Whether an output has a place already. -/
def outputIsBound (site : Site) (index : Nat) : Lower Bool := do
  match site.placement with
  | .inline => return (← Lower.scope).isBound (site.port index)
  | .subroutine => pure (index < site.outputs.length)

end Site

end Dataflow
