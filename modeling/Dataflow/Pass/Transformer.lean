import Dataflow.Graph.Model

/-!
# Passes

A pass walks over the nodes of a source model in creation order and builds a target
model.  For each source node a callback adds nodes to the target and says which of
their elements stand for the output ports of the source node.  The port map of the
pass translates what later nodes read.
-/

namespace Dataflow

/-- The source node that a pass is at, with the sizes of its output ports. -/
structure CurrentNode where
  id : NodeId
  outputSizes : List Nat
  deriving Repr, Inhabited

/-- The state of a transformation: which nodes count as compilable, the target model, the
port map, the current source node and what was reported. -/
structure Transformer where
  compilable : Node → Bool
  target : Model
  portMap : PortMap
  current : Option CurrentNode
  notices : Array Notice

/-- A transformer that has done nothing yet. -/
def Transformer.start (compilable : Node → Bool) : Transformer :=
  ⟨compilable, .empty, .empty, none, #[]⟩

/-- A node counts as compilable when it has code. -/
def hasCode (node : Node) : Bool :=
  node.capabilities.compilable

/-- A predicate that accepts some type names.  For other nodes it has a fixed answer,
or else asks whether they have code. -/
def acceptsTypes (types : List String) (others : Option Bool) (node : Node) : Bool :=
  types.contains node.typeName || others.getD (hasCode node)

/-- An action on a transformer.  What it did before a failure stays done. -/
abbrev Pass := ExceptT ModelError (StateM Transformer)

namespace Pass

/-- Passes on the outcome of an operation. -/
def lift {α : Type} (outcome : Except ModelError α) : Pass α :=
  match outcome with
  | .ok value => pure value
  | .error error => throw error

/-! ## What a callback can do -/

/-- The source node that the pass is at. -/
def currentNode : Pass CurrentNode := do
  match (← get).current with
  | some current => pure current
  | none => throw .noCurrentNode

/-- Adds a node to the target. -/
def addNode (node : Node) : Pass NodeId := do
  let (id, target) ← lift ((← get).target.add node)
  modify fun transformer => { transformer with target }
  pure id

/-- What stands for elements of the source. -/
def translate (elements : Elements) : Pass Elements := do
  lift ((← get).portMap.translate elements)

/-- Lets elements of the target stand for an output port of the current node. -/
def mapOutput (port : Nat) (elements : Elements) : Pass Unit := do
  let current ← currentNode
  let output : OutputRef := ⟨current.id, port⟩
  match current.outputSizes[port]? with
  | none => throw (.coordinateOutOfRange (output.element 0))
  | some expected =>
      if elements.length ≠ expected then
        throw (.mappingSize output expected elements.length)
      let portMap ← lift ((← get).portMap.insert output elements)
      modify fun transformer => { transformer with portMap }

/-- Maps output ports of the current node one to one to those of a target node. -/
def mapOutputs (target : NodeId) : (port : Nat) → (sizes : List Nat) → Pass Unit
  | _, [] => pure ()
  | port, size :: sizes => do
      mapOutput port ((⟨target, port⟩ : OutputRef).elements size)
      mapOutputs target (port + 1) sizes

/-- Adds a copy of a node with translated wiring and maps its output ports one to
one. -/
def copyNode (node : Node) : Pass NodeId := do
  let wiring ← node.wiring.mapM translate
  let id ← addNode { node with wiring }
  mapOutputs id 0 (node.outputs.map OutputPort.size)
  pure id

/-- Reports something. -/
def note (notice : Notice) : Pass Unit :=
  modify fun transformer => { transformer with notices := transformer.notices.push notice }

/-! ## Passes -/

/-- Requires all output ports of a node to be mapped. -/
def checkMapped (current : CurrentNode) : Pass Unit := do
  let map := (← get).portMap
  let ports := (List.range current.outputSizes.length).map (⟨current.id, ·⟩)
  match ports.find? fun port => (map.get? port).isNone with
  | some port => throw (.unmappedPort port)
  | none => pure ()

/-- Handles one source node and returns whether it was refined. -/
def visit (source : Model) (callback : Node → Pass Bool) (id : NodeId) : Pass Bool := do
  let entry ← lift (source.entry id)
  let current : CurrentNode := ⟨id, entry.node.outputs.map OutputPort.size⟩
  let leave : Pass Unit := modify fun transformer => { transformer with current := none }
  modify fun transformer => { transformer with current := some current }
  let refined ←
    try
      callback entry.node
    catch error =>
      leave
      throw error
  leave
  checkMapped current
  pure refined

/-- Handles source nodes in order and counts those that were refined. -/
def visitAll (source : Model) (callback : Node → Pass Bool) :
    List NodeId → Nat → Pass Nat
  | [], refined => pure refined
  | id :: rest, refined => do
      let changed ← visit source callback id
      visitAll source callback rest (if changed then refined + 1 else refined)

/-- Runs a pass over some nodes of a source.  Returns the target and the number of
refined nodes. -/
def transformNodes (source : Model) (order : List NodeId) (callback : Node → Pass Bool) :
    Pass (Model × Nat) := do
  modify fun transformer => { transformer with target := .empty, portMap := .empty }
  let refined ← visitAll source callback order 0
  let target := (← get).target
  modify fun transformer => { transformer with target := .empty }
  pure (target, refined)

/-- Runs a pass over all nodes of a source. -/
def transformModel (source : Model) (callback : Node → Pass Bool) : Pass (Model × Nat) :=
  transformNodes source source.ids callback

/-- The callback that copies a node. -/
def copying (node : Node) : Pass Bool := do
  let _ ← copyNode node
  pure false

/-- Copies a model.  Its nodes get the ids from zero on. -/
def copyModel (source : Model) : Pass Model := do
  return (← transformModel source copying).1

/-- Copies the nodes that some element lists need, in the order of the source.
Returns the copy and the translated lists. -/
def copySubmodel (source : Model) (outputs : List Elements) : Pass (Model × List Elements) := do
  let needed ← lift (source.submodelOrder (outputs.flatMap Elements.sourceNodes))
  let order := source.ids.filter (· ∈ needed)
  let (model, _) ← transformNodes source order copying
  return (model, ← outputs.mapM translate)

end Pass

end Dataflow
