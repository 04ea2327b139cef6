import Dataflow.Graph.Evaluation
import Dataflow.Graph.TopologicalSort

/-!
# Models

A model is a graph of nodes in the order of their creation, each with a buffer for
every output port.  A node can only read from earlier nodes, so creation order is
always an order in which the nodes can be computed.

The nodes lie in an arena.  Next to it a model keeps the creation order of their keys
and the key of every id.  Operations that would break the structure of a model fail
and leave it alone.
-/

namespace Dataflow

/-- A node of a model with its id and its output buffers. -/
structure Entry where
  id : NodeId
  node : Node
  outputs : List Buffer
  deriving Inhabited

/-! ## Arenas -/

/-- The place of a node in an arena. -/
abbrev NodeKey := Nat

/-- Nodes by their keys.  A key is given once: the place of a removed node stays
empty. -/
structure Arena where
  places : Array (Option Entry)
  deriving Inhabited

namespace Arena

/-- An arena without nodes. -/
def empty : Arena :=
  ⟨#[]⟩

/-- The node with a key. -/
def get? (arena : Arena) (key : NodeKey) : Option Entry :=
  arena.places[key]?.join

/-- The key of the node that comes next. -/
def nextKey (arena : Arena) : NodeKey :=
  arena.places.size

/-- Adds a node under the next key. -/
def push (arena : Arena) (entry : Entry) : Arena :=
  ⟨arena.places.push (some entry)⟩

/-- Takes out a node. -/
def erase (arena : Arena) (key : NodeKey) : Arena :=
  ⟨arena.places.setIfInBounds key none⟩

/-- Changes a node. -/
def modify (arena : Arena) (key : NodeKey) (change : Entry → Entry) : Arena :=
  ⟨arena.places.modify key (Option.map change)⟩

@[simp]
theorem get?_empty (key : NodeKey) : empty.get? key = none := by
  simp [empty, get?]

theorem get?_push (arena : Arena) (entry : Entry) (key : NodeKey) :
    (arena.push entry).get? key = if key = arena.nextKey then some entry else arena.get? key := by
  simp only [push, get?, nextKey, Array.getElem?_push]
  split <;> simp [*]

theorem get?_erase (arena : Arena) (erased key : NodeKey) :
    (arena.erase erased).get? key = if key = erased then none else arena.get? key := by
  simp only [erase, get?, Array.getElem?_setIfInBounds]
  grind

theorem get?_modify (arena : Arena) (modified key : NodeKey) (change : Entry → Entry) :
    (arena.modify modified change).get? key =
      if key = modified then (arena.get? key).map change else arena.get? key := by
  simp only [modify, get?, Array.getElem?_modify]
  grind

theorem lt_nextKey_of_get?_eq_some {arena : Arena} {key : NodeKey} {entry : Entry}
    (found : arena.get? key = some entry) : key < arena.nextKey := by
  apply Nat.lt_of_not_le
  intro beyond
  simp [get?, Array.getElem?_eq_none beyond] at found

end Arena

/-! ## Models -/

/-- A graph: its nodes, their keys in creation order, the key of every id, and the id
that comes next. -/
structure Model where
  arena : Arena
  order : List NodeKey
  keys : List (NodeId × NodeKey)
  nextId : NodeId
  deriving Inhabited

namespace Model

/-- A model without nodes. -/
def empty : Model :=
  ⟨.empty, [], [], 0⟩

/-- The nodes in creation order. -/
def entries (model : Model) : List Entry :=
  model.order.filterMap model.arena.get?

/-- Number of nodes. -/
def size (model : Model) : Nat :=
  model.order.length

/-- The ids in creation order. -/
def ids (model : Model) : List NodeId :=
  model.entries.map Entry.id

/-- All output ports in creation order. -/
def outputRefs (model : Model) : List OutputRef :=
  model.entries.flatMap fun entry =>
    (List.range entry.node.outputs.length).map fun port => ⟨entry.id, port⟩

/-- The key of a node. -/
def key? (model : Model) (id : NodeId) : Option NodeKey :=
  model.keys.lookup id

/-- The entry of a node. -/
def entry? (model : Model) (id : NodeId) : Option Entry :=
  model.key? id >>= model.arena.get?

/-- The entry of a node that has to exist. -/
def entry (model : Model) (id : NodeId) : Except ModelError Entry :=
  match model.entry? id with
  | some entry => .ok entry
  | none => .error (.unknownNode id)

/-- The node with an id. -/
def node? (model : Model) (id : NodeId) : Option Node :=
  (model.entry? id).map Entry.node

/-- Whether a node exists. -/
def contains (model : Model) (id : NodeId) : Bool :=
  (model.key? id).isSome

/-- Changes the entry of a node. -/
def modifyEntry (model : Model) (id : NodeId) (change : Entry → Entry) : Model :=
  match model.key? id with
  | some key => { model with arena := model.arena.modify key change }
  | none => model

/-! ## Checks -/

/-- Requires a coordinate that a new node reads to be an element of an earlier node
with the type of the input port. -/
def checkCoordinate (model : Model) (id : NodeId) (type : ScalarType) (coordinate : Coordinate) :
    Except ModelError Unit := do
  let invalid := ModelError.invalidReference id coordinate
  if id ≤ coordinate.node then throw invalid
  match model.node? coordinate.node with
  | none => throw invalid
  | some source =>
      match source.outputs[coordinate.port]? with
      | none => throw (.coordinateOutOfRange coordinate)
      | some port =>
          if port.size ≤ coordinate.element then throw (.coordinateOutOfRange coordinate)
          if port.type ≠ type then
            throw (.portTypeMismatch coordinate.output type port.type)

/-- Requires everything that a new node reads to exist. -/
def checkInputs (model : Model) (id : NodeId) (node : Node) : Except ModelError Unit :=
  node.inputs.forM fun input => input.elements.forM (model.checkCoordinate id input.type)

/-- Whether a node reads an output of another one. -/
def reads (node : Node) (id : NodeId) : Bool :=
  node.inputs.any fun input => input.elements.any (·.node = id)

/-- The nodes that read an output of a node, in creation order. -/
def dependents (model : Model) (id : NodeId) : List NodeId :=
  (model.entries.filter fun entry => reads entry.node id).map Entry.id

end Model

/-! ## Edits -/

/-- An action on a model.  What it did before a failure stays done. -/
abbrev Edit := ExceptT ModelError (StateM Model)

namespace Edit

/-- Passes on the outcome of a check. -/
def check {α : Type} (outcome : Except ModelError α) : Edit α :=
  match outcome with
  | .ok value => pure value
  | .error error => throw error

/-- Appends a node: to the arena, to the creation order and to the keys. -/
def append (entry : Entry) : Edit Unit := do
  let key := (← get).arena.nextKey
  modify fun model => { model with arena := model.arena.push entry }
  modify fun model => { model with order := model.order ++ [key] }
  modify fun model => { model with keys := (entry.id, key) :: model.keys }

/-- Adds a node under an id, which has to be greater than all before. -/
def insert (id : NodeId) (node : Node) : Edit Unit := do
  let model ← get
  if id < model.nextId then throw (.nonMonotonicId id)
  if maxOutputPorts < node.outputs.length then throw (.tooManyOutputPorts node.outputs.length)
  check (model.checkInputs id node)
  append ⟨id, node, node.outputs.map fun port => Buffer.zeros port.type port.size⟩
  modify fun model => { model with nextId := id + 1 }

/-- Adds a node under the next id. -/
def add (node : Node) : Edit NodeId := do
  let id := (← get).nextId
  insert id node
  pure id

/-- Takes out a node that no other node reads. -/
def remove (id : NodeId) : Edit Node := do
  let model ← get
  match model.key? id with
  | none => throw (.unknownNode id)
  | some key =>
      let dependents := model.dependents id
      if !dependents.isEmpty then throw (.dependencyViolation id dependents)
      modify fun model => { model with keys := model.keys.filter (·.1 ≠ id) }
      modify fun model => { model with order := model.order.filter (· ≠ key) }
      match (← get).arena.get? key with
      | none => throw (.unknownNode id)
      | some entry =>
          modify fun model => { model with arena := model.arena.erase key }
          pure entry.node

/-- Writes the buffer of an input node. -/
def setInput (id : NodeId) (values : Buffer) : Edit Unit := do
  let model ← get
  let entry ← check (model.entry id)
  if !entry.node.capabilities.input then throw (.notAnInput id)
  match setOutput entry.outputs 0 values with
  | .ok outputs => modify (·.modifyEntry id fun entry => { entry with outputs })
  | .error error => throw (.node id entry.node.typeName error)

end Edit

namespace Model

/-- The outcome of an edit: its result with the model that it leaves, or its failure. -/
def edit {α : Type} (model : Model) (action : Edit α) : Except ModelError (α × Model) :=
  match action.run.run model with
  | (.ok result, model) => .ok (result, model)
  | (.error error, _) => .error error

/-- Adds a node under an id, which has to be greater than all before. -/
def insert (model : Model) (id : NodeId) (node : Node) : Except ModelError Model := do
  return (← model.edit (Edit.insert id node)).2

/-- Adds a node under the next id. -/
def add (model : Model) (node : Node) : Except ModelError (NodeId × Model) :=
  model.edit (Edit.add node)

/-- Takes out a node that no other node reads. -/
def remove (model : Model) (id : NodeId) : Except ModelError (Node × Model) :=
  model.edit (Edit.remove id)

/-- Writes the buffer of an input node. -/
def setInput (model : Model) (id : NodeId) (values : Buffer) : Except ModelError Model := do
  return (← model.edit (Edit.setInput id values)).2

/-- Writes the buffers of several input nodes. -/
def setInputs (model : Model) (inputs : List (NodeId × Buffer)) : Except ModelError Model :=
  inputs.foldlM (fun model (id, values) => model.setInput id values) model

/-- A copy with the same nodes under the same ids.  Its arena has no empty places. -/
def clone (model : Model) : Model :=
  let copy : Edit Unit := model.entries.forM Edit.append
  { (copy.run.run .empty).2 with nextId := model.nextId }

/-- Puts another node in the place of a node, without any check and without touching
its buffers. -/
def replaceNode (model : Model) (id : NodeId) (node : Node) : Model :=
  model.modifyEntry id fun entry => { entry with node }

/-- Gives a sink a callback.  Returns the name of the sink. -/
def attachCallback? (model : Model) (id : NodeId) : Option (String × Model) := do
  match ← model.node? id with
  | ⟨.sink type name size _, wiring⟩ =>
      some (name, model.replaceNode id ⟨.sink type name size true, wiring⟩)
  | _ => none

/-! ## Ports and values -/

/-- Number of elements of an output port. -/
def outputSize (model : Model) (port : OutputRef) : Except ModelError Nat := do
  let entry ← model.entry port.node
  match entry.node.outputs[port.port]? with
  | some output => return output.size
  | none => throw (.coordinateOutOfRange (port.element 0))

/-- All elements of an output port. -/
def portElements (model : Model) (port : OutputRef) : Except ModelError Elements := do
  return port.elements (← model.outputSize port)

/-- The buffer of an output port. -/
def outputValues (model : Model) (port : OutputRef) : Except ModelError Buffer := do
  let entry ← model.entry port.node
  match entry.outputs[port.port]? with
  | some values => return values
  | none => throw (.coordinateOutOfRange (port.element 0))

/-- The current value of a coordinate. -/
def value (model : Model) (coordinate : Coordinate) : Except ModelError Scalar := do
  let values ← model.outputValues coordinate.output
  match values.get? coordinate.element with
  | some value => return value
  | none => throw (.coordinateOutOfRange coordinate)

/-- Appends the current value of a coordinate to a buffer. -/
def gatherOne (model : Model) (type : ScalarType) (values : Buffer) (coordinate : Coordinate) :
    Except ModelError Buffer := do
  let value ← model.value coordinate
  match values.push? value with
  | some values => return values
  | none => throw (.portTypeMismatch coordinate.output type value.type)

/-- The current values of elements as a buffer of a type. -/
def gather (model : Model) (elements : Elements) (type : ScalarType) : Except ModelError Buffer :=
  elements.foldlM (model.gatherOne type) (.empty type)

/-- The input nodes, which become the parameters of a compiled routine. -/
def inputNodes (model : Model) : List NodeId :=
  (model.entries.filter (·.node.capabilities.input)).map Entry.id

/-! ## Computing -/

/-- The outcome of computing a model: the model with its new buffers, what the nodes
reported, and whether one of them failed. -/
structure Computation where
  model : Model
  notices : List Notice
  result : Except ModelError Unit

/-- Computes one node from the current buffers. -/
def computeNode (model : Model) (id : NodeId) : Computation :=
  match model.entry id with
  | .error error => ⟨model, [], .error error⟩
  | .ok entry =>
      match entry.node.inputs.mapM fun input => model.gather input.elements input.type with
      | .error error => ⟨model, [], .error error⟩
      | .ok inputs =>
          let evaluation := entry.node.operator.evaluate inputs entry.outputs
          { model := model.modifyEntry id fun entry => { entry with outputs := evaluation.outputs }
            notices := evaluation.notices
            result := evaluation.result.mapError (.node id entry.node.typeName) }

/-- Computes nodes one after the other.  The first failure ends the computation. -/
def computeNodes : List NodeId → Model → Computation
  | [], model => ⟨model, [], .ok ()⟩
  | id :: rest, model =>
      let first := model.computeNode id
      match first.result with
      | .error _ => first
      | .ok () =>
          let others := computeNodes rest first.model
          { others with notices := first.notices ++ others.notices }

/-- Computes all nodes in creation order. -/
def compute (model : Model) : Computation :=
  computeNodes model.ids model

/-- The type of the first element's buffer, or double precision for no elements. -/
def elementType (model : Model) (elements : Elements) : Except ModelError ScalarType :=
  match elements with
  | [] => .ok .f64
  | first :: _ => do return (← model.outputValues first.output).type

/-- The current values of elements, in the type of the first one. -/
def collect (model : Model) (elements : Elements) : Except ModelError Buffer := do
  model.gather elements (← model.elementType elements)

/-- Computes all nodes, then collects elements. -/
def computeOutput (model : Model) (elements : Elements) : Except ModelError Buffer := do
  model.compute.result
  model.compute.model.collect elements

/-! ## Order -/

/-- The first coordinate that a node reads and that is no earlier node's. -/
def invalidReference? (model : Model) (entry : Entry) : Option Coordinate :=
  entry.node.inputs.findSome? fun input =>
    input.elements.find? fun coordinate =>
      entry.id ≤ coordinate.node || !model.contains coordinate.node

/-- The nodes that a node reads, each where it comes first. -/
def dependencies (model : Model) (id : NodeId) : List NodeId :=
  match model.node? id with
  | none => []
  | some node =>
      node.inputs.foldl
        (fun sources input =>
          input.elements.sourceNodes.foldl
            (fun sources source => if source ∈ sources then sources else sources ++ [source])
            sources)
        []

/-- The nodes that some nodes need, dependencies first. -/
def submodelOrder (model : Model) (roots : List NodeId) : Except ModelError (List NodeId) :=
  (topologicalSort model.ids model.dependencies roots).mapError .cycleDetected

/-- Checks the structure again: every node reads earlier nodes of the model, and the
graph has no cycle. -/
def verify (model : Model) : Except ModelError Unit := do
  model.entries.forM fun entry =>
    match model.invalidReference? entry with
    | some coordinate => throw (.invalidReference entry.id coordinate)
    | none => pure ()
  let _ ← model.submodelOrder model.ids

end Model

end Dataflow
