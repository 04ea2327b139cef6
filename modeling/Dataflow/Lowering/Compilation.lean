import Dataflow.Graph.Model
import Dataflow.Lowering.NodeCode
import Dataflow.Native.Code
import Dataflow.Routine.Execution

/-!
# Compilation

Compilation lowers a model to a program.  Its entry routine has one parameter for
each input node and one for each requested list of elements.  Nodes are lowered in
creation order, each inside the entry routine or as a subroutine; then the requested
elements are copied to the output parameters.
-/

namespace Dataflow

/-- The parameters of an entry routine. -/
structure Signature where
  routine : String
  inputs : List (NodeId × Parameter)
  outputs : List Parameter
  deriving DecidableEq, Repr, Inhabited

/-- All parameters, inputs first. -/
def Signature.parameters (signature : Signature) : List Parameter :=
  signature.inputs.map (·.2) ++ signature.outputs

/-- A compiled model: the program, the signature of its entry, the strategies that
nodes chose and the nodes that are subroutines. -/
structure CompiledModel where
  program : Program
  signature : Signature
  strategies : List (NodeId × Strategy)
  subroutines : List NodeId
  deriving Inhabited

/-- The outcome of a compilation, and what nodes reported. -/
structure Compilation where
  result : Except CompileError CompiledModel
  notices : List Notice

/-! ## Signatures -/

/-- The parameter of an input node. -/
def inputParameter (model : Model) (id : NodeId) : Except CompileError (NodeId × Parameter) := do
  let entry ← (model.entry id).mapError CompileError.model
  match entry.node.outputs with
  | [] => throw (.invalidOutput s!"input node {id} has no output port")
  | port :: _ => return (id, ⟨s!"input_{id}", port.type, port.size⟩)

/-- Requires the elements of an output to have a type. -/
def checkElementTypes (model : Model) (index : Nat) (type : ScalarType) (elements : Elements) :
    Except CompileError Unit :=
  elements.forM fun coordinate => do
    let value ← (model.value coordinate).mapError CompileError.model
    if value.type ≠ type then
      throw (.invalidOutput
        (s!"output {index} mixes " ++ type.name ++ " and " ++ value.type.name ++ " elements"))

/-- The parameter of an output. -/
def requestedParameter (model : Model) (index : Nat) (elements : Elements) :
    Except CompileError Parameter := do
  let type ← (model.elementType elements).mapError CompileError.model
  checkElementTypes model index type elements
  return ⟨s!"output_{index}", type, elements.length⟩

/-- The signature of a model for some requested outputs. -/
def Model.signature (model : Model) (routine : String) (outputs : List Elements) :
    Except CompileError Signature := do
  let inputs ← model.inputNodes.mapM (inputParameter model)
  let outputs ← outputs.zipIdx.mapM fun (elements, index) =>
    requestedParameter model index elements
  return ⟨routine, inputs, outputs⟩

/-! ## Nodes -/

/-- Declares an array for every output port of a node and binds the ports to
them. -/
def declareOutputs (id : NodeId) : Nat → List OutputPort → Lower (List ArrayRef)
  | _, [] => pure []
  | index, port :: rest => do
      let window ← Emit.declareArray port.type port.size
      Lower.setScope ((← Lower.scope).bindArray ⟨id, index⟩ window)
      return window :: (← declareOutputs id (index + 1) rest)

/-- Lowers a node to a subroutine and calls it. -/
def lowerSubroutine (options : CompilerOptions) (id : NodeId) (node : Node) : Lower Unit := do
  let site := Site.ofNode id node options .subroutine
  let inputs ← node.inputs.mapM fun port => do
    (← Lower.scope).gather port.elements port.type
  let outputs ← declareOutputs id 0 node.outputs
  let name := options.functionName ++ s!"_node_{id}"
  let builder ← Emit.check ((← Emit.own).program.declare name site.parameters)
  let subroutine ← Emit.inRoutine builder (node.operator.lower site)
  let program ← Emit.check ((← Emit.own).program.define subroutine)
  Emit.modifyOwn fun lowering => { lowering with program }
  Emit.call (.routine name) ((inputs ++ outputs).map .array)
  Emit.modifyOwn fun lowering => { lowering with subroutines := lowering.subroutines.push id }

/-- Requires the output ports of a node to have places. -/
def checkBound (id : NodeId) (node : Node) : Lower Unit := do
  let scope ← Lower.scope
  let ports := (List.range node.outputs.length).map fun index => (⟨id, index⟩ : OutputRef)
  match ports.find? (!scope.isBound ·) with
  | some port => throw (.unboundPort port)
  | none => pure ()

/-- Lowers a node. -/
def lowerNode (options : CompilerOptions) (id : NodeId) (node : Node) : Lower Unit := do
  if !node.capabilities.compilable then
    throw (.uncompilableNode id node.typeName)
  let size := node.outputs.foldl (fun total port => total + port.size) 0
  if options.shouldInline node.capabilities.inline size then
    node.operator.lower (Site.ofNode id node options .inline)
  else
    lowerSubroutine options id node
  checkBound id node

/-! ## The entry routine -/

/-- Binds the input nodes to the parameters from a position on. -/
def bindInputs : Nat → List (NodeId × Parameter) → Scope → Scope
  | _, [], scope => scope
  | index, (id, parameter) :: rest, scope =>
      bindInputs (index + 1) rest
        (scope.bindArray ⟨id, 0⟩ ⟨index, parameter.type, 0, parameter.length⟩)

/-- Copies requested elements to a window. -/
def copyOutput (options : CompilerOptions) (elements : Elements) (target : ArrayRef) :
    Lower Unit := do
  let scope ← Lower.scope
  match ← Emit.check (scope.contiguous elements target.type),
      options.strategyFor elements.length with
  | some source, .loop =>
      Emit.loop 0 elements.length fun index => do
        let value ← Emit.load source (.value index)
        Emit.store target (.value index) value
  | _, _ => scope.copyElements target 0 elements

/-- Copies the requested elements to the output parameters, which start at a
position. -/
def copyOutputs (options : CompilerOptions) : Nat → List (Parameter × Elements) → Lower Unit
  | _, [] => pure ()
  | index, (parameter, elements) :: rest => do
      copyOutput options elements ⟨index, parameter.type, 0, parameter.length⟩
      copyOutputs options (index + 1) rest

/-- Lowers the nodes of a model. -/
def lowerNodes (options : CompilerOptions) : List Entry → Lower Unit
  | [] => pure ()
  | entry :: rest => do
      lowerNode options entry.id entry.node
      lowerNodes options rest

/-- The code of the entry routine. -/
def lowerEntry (model : Model) (options : CompilerOptions) (signature : Signature)
    (outputs : List Elements) : Lower Unit := do
  Lower.setScope (bindInputs 0 signature.inputs .empty)
  lowerNodes options model.entries
  copyOutputs options signature.inputs.length (signature.outputs.zip outputs)

/-- Checks the structure of a model and the requested outputs. -/
def Model.checkedSignature (model : Model) (options : CompilerOptions) (outputs : List Elements) :
    Except CompileError Signature := do
  model.verify.mapError .model
  model.signature options.functionName outputs

/-- Compiles a model for some requested outputs. -/
def Model.compile (model : Model) (options : CompilerOptions) (outputs : List Elements) :
    Compilation :=
  match model.checkedSignature options outputs with
  | .error error => ⟨.error error, []⟩
  | .ok signature =>
      let start := Builder.start signature.routine signature.parameters
      let (result, builder, lowering) :=
        (lowerEntry model options signature outputs).run.run (start, .start)
      let compiled : Except CompileError CompiledModel := do
        result
        return {
          program := ← lowering.program.define builder
          signature
          strategies := lowering.strategies.toList
          subroutines := lowering.subroutines.toList }
      ⟨compiled, lowering.notices.toList⟩

/-! ## Running compiled models -/

namespace CompiledModel

/-- The strategy that a node chose first. -/
def strategy? (compiled : CompiledModel) (id : NodeId) : Option Strategy :=
  compiled.strategies.lookup id

/-- Runs the entry routine on one buffer for each input node.  The result has one
buffer for each output. -/
def compute (compiled : CompiledModel) (inputs : List Buffer) (host : Host) : RunOutcome :=
  let signature := compiled.signature
  let expected := signature.inputs.length
  if inputs.length ≠ expected then
    ⟨.error (.argumentCount signature.routine expected inputs.length), []⟩
  else
    let outputs := signature.outputs.map fun parameter =>
      Buffer.zeros parameter.type parameter.length
    let outcome :=
      compiled.program.run host signature.routine (inputs ++ outputs)
    { outcome with result := outcome.result.map (·.drop expected) }

/-- A compiled model as native code that calls the host through `hostSymbol`. -/
def native (compiled : CompiledModel) (hostSymbol : String) :
    Except CompileError NativeProgram :=
  compiled.program.toNative hostSymbol
    { routine := compiled.signature.routine
      inputs := compiled.signature.inputs.map (·.2)
      outputs := compiled.signature.outputs }

end CompiledModel

end Dataflow
