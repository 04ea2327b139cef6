import Dataflow.Routine.Notice

/-!
# Assembly

Assembly describes emitter actions as data.  Its steps name the handles they
produce and refer to them by these names later.  A client adds steps of its own
as a type of extra steps together with their meaning.
-/

namespace Dataflow

/-- An index: a fixed position or the name of an index variable. -/
inductive AssemblyIndex
  | fixed (position : Nat)
  | named (name : String)
  deriving DecidableEq, Repr, Inhabited

/-- A step of an assembly.  `result` is the name for the handle that it produces,
if the handle gets one. -/
inductive AssemblyStep (Extra : Type)
  | literal (value : Literal) (result : Option String)
  | assign (target source : String)
  | array (type : ScalarType) (length : Nat) (result : Option String)
  | constant (values : Buffer) (result : Option String)
  | parameter (index : Nat) (result : Option String)
  | slice (source : String) (start length : Nat) (result : Option String)
  /-- A window with the array of another one and fields that nobody checks. -/
  | window (source : String) (type : Option ScalarType) (offset length : Nat)
      (result : Option String)
  | load (array : String) (index : AssemblyIndex) (result : Option String)
  | store (array : String) (index : AssemblyIndex) (value : String)
  | binary (op left right : String) (result : Option String)
  | compare (predicate left right : String) (result : Option String)
  | loop (start stop : Nat) (counter : Option String) (body : List (AssemblyStep Extra))
  | branch (condition : String) (body : List (AssemblyStep Extra))
  | call (callee : Callee) (operands : List String)
  | inspect (name : String)
  | extra (step : Extra)
  deriving Repr, Inhabited

/-- What a name stands for. -/
inductive Handle
  | value (value : ValueId)
  | array (window : ArrayRef)
  deriving DecidableEq, Repr, Inhabited

/-- The state of an assembly: its names, its notices and a state of the client. -/
structure AssemblyState (σ : Type) where
  handles : List (String × Handle)
  notices : Array Notice
  client : σ

/-- An emitter action that knows the names of an assembly. -/
abbrev Assemble (σ : Type) := Emit (AssemblyState σ)

namespace Assemble

variable {σ : Type}

/-- Reports a notice. -/
def note (notice : Notice) : Assemble σ Unit :=
  Emit.modifyOwn fun state => { state with notices := state.notices.push notice }

/-- What a name stands for. -/
def handle? (name : String) : Assemble σ (Option Handle) := do
  return (← Emit.own).handles.lookup name

/-- Gives a name to a handle, when there is one to give. -/
def bindName (name : Option String) (handle : Handle) : Assemble σ Unit :=
  match name with
  | some name =>
      Emit.modifyOwn fun state => { state with handles := (name, handle) :: state.handles }
  | none => pure ()

/-- The variable with a name. -/
def valueNamed (name : String) : Assemble σ ValueId := do
  match ← handle? name with
  | some (.value value) => pure value
  | _ => throw (.backend ("no value is named `" ++ name ++ "`"))

/-- The window with a name. -/
def arrayNamed (name : String) : Assemble σ ArrayRef := do
  match ← handle? name with
  | some (.array window) => pure window
  | _ => throw (.backend ("no array is named `" ++ name ++ "`"))

/-- The operand with a name. -/
def operandNamed (name : String) : Assemble σ Operand := do
  match ← handle? name with
  | some (.value value) => pure (.value value)
  | some (.array window) => pure (.array window)
  | none => throw (.backend ("nothing is named `" ++ name ++ "`"))

/-- Runs an action on the state of the client. -/
def onClient {α : Type} (action : Emit σ α) : Assemble σ α :=
  Emit.within AssemblyState.client (fun state client => { state with client }) action

/-- The index that a step gives. -/
def index : AssemblyIndex → Assemble σ Index
  | .fixed position => pure (.fixed position)
  | .named name => .value <$> valueNamed name

/-- Passes on the outcome of finding something by its name. -/
def parsed {α : Type} (outcome : Except NodeError α) : Assemble σ α :=
  Emit.check (outcome.mapError .node)

/-- Reports what a name stands for. -/
def inspect (name : String) : Assemble σ Unit := do
  match ← handle? name with
  | some (.value value) => note (.valueHandle value)
  | some (.array window) => note (.arrayHandle window)
  | none => note .unboundHandle

end Assemble

open Assemble in
mutual

/-- The action of a step. -/
def AssemblyStep.assemble {Extra σ : Type} (extra : Extra → Assemble σ Unit) :
    AssemblyStep Extra → Assemble σ Unit
  | .literal value result => do
      bindName result (.value (← Emit.literal value))
  | .assign target source => do
      Emit.assign (← valueNamed target) (← valueNamed source)
  | .array type length result => do
      bindName result (.array (← Emit.declareArray type length))
  | .constant values result => do
      bindName result (.array (← Emit.declareConstant values))
  | .parameter index result => do
      match (← Emit.builder).parameter? index with
      | some window => bindName result (.array window)
      | none => note .noParameter
  | .slice source start length result => do
      match (← arrayNamed source).slice? start length with
      | some window => bindName result (.array window)
      | none => note .noSlice
  | .window source type offset length result => do
      let window ← arrayNamed source
      bindName result (.array ⟨window.array, type.getD window.type, offset, length⟩)
  | .load array position result => do
      let window ← arrayNamed array
      bindName result (.value (← Emit.load window (← index position)))
  | .store array position value => do
      let window ← arrayNamed array
      let position ← index position
      Emit.store window position (← valueNamed value)
  | .binary op left right result => do
      let op ← parsed (BinaryOp.parse op)
      let left ← valueNamed left
      bindName result (.value (← Emit.binary op left (← valueNamed right)))
  | .compare predicate left right result => do
      let predicate ← parsed (Predicate.parse predicate)
      let left ← valueNamed left
      bindName result (.value (← Emit.compare predicate left (← valueNamed right)))
  | .loop start stop counter body =>
      Emit.loop start stop fun value => do
        bindName counter (.value value)
        assembleBody extra body
  | .branch condition body => do
      Emit.branch (← valueNamed condition) (assembleBody extra body)
  | .call callee operands => do
      Emit.call callee (← operands.mapM operandNamed)
  | .inspect name => inspect name
  | .extra step => extra step

/-- The action of several steps.  The first failure ends it. -/
def assembleBody {Extra σ : Type} (extra : Extra → Assemble σ Unit) :
    List (AssemblyStep Extra) → Assemble σ Unit
  | [] => pure ()
  | step :: rest => do
      step.assemble extra
      assembleBody extra rest

end

/-- Takes steps one after the other, also after failures, and returns the outcome of
each. -/
def assembleEach {Extra σ : Type} (extra : Extra → Assemble σ Unit) :
    List (AssemblyStep Extra) → StateM (Builder × AssemblyState σ) (List (Except CompileError Unit))
  | [] => pure []
  | step :: rest => do
      let outcome ← (step.assemble extra).run
      return outcome :: (← assembleEach extra rest)

/-! ## Whole programs -/

/-- A routine whose body is given by steps. -/
structure RoutineSource where
  name : String
  parameters : List Parameter
  body : List (AssemblyStep Empty)
  deriving Repr, Inhabited

/-- A routine after its last step, and the outcomes of its steps. -/
structure AssembledRoutine where
  builder : Builder
  steps : List (Except CompileError Unit)

/-- What became of a source: it could not be declared, or its steps and its definition
had outcomes. -/
inductive SourceOutcome
  | undeclared (name : String) (error : CompileError)
  | declared (name : String) (steps : List (Except CompileError Unit))
      (definition : Except CompileError Unit)

/-- A program that is being assembled.  All of its routines share their names. -/
structure ProgramAssembly where
  program : Program
  names : AssemblyState Unit

namespace ProgramAssembly

/-- A program without routines. -/
def start : ProgramAssembly :=
  ⟨.empty, ⟨[], #[], ()⟩⟩

/-- Declares a routine and takes its steps. -/
def declare (source : RoutineSource) :
    StateM ProgramAssembly (Except CompileError AssembledRoutine) := do
  let assembly ← get
  match assembly.program.declare source.name source.parameters with
  | .error error => return .error error
  | .ok builder =>
      let (steps, builder, names) :=
        (assembleEach (fun step => nomatch step) source.body).run (builder, assembly.names)
      set { assembly with names }
      return .ok ⟨builder, steps⟩

/-- Defines a routine, if it was declared. -/
def define (name : String) (routine : Except CompileError AssembledRoutine) :
    StateM ProgramAssembly SourceOutcome := do
  match routine with
  | .error error => return .undeclared name error
  | .ok routine =>
      let assembly ← get
      match assembly.program.define routine.builder with
      | .error error => return .declared name routine.steps (.error error)
      | .ok program =>
          set { assembly with program }
          return .declared name routine.steps (.ok ())

/-- Assembles routines.  Each is defined at its end, or all of them at the very
end. -/
def run (deferred : Bool) (sources : List RoutineSource) :
    StateM ProgramAssembly (List SourceOutcome) := do
  if deferred then
    let routines ← sources.mapM fun source => return (source.name, ← declare source)
    routines.mapM fun (name, routine) => define name routine
  else
    sources.mapM fun source => do define source.name (← declare source)

end ProgramAssembly

end Dataflow
