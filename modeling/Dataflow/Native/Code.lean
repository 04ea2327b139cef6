import Dataflow.Native.Execution

/-!
# Native programs

A program becomes native code as a whole, for one entry routine.  What native code
has no form for is refused: calls of routines that do not exist, scalars passed to
routines, and indices passed to the host or compared.  So is a routine with the name
of the symbol through which native code calls the host.
-/

namespace Dataflow

/-- The name of an entry routine with its parameters, those that are filled by the
caller before those that are read back. -/
structure EntryPoint where
  routine : String
  inputs : List Parameter
  outputs : List Parameter
  deriving DecidableEq, Repr, Inhabited

/-- All parameters of an entry. -/
def EntryPoint.parameters (entry : EntryPoint) : List Parameter :=
  entry.inputs ++ entry.outputs

/-- The entry point of a routine whose first parameters are inputs. -/
def Program.entryPoint (program : Program) (name : String) (inputs : Nat) : EntryPoint :=
  let parameters := ((program.routine? name).map Routine.parameters).getD []
  ⟨name, parameters.take inputs, parameters.drop inputs⟩

/-- A program as native code. -/
structure NativeProgram where
  program : Program
  entry : EntryPoint
  /-- The functions of the host that it can call, in order of appearance. -/
  externals : List String
  deriving Repr

/-! ## Native forms -/

/-- Requires the arguments of a call of a routine to be windows. -/
def checkRoutineArguments (callee : String) : Nat → List Argument → Except CompileError Unit
  | _, [] => .ok ()
  | index, .value _ :: _ =>
      .error (.backend (s!"scalar argument {index} passed to " ++ "`" ++ callee ++ "`"))
  | index, .window _ _ _ :: rest => checkRoutineArguments callee (index + 1) rest

/-- Requires an argument for the host to be a scalar or a window. -/
def checkHostArgument (routine : Routine) : Argument → Except CompileError Unit
  | .value source =>
      match routine.valueTypes[source]? with
      | some (.scalar _) => .ok ()
      | _ => .error (.unknownValue source)
  | .window _ _ _ => .ok ()

/-- Requires a comparison to compare scalars. -/
def checkExpression (routine : Routine) : Expression → Except CompileError Unit
  | .compare _ left _ =>
      match routine.valueTypes[left]? with
      | some .index => .error (.typeMismatch "compare" ScalarType.f64 .index)
      | some (.scalar _) => .ok ()
      | none => .error (.unknownValue left)
  | _ => .ok ()

mutual

/-- Requires an instruction of a routine to have a native form. -/
def Instruction.checkNative (program : Program) (routine : Routine) :
    Instruction → Except CompileError Unit
  | .assign _ expression => checkExpression routine expression
  | .store _ _ _ => .ok ()
  | .loop _ _ _ body => checkNativeBody program routine body
  | .branch _ body => checkNativeBody program routine body
  | .call (.routine name) arguments =>
      if (program.routine? name).isSome then checkRoutineArguments name 0 arguments
      else .error (.unknownRoutine name)
  | .call (.host _) arguments => arguments.forM (checkHostArgument routine)

/-- Requires the instructions of a body to have native forms. -/
def checkNativeBody (program : Program) (routine : Routine) :
    List Instruction → Except CompileError Unit
  | [] => .ok ()
  | instruction :: rest => do
      instruction.checkNative program routine
      checkNativeBody program routine rest

end

/-- The functions of the host that a program can call, each where it comes first. -/
def Program.externals (program : Program) : List String :=
  let callees := program.routines.flatMap fun routine => bodyCallees routine.body
  callees.foldl
    (fun names callee =>
      match callee with
      | .host name => if name ∈ names then names else names ++ [name]
      | .routine _ => names)
    []

/-- A program as native code for an entry routine.  Native code calls the host through
the symbol `hostSymbol`.  Names are looked at before any body. -/
def Program.toNative (program : Program) (hostSymbol : String) (entry : EntryPoint) :
    Except CompileError NativeProgram := do
  if (program.routine? hostSymbol).isSome then
    throw (.reservedName hostSymbol)
  if (program.routine? entry.routine).isNone then
    throw (.unknownRoutine entry.routine)
  program.routines.forM fun routine => checkNativeBody program routine routine.body
  pure ⟨program, entry, program.externals⟩

/-! ## Running -/

/-- Whether a buffer fits a parameter. -/
def Parameter.fits (parameter : Parameter) (buffer : Buffer) : Bool :=
  buffer.size = parameter.length && buffer.type = parameter.type

/-- Runs native code.  The inputs are checked first, the outputs start at
zero, and the result has the buffers of the outputs. -/
def NativeProgram.compute (native : NativeProgram) (inputs : List Buffer) (host : Host) :
    RunOutcome :=
  let entry := native.entry
  if inputs.length ≠ entry.inputs.length then
    ⟨.error (.argumentCount entry.routine entry.inputs.length inputs.length), []⟩
  else
    match (entry.inputs.zip inputs).findIdx? fun (parameter, buffer) => !parameter.fits buffer with
    | some index => ⟨.error (.argumentType entry.routine index), []⟩
    | none =>
        let outputs := entry.outputs.map fun parameter =>
          Buffer.zeros parameter.type parameter.length
        let outcome := Native.run native.program host entry.routine (inputs ++ outputs)
        { outcome with result := outcome.result.map (·.drop inputs.length) }

end Dataflow
