import Dataflow.Graph.Error
import Dataflow.Routine.Listing

/-!
# What can go wrong in code

Running a routine fails with a `RunError`.  Building a routine, or compiling a
graph into one, fails with a `CompileError`.
-/

namespace Dataflow

/-- Calls nest at most this deep. -/
def maxCallDepth : Nat := 256

/-- Failures of a run. -/
inductive RunError
  | unknownRoutine (name : String)
  | unknownHostFunction (name : String)
  | argumentCount (routine : String) (expected found : Nat)
  | argumentType (routine : String) (index : Nat)
  | indexOutOfBounds (index length : Nat)
  | undefinedValue (value : ValueId)
  | unknownArray (array : ArrayId)
  | typeMismatch (operation : String)
  | callDepth
  /-- A panic of a host function that was caught. -/
  | hostPanic (name : String)
  /-- A panic of a host function that went through the machine. -/
  | uncaughtPanic (name : String)
  /-- Native code that does not return. -/
  | unfinished
  deriving DecidableEq, Repr, Inhabited

/-- The text of a failed run. -/
def RunError.message : RunError → String
  | unknownRoutine name => "unknown function `" ++ name ++ "`"
  | unknownHostFunction name => "no host function named `" ++ name ++ "`"
  | argumentCount routine expected found =>
      "`" ++ routine ++ s!"` takes {expected} arguments, {found} given"
  | argumentType routine index =>
      s!"argument {index} of `" ++ routine ++ "` does not match its parameter"
  | indexOutOfBounds index length => s!"index {index} out of bounds for array of length {length}"
  | undefinedValue value => s!"value %{value} read before assignment"
  | unknownArray array => s!"array @{array} is not declared"
  | typeMismatch operation => "operand types do not match for " ++ operation
  | callDepth => s!"call depth exceeded {maxCallDepth}"
  | hostPanic name => "host function `" ++ name ++ "` panicked"
  | uncaughtPanic name => "host function `" ++ name ++ "` panicked"
  | unfinished => "code does not return"

/-- The kind of a failed run. -/
def RunError.kind : RunError → String
  | unknownRoutine _ => "UnknownFunction"
  | unknownHostFunction _ => "UnknownHostFunction"
  | argumentCount _ _ _ => "ArgumentCount"
  | argumentType _ _ => "ArgumentType"
  | indexOutOfBounds _ _ => "IndexOutOfBounds"
  | undefinedValue _ => "UndefinedValue"
  | unknownArray _ => "UnknownArray"
  | typeMismatch _ => "TypeMismatch"
  | callDepth => "CallDepth"
  | hostPanic _ => "HostPanic"
  | uncaughtPanic _ => "panic"
  | unfinished => "Unfinished"

/-- Failures of compilation. -/
inductive CompileError
  | uncompilableNode (node : NodeId) (typeName : String)
  | inlineRequired (node : NodeId) (typeName : String)
  | unboundPort (port : OutputRef)
  | typeMismatch (operation : String) (expected found : ValueType)
  | indexOutOfBounds (index length : Nat)
  | unknownValue (value : ValueId)
  | unknownArray (array : ArrayId)
  | unknownRoutine (name : String)
  | duplicateRoutine (name : String)
  | invalidOutput (reason : String)
  | model (cause : ModelError)
  | node (cause : NodeError)
  | run (cause : RunError)
  | backend (reason : String)
  /-- A routine has the name of the symbol through which native code calls the
  host. -/
  | reservedName (name : String)
  deriving DecidableEq, Repr, Inhabited

/-- The text of a failed compilation. -/
def CompileError.message : CompileError → String
  | uncompilableNode id typeName =>
      s!"node {id} of type " ++ typeName ++ " cannot be compiled; refine the model first"
  | inlineRequired id typeName =>
      s!"node {id} of type " ++ typeName ++ " can only be compiled inline"
  | unboundPort port => "port " ++ port.text ++ " has no emitted value"
  | typeMismatch operation expected found =>
      operation ++ ": expected " ++ expected.text ++ ", found " ++ found.text
  | indexOutOfBounds index length => s!"index {index} out of bounds for length {length}"
  | unknownValue value => "value " ++ valueText value ++ " is not declared"
  | unknownArray array => s!"array ArrayId({array}) is not declared"
  | unknownRoutine name => "function `" ++ name ++ "` is not defined"
  | duplicateRoutine name => "function `" ++ name ++ "` is already defined"
  | invalidOutput reason => "invalid output: " ++ reason
  | model cause => cause.message
  | node cause => cause.message
  | run cause => cause.message
  | backend reason => "backend error: " ++ reason
  | reservedName name => "backend error: symbol `" ++ name ++ "` is reserved"

/-- The kind of a failed compilation.  The kind of its cause follows a slash. -/
def CompileError.kind : CompileError → String
  | uncompilableNode _ _ => "UncompilableNode"
  | inlineRequired _ _ => "InlineRequired"
  | unboundPort _ => "UnboundPort"
  | typeMismatch _ _ _ => "TypeMismatch"
  | indexOutOfBounds _ _ => "IndexOutOfBounds"
  | unknownValue _ => "UnknownValue"
  | unknownArray _ => "UnknownArray"
  | unknownRoutine _ => "UnknownFunction"
  | duplicateRoutine _ => "DuplicateFunction"
  | invalidOutput _ => "InvalidOutput"
  | model cause => "Model/" ++ cause.kind
  | node cause => "Node/" ++ cause.kind
  | run cause => "Runtime/" ++ cause.kind
  | backend _ => "Backend"
  | reservedName _ => "Backend"

end Dataflow
