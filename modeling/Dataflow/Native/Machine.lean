import Dataflow.Native.Memory
import Dataflow.Routine.Host

/-!
# The native machine

The state that native code works on.  Native code checks nothing: every variable has
a value of its type, every access goes ahead, and a failed call of the host is
remembered while the code runs on.  The one thing that can go wrong is that the code
does not return.
-/

namespace Dataflow.Native

/-- The state of the machine.  `failure` is the first failed call of the host. -/
structure Machine where
  registers : Array Word
  memory : Memory
  calls : Array HostCall
  failure : Option RunError
  deriving Repr

/-- The machine before a run. -/
def Machine.start (arguments : List Buffer) : Machine :=
  ⟨#[], (arguments.map Region.ofBuffer).toArray, #[], none⟩

/-- What native code does to the machine, undefined where it does not return. -/
abbrev Effect := OptionT (StateM Machine)

namespace Effect

/-! ## Variables -/

/-- Reads a variable. -/
def readValue (value : ValueId) : Effect Word := do
  return ((← get).registers[value]?).getD (.index 0)

/-- Reads an index variable. -/
def readIndex (value : ValueId) : Effect UInt64 := do
  match ← readValue value with
  | .index index => pure index
  | _ => pure 0

/-- Assigns a variable. -/
def writeValue (value : ValueId) (word : Word) : Effect Unit :=
  modify fun machine =>
    { machine with registers := machine.registers.setIfInBounds value word }

/-! ## Memory -/

/-- Reads a scalar from memory. -/
def load (type : ScalarType) (pointer : Option Pointer) : Effect Word := do
  return (← get).memory.load type pointer

/-- Writes a word to memory. -/
def store (pointer : Option Pointer) (word : Word) : Effect Unit :=
  modify fun machine => { machine with memory := machine.memory.store pointer word }

/-! ## The host -/

/-- Remembers a failed call of the host. -/
def failHost (error : RunError) : Effect Unit :=
  modify fun machine => { machine with failure := some error }

/-- Calls a function of the host.  After a failed call all others are skipped, and the
arguments of a call that is skipped or fails to find its function are not read. -/
def callHost (host : Host) (name : String) (arguments : Effect (List HostValue)) :
    Effect Unit := do
  if (← get).failure.isNone then
    match host.function? name with
    | none => failHost (.unknownHostFunction name)
    | some function =>
        let values ← arguments
        modify fun machine =>
          { machine with calls := machine.calls.push ⟨function.label, values⟩ }
        if function.panics then failHost (.hostPanic name)

end Effect

end Dataflow.Native
