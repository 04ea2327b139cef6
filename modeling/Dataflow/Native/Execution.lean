import Dataflow.Native.Machine

/-!
# Running native code

The meaning of instructions as native code, given the meaning of calls, follows their
structure.  An array is a pointer and the type its elements are taken for; neither
the length nor the type of what a caller passes is compared with the parameter.
Calls are unfolded up to a depth that no machine has room for.
-/

namespace Dataflow.Native

/-- An array as native code sees it.  The pointer is missing for a parameter that the
caller did not pass. -/
structure ArrayBase where
  pointer : Option Pointer
  type : ScalarType
  deriving DecidableEq, Repr, Inhabited

/-- The pointer some elements further on. -/
def ArrayBase.element (array : ArrayBase) (index : UInt64) : Option Pointer :=
  array.pointer.map (·.advance (index * UInt64.ofNat array.type.byteSize))

/-- What an instruction refers to besides the machine: the arrays of its routine,
the host, and the meaning of calling a routine. -/
structure Frame where
  host : Host
  arrays : Array ArrayBase
  call : String → List (Option Pointer) → Effect Unit

namespace Frame

open Effect

/-- An array of the routine. -/
def array (frame : Frame) (array : ArrayId) : ArrayBase :=
  (frame.arrays[array]?).getD ⟨none, .bool⟩

/-- The pointer to a position of an array. -/
def locate (frame : Frame) (array : ArrayId) (position : Position) :
    Effect (Option Pointer) := do
  let base := frame.array array
  let distance (elements : Nat) := displacement (elements * base.type.byteSize)
  match position with
  | .fixed position => return base.pointer.map (·.advance (distance position))
  | .indexed value offset =>
      return (base.element (← readIndex value)).map (·.advance (distance offset))

/-- The value of an expression. -/
def evaluate (frame : Frame) : Expression → Effect Word
  | .literal value => pure (.ofLiteral value)
  | .copy source => readValue source
  | .load array position => do
      load (frame.array array).type (← frame.locate array position)
  | .binary op left right => return (← readValue left).binary op (← readValue right)
  | .compare predicate left right =>
      return (← readValue left).compare predicate (← readValue right)

/-- The pointer to the start of a window. -/
def window (frame : Frame) (array : ArrayId) (offset : Nat) : Option Pointer :=
  (frame.array array).element (UInt64.ofNat offset)

/-- The pointers that are passed to a routine.  Scalars have none. -/
def pointers (frame : Frame) (arguments : List Argument) : List (Option Pointer) :=
  arguments.map fun
    | .value _ => none
    | .window array offset _ => frame.window array offset

/-- An argument for the host. -/
def hostValue (frame : Frame) : Argument → Effect HostValue
  | .value source => return .scalar ((← readValue source).toScalar?.getD (.bool false))
  | .window array offset length => do
      let memory := (← get).memory
      return .array (memory.loadMany (frame.array array).type (frame.window array offset) length)

/-- Runs `body` as long as a counter variable is below `stop` as a signed number, and
adds one to the variable after each time. -/
def whileBelow (counter : ValueId) (stop : Nat) (body : Effect Unit) : (limit : Nat) → Effect Unit
  | 0 => failure
  | limit + 1 => do
      if (← readIndex counter).toInt64 < (UInt64.ofNat stop).toInt64 then
        body
        writeValue counter (.index ((← readIndex counter) + 1))
        whileBelow counter stop body limit

/-- A loop that runs this often, or calls that nest this deep, are taken not to end. -/
def limit : Nat := Nat.pow 2 62

mutual

/-- Runs an instruction.  A loop tests and increments its counter variable, which the
body may have changed. -/
def execute (frame : Frame) : Instruction → Effect Unit
  | .assign target expression => do
      writeValue target (← frame.evaluate expression)
  | .store array position value => do
      let word ← readValue value
      store (← frame.locate array position) word
  | .loop counter start stop body => do
      writeValue counter (.index (UInt64.ofNat start))
      whileBelow counter stop (frame.executeBody body) limit
  | .branch condition body => do
      if (← readValue condition).isTrue then
        frame.executeBody body
  | .call (.routine name) arguments =>
      frame.call name (frame.pointers arguments)
  | .call (.host name) arguments =>
      callHost frame.host name (arguments.mapM frame.hostValue)

/-- Runs the instructions of a body in order. -/
def executeBody (frame : Frame) : List Instruction → Effect Unit
  | [] => pure ()
  | instruction :: rest => do
      frame.execute instruction
      frame.executeBody rest

end

end Frame

/-! ## Calls -/

/-- The parameters of a routine with the pointers that a caller passes.  Pointers
beyond the last parameter go unused. -/
def parameterBases (routine : Routine) (arguments : List (Option Pointer)) : List ArrayBase :=
  routine.parameters.mapIdx fun index parameter =>
    ⟨(arguments[index]?).join, parameter.type⟩

/-- The other arrays of a routine, one after another in memory. -/
def localBases (slot : Nat) (routine : Routine) : List ArrayBase :=
  routine.locals.mapIdx fun index declaration => ⟨some ⟨slot + index, 0⟩, declaration.type⟩

/-- Calls a routine with pointers for its parameters, with at most `depth` calls open
at once.  Variables and local arrays start at zero and are gone afterwards.  A routine
that is missing does nothing. -/
def call (program : Program) (host : Host) :
    (depth : Nat) → String → List (Option Pointer) → Effect Unit
  | 0, _, _ => failure
  | depth + 1, name, arguments => do
      match program.routine? name with
      | none => pure ()
      | some routine =>
          let base := (← get).memory.size
          let registers := (← get).registers
          modify fun machine =>
            { machine with
              registers := routine.valueTypes.map fun type => .ofLiteral type.zero
              memory := machine.memory ++ (routine.locals.map (.ofBuffer ·.contents)).toArray }
          let frame : Frame :=
            { host
              arrays := (parameterBases routine arguments ++ localBases base routine).toArray
              call := call program host depth }
          frame.executeBody routine.body
          modify fun machine => { machine with registers, memory := machine.memory.shrink base }

/-- Runs a routine on buffers.  The result has the buffers of all arguments as the
routine left them. -/
def run (program : Program) (host : Host) (name : String) (arguments : List Buffer) :
    RunOutcome :=
  let pointers := arguments.mapIdx fun slot _ => some (⟨slot, 0⟩ : Pointer)
  let (finished, machine) := (call program host Frame.limit name pointers).run (.start arguments)
  let result :=
    match finished, machine.failure with
    | none, _ => .error .unfinished
    | some (), some error => .error error
    | some (), none => .ok (machine.memory.buffers.take arguments.length)
  ⟨result, machine.calls.toList⟩

end Dataflow.Native
