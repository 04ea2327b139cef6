import Dataflow.Routine.Host

/-!
# The interpreter's machine

The state that interpreted code works on.  All arrays live on one heap; a routine
sees them through views, so a window of a caller's array can be a parameter of the
callee.  Every access is checked against the view, and the first failure ends the
run.
-/

namespace Dataflow

/-- A window of a heap slot. -/
structure View where
  slot : Nat
  offset : Nat
  length : Nat
  deriving DecidableEq, Repr, Inhabited

/-- The state of a machine.  The variables are those of the routine that runs. -/
structure Machine where
  registers : Array (Option Literal)
  heap : Array Buffer
  calls : Array HostCall
  deriving Repr

/-- A machine before a run. -/
def Machine.start (arguments : List Buffer) : Machine :=
  ⟨#[], arguments.toArray, #[]⟩

/-- An action on a machine.  What it did before a failure stays done. -/
abbrev Run := ExceptT RunError (StateM Machine)

namespace Run

/-! ## Variables -/

/-- Reads a variable. -/
def readValue (value : ValueId) : Run Literal := do
  match (← get).registers[value]? with
  | some (some literal) => pure literal
  | _ => throw (.undefinedValue value)

/-- Reads an index variable. -/
def readIndex (value : ValueId) : Run Nat := do
  match ← readValue value with
  | .index index => pure index
  | .scalar _ => throw (.typeMismatch "index")

/-- Reads a variable that holds a scalar. -/
def readScalar (value : ValueId) : Run Scalar := do
  match ← readValue value with
  | .scalar scalar => pure scalar
  | .index _ => throw (.typeMismatch "scalar conversion")

/-- Assigns a variable. -/
def writeValue (value : ValueId) (literal : Literal) : Run Unit :=
  modify fun machine =>
    { machine with registers := machine.registers.setIfInBounds value (some literal) }

/-! ## Arrays -/

/-- The view of an array. -/
def view (views : Array View) (array : ArrayId) : Run View :=
  match views[array]? with
  | some view => pure view
  | none => throw (.unknownArray array)

/-- The slot and element that a position of an array names. -/
def locate (views : Array View) (array : ArrayId) (position : Position) : Run (Nat × Nat) := do
  let view ← view views array
  let element ←
    match position with
    | .fixed position => pure position
    | .indexed value offset => (· + offset) <$> readIndex value
  if element < view.length then pure (view.slot, view.offset + element)
  else throw (.indexOutOfBounds element view.length)

/-- Reads an element of the heap. -/
def readElement (slot element : Nat) : Run Scalar := do
  let buffer := ((← get).heap[slot]?).getD (.empty .bool)
  match buffer.get? element with
  | some scalar => pure scalar
  | none => throw (.indexOutOfBounds element buffer.size)

/-- Writes an element of the heap. -/
def writeElement (slot element : Nat) (scalar : Scalar) : Run Unit := do
  if ((← get).heap[slot]?).any (·.accepts element scalar) then
    modify fun machine =>
      { machine with heap := machine.heap.modify slot (·.set element scalar) }
  else
    throw (.typeMismatch "store")

/-- The window of an array that an argument names. -/
def window (views : Array View) (array : ArrayId) (offset length : Nat) : Run View := do
  let parent ← view views array
  if offset + length ≤ parent.length then
    pure ⟨parent.slot, parent.offset + offset, length⟩
  else
    throw (.indexOutOfBounds (offset + length) parent.length)

/-- The elements of the heap that a view covers. -/
def readWindow (view : View) : Run Buffer := do
  let buffer := ((← get).heap[view.slot]?).getD (.empty .bool)
  match buffer.slice? view.offset (view.offset + view.length) with
  | some values => pure values
  | none => throw (.indexOutOfBounds (view.offset + view.length) buffer.size)

/-! ## The host -/

/-- Calls a function of the host.  A panic goes through the machine. -/
def callHost (host : Host) (name : String) (arguments : List HostValue) : Run Unit := do
  match host.function? name with
  | none => throw (.unknownHostFunction name)
  | some function =>
      modify fun machine =>
        { machine with calls := machine.calls.push ⟨function.label, arguments⟩ }
      if function.panics then throw (.uncaughtPanic name)

end Run

end Dataflow
