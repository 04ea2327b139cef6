import Dataflow.Routine.Machine

/-!
# Interpreting instructions

The meaning of instructions, given the meaning of calls, follows their structure.
Calls are then unfolded up to the depth limit.
-/

namespace Dataflow

/-- What an instruction refers to besides the machine: the arrays of its routine,
the host, and the meaning of calling a routine. -/
structure Activation where
  host : Host
  views : Array View
  call : String → List View → Run Unit

namespace Activation

open Run

/-- The value of an expression. -/
def evaluate (activation : Activation) : Expression → Run Literal
  | .literal value => pure value
  | .copy source => readValue source
  | .load array position => do
      let (slot, element) ← locate activation.views array position
      return .scalar (← readElement slot element)
  | .binary op left right => do
      let leftValue ← readValue left
      let rightValue ← readValue right
      match leftValue, rightValue with
      | .scalar leftValue, .scalar rightValue =>
          match op.onScalars? leftValue rightValue with
          | some value => pure (.scalar value)
          | none => throw (.typeMismatch op.name)
      | _, _ => throw (.typeMismatch op.name)
  | .compare predicate left right => do
      let leftValue ← readValue left
      let rightValue ← readValue right
      match leftValue, rightValue with
      | .scalar leftValue, .scalar rightValue =>
          match predicate.onScalars? leftValue rightValue with
          | some value => pure (.scalar (.bool value))
          | none => throw (.typeMismatch predicate.name)
      | _, _ => throw (.typeMismatch predicate.name)

/-- The windows that are passed to a routine.  Routines take no scalars. -/
def windows (activation : Activation) (callee : String) :
    Nat → List Argument → Run (List View)
  | _, [] => pure []
  | index, .value _ :: _ => throw (.argumentType callee index)
  | index, .window array offset length :: rest => do
      let view ← window activation.views array offset length
      return view :: (← activation.windows callee (index + 1) rest)

/-- An argument for the host. -/
def hostValue (activation : Activation) : Argument → Run HostValue
  | .value source => .scalar <$> readScalar source
  | .window array offset length => do
      .array <$> readWindow (← window activation.views array offset length)

/-- Runs `body` for each of `count` values from `first` on. -/
def forRange (body : Nat → Run Unit) : (first count : Nat) → Run Unit
  | _, 0 => pure ()
  | first, count + 1 => do
      body first
      forRange body (first + 1) count

mutual

/-- Runs an instruction.  A loop goes through its range, whatever its body assigns
to the counter. -/
def execute (activation : Activation) : Instruction → Run Unit
  | .assign target expression => do
      writeValue target (← activation.evaluate expression)
  | .store array position value => do
      let (slot, element) ← locate activation.views array position
      writeElement slot element (← readScalar value)
  | .loop counter start stop body =>
      forRange
        (fun index => do
          writeValue counter (.index index)
          activation.executeBody body)
        start (stop - start)
  | .branch condition body => do
      match ← readValue condition with
      | .scalar (.bool true) => activation.executeBody body
      | .scalar (.bool false) => pure ()
      | _ => throw (.typeMismatch "branch")
  | .call (.routine name) arguments => do
      activation.call name (← activation.windows name 0 arguments)
  | .call (.host name) arguments => do
      callHost activation.host name (← arguments.mapM activation.hostValue)

/-- Runs the instructions of a body in order. -/
def executeBody (activation : Activation) : List Instruction → Run Unit
  | [] => pure ()
  | instruction :: rest => do
      activation.execute instruction
      activation.executeBody rest

end

end Activation

/-! ## Calls -/

/-- Requires the arguments of a call to fit the parameters. -/
def checkArguments (routine : Routine) (arguments : List View) : Run Unit := do
  if routine.parameters.length ≠ arguments.length then
    throw (.argumentCount routine.name routine.parameters.length arguments.length)
  let heap := (← get).heap
  let fits : Parameter × View → Bool := fun (parameter, view) =>
    parameter.length = view.length &&
      (heap[view.slot]?).map Buffer.type = some parameter.type
  match (routine.parameters.zip arguments).findIdx? (!fits ·) with
  | some index => throw (.argumentType routine.name index)
  | none => pure ()

/-- Views of arrays that lie one after another on the heap. -/
def viewsFrom (slot : Nat) (declarations : List ArrayDeclaration) : List View :=
  declarations.mapIdx fun index declaration => ⟨slot + index, 0, declaration.length⟩

/-- Calls a routine with windows of the heap as its parameters, with at most `depth`
calls open at once.  No variable has a value before the first instruction.  The
arrays and variables of the routine are gone afterwards, also after a failure. -/
def Program.call (program : Program) (host : Host) :
    (depth : Nat) → String → List View → Run Unit
  | 0, _, _ => throw .callDepth
  | depth + 1, name, arguments => do
      match program.routine? name with
      | none => throw (.unknownRoutine name)
      | some routine =>
          checkArguments routine arguments
          let base := (← get).heap.size
          let registers := (← get).registers
          let leave : Run Unit :=
            modify fun machine => { machine with registers, heap := machine.heap.shrink base }
          modify fun machine =>
            { machine with
              registers := Array.replicate routine.valueTypes.size none
              heap := machine.heap ++ (routine.locals.map ArrayDeclaration.contents).toArray }
          let activation : Activation :=
            { host
              views := (arguments ++ viewsFrom base routine.locals).toArray
              call := program.call host depth }
          try
            activation.executeBody routine.body
          catch error =>
            leave
            throw error
          leave

/-- Runs a routine on buffers.  The result has the buffers of all arguments as the
routine left them. -/
def Program.run (program : Program) (host : Host) (name : String) (arguments : List Buffer) :
    RunOutcome :=
  let views := arguments.mapIdx fun slot buffer => (⟨slot, 0, buffer.size⟩ : View)
  let (result, machine) :=
    (program.call host (maxCallDepth + 1) name views).run (.start arguments)
  ⟨result.map fun _ => machine.heap.toList.take arguments.length, machine.calls.toList⟩

end Dataflow
