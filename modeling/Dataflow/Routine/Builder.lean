import Dataflow.Routine.Error

/-!
# Building routines

A builder collects the instructions of one routine and checks each of them as it
is added: handles have to be declared, types have to agree, and fixed positions
have to lie inside their window.

An emitter action works on a builder next to a state of its own.  A failing
action returns its error together with the builder as it is then; a loop or
branch whose body fails adds nothing to the code around it.
-/

namespace Dataflow

/-- A window into an array of the routine being built. -/
structure ArrayRef where
  array : ArrayId
  type : ScalarType
  offset : Nat
  length : Nat
  deriving DecidableEq, Repr, Inhabited

/-- The part of a window from `start` on, when it fits. -/
def ArrayRef.slice? (window : ArrayRef) (start length : Nat) : Option ArrayRef :=
  if start + length ≤ window.length then
    some { window with offset := window.offset + start, length }
  else
    none

/-- A position relative to a window. -/
inductive Index
  | fixed (position : Nat)
  | value (value : ValueId)
  deriving DecidableEq, Repr, Inhabited

/-- What is passed to a call. -/
inductive Operand
  | value (value : ValueId)
  | array (window : ArrayRef)
  deriving DecidableEq, Repr, Inhabited

/-- A routine under construction.  `block` is the innermost open block; the blocks
around it follow from the inside out. -/
structure Builder where
  name : String
  parameters : List Parameter
  valueTypes : Array ValueType
  arrays : Array ArrayDeclaration
  block : Array Instruction
  enclosing : List (Array Instruction)
  deriving Repr, Inhabited

namespace Builder

/-- A routine with parameters and an empty body. -/
def start (name : String) (parameters : List Parameter) : Builder :=
  { name
    parameters
    valueTypes := #[]
    arrays := (parameters.map fun parameter =>
      ArrayDeclaration.parameter parameter.type parameter.length).toArray
    block := #[]
    enclosing := [] }

/-- The window of a whole parameter. -/
def parameter? (builder : Builder) (index : Nat) : Option ArrayRef :=
  builder.parameters[index]?.map fun parameter => ⟨index, parameter.type, 0, parameter.length⟩

/-- Adds an instruction to the innermost block. -/
def push (builder : Builder) (instruction : Instruction) : Builder :=
  { builder with block := builder.block.push instruction }

/-- Opens a block inside the innermost one. -/
def openBlock (builder : Builder) : Builder :=
  { builder with block := #[], enclosing := builder.block :: builder.enclosing }

/-- Closes the innermost block. -/
def closeBlock (builder : Builder) : Builder :=
  match builder.enclosing with
  | [] => { builder with block := #[] }
  | block :: enclosing => { builder with block, enclosing }

/-- The finished routine.  Its body is the outermost block. -/
def finish (builder : Builder) : Routine :=
  { name := builder.name
    parameters := builder.parameters
    valueTypes := builder.valueTypes
    arrays := builder.arrays
    body := (builder.enclosing.getLastD builder.block).toList }

/-! ## Checks -/

/-- The type of a variable. -/
def valueType (builder : Builder) (value : ValueId) : Except CompileError ValueType :=
  match builder.valueTypes[value]? with
  | some type => .ok type
  | none => .error (.unknownValue value)

/-- Requires a variable to have a type. -/
def expectType (builder : Builder) (operation : String) (value : ValueId)
    (expected : ValueType) : Except CompileError Unit := do
  let found ← builder.valueType value
  if found = expected then pure () else throw (.typeMismatch operation expected found)

/-- Requires a window to lie inside an array of its type. -/
def checkArray (builder : Builder) (window : ArrayRef) : Except CompileError Unit :=
  match builder.arrays[window.array]? with
  | none => .error (.unknownArray window.array)
  | some declaration =>
      if declaration.length < window.offset + window.length then
        .error (.indexOutOfBounds (window.offset + window.length) declaration.length)
      else if declaration.type ≠ window.type then
        .error (.typeMismatch "array access" window.type declaration.type)
      else
        .ok ()

/-- The position in the array of a position in a window. -/
def position (builder : Builder) (window : ArrayRef) : Index → Except CompileError Position
  | .fixed index =>
      if index < window.length then .ok (.fixed (window.offset + index))
      else .error (.indexOutOfBounds index window.length)
  | .value value => do
      builder.expectType "index" value .index
      pure (.indexed value window.offset)

/-- Whether a window belongs to an array with fixed elements. -/
def isConstant (builder : Builder) (window : ArrayRef) : Bool :=
  (builder.arrays[window.array]?).any ArrayDeclaration.isConstant

/-- The argument of a call. -/
def argument (builder : Builder) : Operand → Except CompileError Argument
  | .value value => do
      let _ ← builder.valueType value
      pure (.value value)
  | .array window => do
      builder.checkArray window
      pure (.window window.array window.offset window.length)

end Builder

/-! ## Emitter actions -/

/-- An action on a builder and on a state of its own. -/
abbrev Emit (σ : Type) := ExceptT CompileError (StateM (Builder × σ))

namespace Emit

variable {σ : Type}

/-- The builder. -/
def builder : Emit σ Builder :=
  return (← get).1

/-- Changes the builder. -/
def modifyBuilder (change : Builder → Builder) : Emit σ Unit :=
  modify fun (builder, own) => (change builder, own)

/-- The state of the action's own. -/
def own : Emit σ σ :=
  return (← get).2

/-- Changes the state of the action's own. -/
def modifyOwn (change : σ → σ) : Emit σ Unit :=
  modify fun (builder, own) => (builder, change own)

/-- Passes on the outcome of a check. -/
def check {α : Type} (outcome : Except CompileError α) : Emit σ α :=
  match outcome with
  | .ok value => pure value
  | .error error => throw error

/-- Runs an action whose own state is a part of the state at hand. -/
def within {τ α : Type} (part : τ → σ) (update : τ → σ → τ) (action : Emit σ α) : Emit τ α := do
  let (builder, own) ← get
  let (result, builder, inner) := action.run.run (builder, part own)
  set (builder, update own inner)
  check result

/-- Runs an action on another routine and returns that routine. -/
def inRoutine (routine : Builder) (action : Emit σ Unit) : Emit σ Builder := do
  let (builder, own) ← get
  let (result, routine, own) := action.run.run (routine, own)
  set (builder, own)
  check result
  pure routine

/-- Adds an instruction. -/
def push (instruction : Instruction) : Emit σ Unit :=
  modifyBuilder (·.push instruction)

/-- Declares a variable. -/
def newValue (type : ValueType) : Emit σ ValueId := do
  let value := (← builder).valueTypes.size
  modifyBuilder fun builder => { builder with valueTypes := builder.valueTypes.push type }
  pure value

/-- Declares an array. -/
def newArray (declaration : ArrayDeclaration) : Emit σ ArrayRef := do
  let array := (← builder).arrays.size
  modifyBuilder fun builder => { builder with arrays := builder.arrays.push declaration }
  pure ⟨array, declaration.type, 0, declaration.length⟩

/-- Declares a variable and assigns an expression to it. -/
def define (type : ValueType) (expression : Expression) : Emit σ ValueId := do
  let target ← newValue type
  push (.assign target expression)
  pure target

/-- Declares a variable with a value, which may be assigned again later. -/
def literal (value : Literal) : Emit σ ValueId :=
  define value.type (.literal value)

/-- Copies a variable into another one of the same type. -/
def assign (target source : ValueId) : Emit σ Unit := do
  let builder ← builder
  let expected ← check (builder.valueType target)
  check (builder.expectType "assign" source expected)
  push (.assign target (.copy source))

/-- Declares a zeroed array. -/
def declareArray (type : ScalarType) (length : Nat) : Emit σ ArrayRef :=
  newArray (.scratch type length)

/-- Declares an array with fixed elements. -/
def declareConstant (values : Buffer) : Emit σ ArrayRef :=
  newArray (.constant values)

/-- Reads an element of a window. -/
def load (window : ArrayRef) (index : Index) : Emit σ ValueId := do
  let builder ← builder
  check (builder.checkArray window)
  let position ← check (builder.position window index)
  define window.type (.load window.array position)

/-- Writes an element of a window. -/
def store (window : ArrayRef) (index : Index) (value : ValueId) : Emit σ Unit := do
  let builder ← builder
  check (builder.checkArray window)
  if builder.isConstant window then
    throw (.invalidOutput s!"store into constant array @{window.array}")
  check (builder.expectType "store" value window.type)
  let position ← check (builder.position window index)
  push (.store window.array position value)

/-- Computes with two floats of one precision. -/
def binary (op : BinaryOp) (left right : ValueId) : Emit σ ValueId := do
  let builder ← builder
  let type ← check (builder.valueType left)
  if type ≠ ValueType.scalar .f32 ∧ type ≠ ValueType.scalar .f64 then
    throw (.typeMismatch op.name ScalarType.f64 type)
  check (builder.expectType op.name right type)
  define type (.binary op left right)

/-- Compares two scalars of one type. -/
def compare (predicate : Predicate) (left right : ValueId) : Emit σ ValueId := do
  let builder ← builder
  let type ← check (builder.valueType left)
  if type = .index then
    throw (.typeMismatch predicate.name ScalarType.f64 type)
  check (builder.expectType predicate.name right type)
  define ScalarType.bool (.compare predicate left right)

/-- Runs an action in a block of its own and returns the instructions that it
added there.  The block is closed also when the action fails. -/
def inBlock (body : Emit σ Unit) : Emit σ (List Instruction) := do
  modifyBuilder Builder.openBlock
  try
    body
  catch error =>
    modifyBuilder Builder.closeBlock
    throw error
  let builder ← builder
  modifyBuilder Builder.closeBlock
  pure builder.block.toList

/-- A loop whose counter runs from `start` up to, but not including, `stop`. -/
def loop (start stop : Nat) (body : ValueId → Emit σ Unit) : Emit σ Unit := do
  let counter ← newValue .index
  let instructions ← inBlock (body counter)
  push (.loop counter start stop instructions)

/-- Instructions that run when a boolean is true. -/
def branch (condition : ValueId) (body : Emit σ Unit) : Emit σ Unit := do
  let builder ← builder
  check (builder.expectType "branch" condition ScalarType.bool)
  let instructions ← inBlock body
  push (.branch condition instructions)

/-- Calls a routine or a function of the host. -/
def call (callee : Callee) (operands : List Operand) : Emit σ Unit := do
  let builder ← builder
  let arguments ← check (operands.mapM builder.argument)
  push (.call callee arguments)

end Emit

/-! ## Programs -/

/-- Starts a routine, whose name has to be free. -/
def Program.declare (program : Program) (name : String) (parameters : List Parameter) :
    Except CompileError Builder :=
  if (program.routine? name).isSome then .error (.duplicateRoutine name)
  else .ok (.start name parameters)

/-- Adds a finished routine, whose name has to be free. -/
def Program.define (program : Program) (builder : Builder) : Except CompileError Program :=
  if (program.routine? builder.name).isSome then .error (.duplicateRoutine builder.name)
  else .ok ⟨program.routines ++ [builder.finish]⟩

end Dataflow
