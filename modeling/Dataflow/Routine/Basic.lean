import Dataflow.Scalar.Buffer
import Dataflow.Scalar.Operation

/-!
# Routines

Compiled code is a program: an ordered collection of routines.  A routine has
array parameters, local arrays, constant arrays and scalar variables, all
numbered, and a body of structured instructions.  The parameters come first among
the arrays.
-/

namespace Dataflow

/-- The number of a scalar variable of a routine. -/
abbrev ValueId := Nat

/-- The number of an array of a routine. -/
abbrev ArrayId := Nat

/-- The types of scalar variables: the port types, and indices for loop counters
and offsets. -/
inductive ValueType
  | scalar (type : ScalarType)
  | index
  deriving DecidableEq, Repr, Inhabited

instance : Coe ScalarType ValueType := ⟨.scalar⟩

/-- A value of a scalar variable. -/
inductive Literal
  | scalar (value : Scalar)
  | index (value : Nat)
  deriving DecidableEq, Repr, Inhabited

instance : Coe Scalar Literal := ⟨.scalar⟩

/-- The type that a port type is stored as. -/
def ValueType.scalarType? : ValueType → Option ScalarType
  | scalar type => some type
  | index => none

/-- The value a variable of this type starts with. -/
def ValueType.zero : ValueType → Literal
  | scalar type => type.zero
  | index => .index 0

/-- The type of a value. -/
def Literal.type : Literal → ValueType
  | scalar value => value.type
  | index _ => .index

@[simp]
theorem Literal.type_zero (type : ValueType) : type.zero.type = type := by
  cases type <;> simp [ValueType.zero, Literal.type]

/-- An array parameter. -/
structure Parameter where
  name : String
  type : ScalarType
  length : Nat
  deriving DecidableEq, Repr, Inhabited

/-- An array of a routine. -/
inductive ArrayDeclaration
  | parameter (type : ScalarType) (length : Nat)
  | scratch (type : ScalarType) (length : Nat)
  | constant (values : Buffer)
  deriving DecidableEq, Repr, Inhabited

namespace ArrayDeclaration

def type : ArrayDeclaration → ScalarType
  | parameter type _ => type
  | scratch type _ => type
  | constant values => values.type

def length : ArrayDeclaration → Nat
  | parameter _ length => length
  | scratch _ length => length
  | constant values => values.size

/-- Whether the elements are fixed. -/
def isConstant : ArrayDeclaration → Bool
  | constant _ => true
  | _ => false

/-- What the elements are when a routine is entered. -/
def contents : ArrayDeclaration → Buffer
  | parameter type length => .zeros type length
  | scratch type length => .zeros type length
  | constant values => values

end ArrayDeclaration

/-- A position in an array: fixed, or an index variable plus an offset. -/
inductive Position
  | fixed (position : Nat)
  | indexed (value : ValueId) (offset : Nat)
  deriving DecidableEq, Repr, Inhabited

/-- What an instruction assigns to a variable. -/
inductive Expression
  | literal (value : Literal)
  | copy (source : ValueId)
  | load (array : ArrayId) (position : Position)
  | binary (op : BinaryOp) (left right : ValueId)
  | compare (predicate : Predicate) (left right : ValueId)
  deriving DecidableEq, Repr, Inhabited

/-- What a call calls: a routine of the same program or a function of the host. -/
inductive Callee
  | routine (name : String)
  | host (name : String)
  deriving DecidableEq, Repr, Inhabited

/-- An argument of a call: a variable or a window of an array. -/
inductive Argument
  | value (value : ValueId)
  | window (array : ArrayId) (offset length : Nat)
  deriving DecidableEq, Repr, Inhabited

/-- An instruction.  Loops and branches hold the instructions of their bodies. -/
inductive Instruction
  | assign (target : ValueId) (expression : Expression)
  | store (array : ArrayId) (position : Position) (value : ValueId)
  | loop (counter : ValueId) (start stop : Nat) (body : List Instruction)
  | branch (condition : ValueId) (body : List Instruction)
  | call (callee : Callee) (arguments : List Argument)
  deriving Repr, Inhabited

/-- A routine. -/
structure Routine where
  name : String
  parameters : List Parameter
  /-- The types of the scalar variables, by number. -/
  valueTypes : Array ValueType
  /-- The arrays, by number. -/
  arrays : Array ArrayDeclaration
  body : List Instruction
  deriving Repr, Inhabited

/-- The arrays that a routine has besides its parameters. -/
def Routine.locals (routine : Routine) : List ArrayDeclaration :=
  routine.arrays.toList.drop routine.parameters.length

/-- Routines in the order of their definition. -/
structure Program where
  routines : List Routine
  deriving Repr, Inhabited

/-- The routine with a name. -/
def Program.routine? (program : Program) (name : String) : Option Routine :=
  program.routines.find? (·.name = name)

/-- A program without routines. -/
def Program.empty : Program :=
  ⟨[]⟩

/-- Zeroed buffers for the parameters of a routine. -/
def Routine.zeroArguments (routine : Routine) : List Buffer :=
  routine.parameters.map fun parameter => .zeros parameter.type parameter.length

/-- Arguments for a routine, where zeroed buffers stand for those that are missing at
the end. -/
def Program.completeArguments (program : Program) (name : String) (arguments : List Buffer) :
    List Buffer :=
  match program.routine? name with
  | some routine => arguments ++ routine.zeroArguments.drop arguments.length
  | none => arguments

/-! ## Counting -/

mutual

/-- Number of instructions, those of nested bodies included. -/
def Instruction.count : Instruction → Nat
  | .loop _ _ _ body => bodyCount body + 1
  | .branch _ body => bodyCount body + 1
  | _ => 1

/-- Number of instructions in a body. -/
def bodyCount : List Instruction → Nat
  | [] => 0
  | instruction :: rest => instruction.count + bodyCount rest

end

mutual

/-- Number of loops, those in nested bodies included. -/
def Instruction.loopCount : Instruction → Nat
  | .loop _ _ _ body => bodyLoopCount body + 1
  | .branch _ body => bodyLoopCount body
  | _ => 0

/-- Number of loops in a body. -/
def bodyLoopCount : List Instruction → Nat
  | [] => 0
  | instruction :: rest => instruction.loopCount + bodyLoopCount rest

end

mutual

/-- What an instruction calls, in order, nested bodies included. -/
def Instruction.callees : Instruction → List Callee
  | .loop _ _ _ body => bodyCallees body
  | .branch _ body => bodyCallees body
  | .call callee _ => [callee]
  | _ => []

/-- What a body calls, in order. -/
def bodyCallees : List Instruction → List Callee
  | [] => []
  | instruction :: rest => instruction.callees ++ bodyCallees rest

end

end Dataflow
