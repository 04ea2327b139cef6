import Dataflow.Scalar.Buffer

/-!
# Operations on scalars

The binary operations and comparisons that nodes compute and compiled code
executes.  Both sides use the definitions of this module, so they agree on
every value by construction; on scalars of different types an operation is
undefined.
-/

namespace Dataflow

/-- The four elementwise arithmetic operations. -/
inductive BinaryOp
  | add
  | subtract
  | multiply
  | divide
  deriving DecidableEq, Repr, Inhabited

/-- The six elementwise comparisons. -/
inductive Predicate
  | equal
  | notEqual
  | less
  | lessOrEqual
  | greater
  | greaterOrEqual
  deriving DecidableEq, Repr, Inhabited

/-- How a stored value is combined with the element it belongs to. -/
inductive CoordinateOp
  | scale
  | shift
  deriving DecidableEq, Repr, Inhabited

namespace BinaryOp

def name : BinaryOp → String
  | add => "add"
  | subtract => "subtract"
  | multiply => "multiply"
  | divide => "divide"

def ofName? : String → Option BinaryOp
  | "add" => some add
  | "subtract" => some subtract
  | "multiply" => some multiply
  | "divide" => some divide
  | _ => none

@[simp]
theorem ofName?_name (op : BinaryOp) : ofName? op.name = some op := by
  cases op <;> rfl

/-- The operation on any type with arithmetic. -/
def apply {α : Type} [Add α] [Sub α] [Mul α] [Div α] (op : BinaryOp) (left right : α) : α :=
  match op with
  | add => left + right
  | subtract => left - right
  | multiply => left * right
  | divide => left / right

/-- The operation on scalars, defined on two floats of one precision. -/
def onScalars? (op : BinaryOp) : Scalar → Scalar → Option Scalar
  | .f32 left, .f32 right => some (.f32 (op.apply left right))
  | .f64 left, .f64 right => some (.f64 (op.apply left right))
  | _, _ => none

/-- The operation on the elements of two buffers, as far as the shorter one goes;
defined on floats of one precision. -/
def onBuffers? (op : BinaryOp) : Buffer → Buffer → Option Buffer
  | .f32 left, .f32 right => some (.f32 (Array.zipWith op.apply left right))
  | .f64 left, .f64 right => some (.f64 (Array.zipWith op.apply left right))
  | _, _ => none

theorem onScalars?_toScalar (op : BinaryOp) (type : RealType) (left right : type.Carrier) :
    op.onScalars? (type.toScalar left) (type.toScalar right) =
      some (type.toScalar (op.apply left right)) := by
  cases type <;> rfl

end BinaryOp

namespace Predicate

def name : Predicate → String
  | equal => "equal"
  | notEqual => "not_equal"
  | less => "less"
  | lessOrEqual => "less_or_equal"
  | greater => "greater"
  | greaterOrEqual => "greater_or_equal"

def ofName? : String → Option Predicate
  | "equal" => some equal
  | "not_equal" => some notEqual
  | "less" => some less
  | "less_or_equal" => some lessOrEqual
  | "greater" => some greater
  | "greater_or_equal" => some greaterOrEqual
  | _ => none

@[simp]
theorem ofName?_name (predicate : Predicate) : ofName? predicate.name = some predicate := by
  cases predicate <;> rfl

/-- The comparison on any type with a test for equality and an order.  Each
predicate is its own test: on floats `notEqual` is the negation of `equal`, but
`greaterOrEqual` is not the negation of `less`. -/
def apply {α : Type} [BEq α] [LT α] [LE α] [DecidableLT α] [DecidableLE α]
    (predicate : Predicate) (left right : α) : Bool :=
  match predicate with
  | equal => left == right
  | notEqual => left != right
  | less => left < right
  | lessOrEqual => left ≤ right
  | greater => right < left
  | greaterOrEqual => right ≤ left

/-- The comparison on scalars, defined on two scalars of one type.  Of the
booleans, `false` is the smaller. -/
def onScalars? (predicate : Predicate) : Scalar → Scalar → Option Bool
  | .f32 left, .f32 right => some (predicate.apply left right)
  | .f64 left, .f64 right => some (predicate.apply left right)
  | .bool left, .bool right => some (predicate.apply left right)
  | _, _ => none

/-- The comparison on the elements of two buffers of one type, as far as the shorter
one goes. -/
def onBuffers? (predicate : Predicate) : Buffer → Buffer → Option (Array Bool)
  | .f32 left, .f32 right => some (Array.zipWith predicate.apply left right)
  | .f64 left, .f64 right => some (Array.zipWith predicate.apply left right)
  | .bool left, .bool right => some (Array.zipWith predicate.apply left right)
  | _, _ => none

theorem onScalars?_toScalar (predicate : Predicate) (type : RealType)
    (left right : type.Carrier) :
    predicate.onScalars? (type.toScalar left) (type.toScalar right) =
      some (predicate.apply left right) := by
  cases type <;> rfl

end Predicate

namespace CoordinateOp

def name : CoordinateOp → String
  | scale => "scale"
  | shift => "shift"

def ofName? : String → Option CoordinateOp
  | "scale" => some scale
  | "shift" => some shift
  | _ => none

@[simp]
theorem ofName?_name (op : CoordinateOp) : ofName? op.name = some op := by
  cases op <;> rfl

/-- The arithmetic behind a coordinate operation; the stored value is its left
operand. -/
def binaryOp : CoordinateOp → BinaryOp
  | scale => .multiply
  | shift => .add

end CoordinateOp

end Dataflow
