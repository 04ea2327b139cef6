import Dataflow.Scalar.Basic

/-!
# Kinds of standard nodes

The kind of a standard node is what its type name says: the family of its operator
and the type that it works on.  Archives store kinds by their names.
-/

namespace Dataflow

/-- A kind of standard node. -/
inductive NodeKind
  | input (type : ScalarType)
  | constant (type : ScalarType)
  | arithmetic (type : RealType)
  | comparison (type : RealType)
  | coordinatewise (type : RealType)
  | sum (type : RealType)
  | concatenation (type : ScalarType)
  | hamming (type : RealType)
  | sink (type : ScalarType)
  deriving DecidableEq, Repr, Inhabited

namespace NodeKind

/-- The name of the family. -/
def family : NodeKind → String
  | input _ => "InputNode"
  | constant _ => "ConstantNode"
  | arithmetic _ => "BinaryOperationNode"
  | comparison _ => "BinaryPredicateNode"
  | coordinatewise _ => "CoordinatewiseNode"
  | sum _ => "SumNode"
  | concatenation _ => "ConcatenationNode"
  | hamming _ => "HammingWindowNode"
  | sink _ => "SinkNode"

/-- The type that nodes of the kind work on. -/
def type : NodeKind → ScalarType
  | input type => type
  | constant type => type
  | arithmetic type => type
  | comparison type => type
  | coordinatewise type => type
  | sum type => type
  | concatenation type => type
  | hamming type => type
  | sink type => type

/-- The type name of nodes of the kind. -/
def tag (kind : NodeKind) : String :=
  kind.family ++ "<" ++ kind.type.name ++ ">"

/-- The kinds that exist for a floating point type. -/
def allOfReal (type : RealType) : List NodeKind :=
  [input type, constant type, arithmetic type, comparison type, coordinatewise type,
    sum type, concatenation type, hamming type, sink type]

/-- All kinds. -/
def all : List NodeKind :=
  allOfReal .f32 ++ allOfReal .f64 ++
    [input .bool, constant .bool, concatenation .bool, sink .bool]

theorem mem_all (kind : NodeKind) : kind ∈ all := by
  cases kind with
  | input type | constant type | concatenation type | sink type => cases type <;> decide
  | arithmetic type | comparison type | coordinatewise type | sum type | hamming type =>
      cases type <;> decide

/-- The kind with a type name. -/
def ofTag? (tag : String) : Option NodeKind :=
  all.find? (·.tag = tag)

end NodeKind

end Dataflow
