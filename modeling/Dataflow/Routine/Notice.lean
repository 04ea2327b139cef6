import Dataflow.Lowering.Options
import Dataflow.Routine.Builder

/-!
# Notices

What nodes report while they are computed, refined or compiled.  A sink reports
the values that it hands to its callback; custom nodes report what they look at.
-/

namespace Dataflow

/-- A report of a node. -/
inductive Notice
  /-- A sink handed values to its callback. -/
  | delivered (sink : String) (values : Buffer)
  /-- Values of an input port. -/
  | observed (values : Buffer)
  /-- The state of a pass: the current node, the number of nodes in the
  target, the number of mapped ports, whether none is mapped, and whether the
  current node counts as compilable. -/
  | pass (current target mapped : Nat) (isEmpty compilable : Bool)
  /-- A variable under a name. -/
  | valueHandle (value : ValueId)
  /-- A window under a name. -/
  | arrayHandle (window : ArrayRef)
  /-- A name that stands for nothing. -/
  | unboundHandle
  /-- A parameter that does not exist. -/
  | noParameter
  /-- A window that does not fit. -/
  | noSlice
  /-- The strategy for a size. -/
  | strategy (choice : Strategy)
  /-- Whether an input port lies in one array, and its size. -/
  | inputPort (contiguous : Bool) (size : Nat)
  /-- Where a node is compiled, and whether an output port is bound there. -/
  | site (node : NodeId) (isInline : Bool) (routine : String) (bound : Bool) (entry : String)
  deriving DecidableEq, Repr

end Dataflow
