/-!
# Coordinates

A node is named by its id, an output port by a node and a position, and a single
scalar of a graph by an output port and a position in it.  Ids are handed out in
increasing order, so a smaller id means an earlier node.
-/

namespace Dataflow

/-- The name of a node in a graph. -/
abbrev NodeId := Nat

/-- One output port of one node. -/
structure OutputRef where
  node : NodeId
  port : Nat
  deriving DecidableEq, Repr, Inhabited

/-- The address of one scalar: an element of an output port. -/
structure Coordinate where
  node : NodeId
  port : Nat
  element : Nat
  deriving DecidableEq, Repr, Inhabited

namespace OutputRef

/-- An element of a port. -/
def element (output : OutputRef) (index : Nat) : Coordinate :=
  ⟨output.node, output.port, index⟩

/-- A port as messages show it. -/
def text (output : OutputRef) : String :=
  s!"{output.node}.{output.port}"

end OutputRef

namespace Coordinate

/-- The port that a coordinate belongs to. -/
def output (coordinate : Coordinate) : OutputRef :=
  ⟨coordinate.node, coordinate.port⟩

/-- A coordinate as messages show it. -/
def text (coordinate : Coordinate) : String :=
  s!"({coordinate.node}, {coordinate.port}, {coordinate.element})"

@[simp]
theorem output_element (output : OutputRef) (index : Nat) :
    (output.element index).output = output :=
  rfl

theorem element_output (coordinate : Coordinate) :
    coordinate.output.element coordinate.element = coordinate :=
  rfl

end Coordinate

/-- Several node ids as messages show them. -/
def nodeIdsText (ids : List NodeId) : String :=
  "[" ++ ", ".intercalate (ids.map fun id => s!"NodeId({id})") ++ "]"

end Dataflow
