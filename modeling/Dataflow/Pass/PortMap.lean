import Dataflow.Graph.Error

/-!
# Port maps

A port map says for every output port of one graph which elements of another graph
stand for it.  Element lists are translated coordinate by coordinate, and maps
compose.
-/

namespace Dataflow

/-- Ports with the elements that stand for them, in the order in which they were
mapped. -/
structure PortMap where
  entries : List (OutputRef × Elements)
  deriving DecidableEq, Repr, Inhabited

namespace PortMap

/-- A map without entries. -/
def empty : PortMap :=
  ⟨[]⟩

/-- Number of mapped ports. -/
def size (map : PortMap) : Nat :=
  map.entries.length

/-- What stands for a port. -/
def get? (map : PortMap) (port : OutputRef) : Option Elements :=
  (map.entries.find? (·.1 = port)).map (·.2)

/-- Maps a port that is not mapped yet. -/
def insert (map : PortMap) (port : OutputRef) (elements : Elements) : Except ModelError PortMap :=
  if (map.get? port).isSome then .error (.portAlreadyMapped port)
  else .ok ⟨map.entries ++ [(port, elements)]⟩

/-- The coordinate that stands for a coordinate. -/
def translateCoordinate (map : PortMap) (coordinate : Coordinate) :
    Except ModelError Coordinate :=
  match map.get? coordinate.output with
  | none => .error (.unmappedPort coordinate.output)
  | some elements =>
      match elements[coordinate.element]? with
      | none => .error (.coordinateOutOfRange coordinate)
      | some target => .ok target

/-- The elements that stand for the elements of a list. -/
def translate (map : PortMap) (elements : Elements) : Except ModelError Elements :=
  elements.mapM map.translateCoordinate

/-- The map that goes through two maps one after the other. -/
def compose (first second : PortMap) : Except ModelError PortMap := do
  let entries ← first.entries.mapM fun (port, elements) => do
    return (port, ← second.translate elements)
  return ⟨entries⟩

end PortMap

end Dataflow
