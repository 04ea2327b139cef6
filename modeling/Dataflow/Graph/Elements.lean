import Dataflow.Graph.Coordinate

/-!
# Element lists

An input port reads a list of coordinates: any mix of elements from any output
ports.  This module builds such lists and recognises those that are a range of
one port.
-/

namespace Dataflow

/-- What an input port reads, in order. -/
abbrev Elements := List Coordinate

/-- A range of consecutive elements of one port. -/
structure PortRange where
  output : OutputRef
  start : Nat
  stop : Nat
  deriving DecidableEq, Repr

/-- The elements of a port from `start` on. -/
def OutputRef.elementsFrom (output : OutputRef) (start count : Nat) : Elements :=
  (List.range' start count).map output.element

/-- The first `count` elements of a port. -/
def OutputRef.elements (output : OutputRef) (count : Nat) : Elements :=
  (List.range count).map output.element

namespace Elements

/-- Whether a list continues a port at a position, one element after another. -/
def continues (output : OutputRef) : Nat → Elements → Bool
  | _, [] => true
  | index, coordinate :: rest =>
      coordinate.output = output && coordinate.element = index &&
        continues output (index + 1) rest

/-- The range that a list covers, when its elements are consecutive elements of
one port in increasing order. -/
def singlePortRange? (elements : Elements) : Option PortRange :=
  match elements with
  | [] => none
  | first :: _ =>
      if continues first.output first.element elements then
        some ⟨first.output, first.element, first.element + elements.length⟩
      else
        none

/-- The nodes that a list reads from, each where it comes first. -/
def sourceNodes (elements : Elements) : List NodeId :=
  elements.foldl
    (fun nodes coordinate =>
      if coordinate.node ∈ nodes then nodes else nodes ++ [coordinate.node])
    []

end Elements

end Dataflow
