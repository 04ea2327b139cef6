/-!
# Shapes and memory layouts

The shape of a port lists its dimensions.  A layout adds padding on both sides of
every dimension.
-/

namespace Dataflow

/-- Dimension sizes, outermost first. -/
structure Shape where
  dims : List Nat
  deriving DecidableEq, Repr, Inhabited

namespace Shape

/-- A shape with one dimension. -/
def vector (size : Nat) : Shape :=
  ⟨[size]⟩

/-- Number of dimensions. -/
def rank (shape : Shape) : Nat :=
  shape.dims.length

/-- Product of the dimensions.  A shape without dimensions holds nothing. -/
def elementCount (shape : Shape) : Nat :=
  match shape.dims with
  | [] => 0
  | dims => dims.foldl (· * ·) 1

@[simp]
theorem elementCount_vector (size : Nat) : (vector size).elementCount = size := by
  simp [elementCount, vector]

end Shape

/-- The shape of the active elements of a port and the padding on both sides of
each dimension. -/
structure MemoryLayout where
  active : Shape
  padding : Shape
  deriving DecidableEq, Repr, Inhabited

namespace MemoryLayout

/-- A layout without padding. -/
def unpadded (active : Shape) : MemoryLayout :=
  ⟨active, ⟨List.replicate active.rank 0⟩⟩

/-- A layout with one dimension and no padding. -/
def vector (size : Nat) : MemoryLayout :=
  unpadded (.vector size)

/-- A layout with padding, which needs as many dimensions as the active shape. -/
def padded? (active padding : Shape) : Option MemoryLayout :=
  if active.rank = padding.rank then some ⟨active, padding⟩ else none

/-- Number of active elements. -/
def activeSize (layout : MemoryLayout) : Nat :=
  layout.active.elementCount

/-- The shape with padding. -/
def extent (layout : MemoryLayout) : Shape :=
  ⟨List.zipWith (fun size pad => size + 2 * pad) layout.active.dims layout.padding.dims⟩

/-- Number of elements with padding. -/
def memorySize (layout : MemoryLayout) : Nat :=
  layout.extent.elementCount

end MemoryLayout

end Dataflow
