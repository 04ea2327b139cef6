import Dataflow.Routine.Builder

/-!
# Scopes

While a graph is lowered, a scope says where the elements of its output ports are
in the routine that is being built.  A port lives in an array of its own, or it is
an alias: its elements are elements of other arrays.  An alias is resolved when it
is bound, so looking up a coordinate takes one step.
-/

namespace Dataflow

/-- The place of one element: a position in a window. -/
structure Location where
  window : ArrayRef
  position : Nat
  deriving DecidableEq, Repr, Inhabited

/-- The position in the whole array. -/
def Location.absolute (location : Location) : Nat :=
  location.window.offset + location.position

/-- Where an output port is. -/
inductive PortBinding
  | array (window : ArrayRef)
  /-- The port has no array; its elements are elsewhere. -/
  | scattered (locations : List Location)
  deriving DecidableEq, Repr, Inhabited

/-- The place of an element of a port. -/
def PortBinding.locate : PortBinding → Nat → Except CompileError Location
  | array window, element =>
      if element < window.length then .ok ⟨window, element⟩
      else .error (.indexOutOfBounds element window.length)
  | scattered locations, element =>
      match locations[element]? with
      | some location => .ok location
      | none => .error (.indexOutOfBounds element locations.length)

/-- Where the output ports are, the last binding of a port first. -/
structure Scope where
  bindings : List (OutputRef × PortBinding)
  deriving DecidableEq, Repr, Inhabited

namespace Scope

/-- A scope without ports. -/
def empty : Scope :=
  ⟨[]⟩

/-- The binding of a port. -/
def binding? (scope : Scope) (port : OutputRef) : Option PortBinding :=
  scope.bindings.lookup port

/-- Whether a port has a place. -/
def isBound (scope : Scope) (port : OutputRef) : Bool :=
  (scope.binding? port).isSome

/-- Binds a port, in place of an earlier binding. -/
def bind (scope : Scope) (port : OutputRef) (binding : PortBinding) : Scope :=
  ⟨(port, binding) :: scope.bindings⟩

/-- Binds a port to an array. -/
def bindArray (scope : Scope) (port : OutputRef) (window : ArrayRef) : Scope :=
  scope.bind port (.array window)

@[simp]
theorem binding?_bind (scope : Scope) (port : OutputRef) (binding : PortBinding) :
    (scope.bind port binding).binding? port = some binding := by
  simp [bind, binding?]

theorem binding?_bind_of_ne (scope : Scope) {port other : OutputRef} (binding : PortBinding)
    (different : other ≠ port) :
    (scope.bind port binding).binding? other = scope.binding? other := by
  simp [bind, binding?, List.lookup_cons, beq_false_of_ne different]

/-- The place of a coordinate. -/
def locate (scope : Scope) (coordinate : Coordinate) : Except CompileError Location :=
  match scope.binding? coordinate.output with
  | some binding => binding.locate coordinate.element
  | none => .error (.unboundPort coordinate.output)

/-- The places of several coordinates. -/
def locateAll (scope : Scope) (elements : Elements) : Except CompileError (List Location) :=
  elements.mapM scope.locate

/-- Binds a port to the places of elements that are bound already. -/
def bindAlias (scope : Scope) (port : OutputRef) (elements : Elements) :
    Except CompileError Scope := do
  return scope.bind port (.scattered (← scope.locateAll elements))

/-- Whether places follow one another in an array from a position on. -/
def consecutive (array : ArrayId) : Nat → List Location → Bool
  | _, [] => true
  | position, location :: rest =>
      location.window.array = array && location.absolute = position &&
        consecutive array (position + 1) rest

/-- The window that covers some places, when they follow one another in one
array. -/
def windowOver? (type : ScalarType) : List Location → Option ArrayRef
  | [] => none
  | first :: rest =>
      let array := first.window.array
      if consecutive array first.absolute (first :: rest) then
        some ⟨array, type, first.absolute, rest.length + 1⟩
      else
        none

/-- The window that covers some elements, when they follow one another in one
array. -/
def contiguous (scope : Scope) (elements : Elements) (type : ScalarType) :
    Except CompileError (Option ArrayRef) := do
  return windowOver? type (← scope.locateAll elements)

/-! ## Reading elements -/

variable {σ : Type}

/-- Reads an element. -/
def load (scope : Scope) (coordinate : Coordinate) : Emit σ ValueId := do
  let location ← Emit.check (scope.locate coordinate)
  Emit.load location.window (.fixed location.position)

/-- Copies elements one by one to a window, from a position on. -/
def copyElements (scope : Scope) (target : ArrayRef) : Nat → Elements → Emit σ Unit
  | _, [] => pure ()
  | position, coordinate :: rest => do
      let value ← scope.load coordinate
      Emit.store target (.fixed position) value
      scope.copyElements target (position + 1) rest

/-- Elements as one array: the window that covers them, or else a new array with
copies of them. -/
def gather (scope : Scope) (elements : Elements) (type : ScalarType) : Emit σ ArrayRef := do
  match ← Emit.check (scope.contiguous elements type) with
  | some window => pure window
  | none => do
      let target ← Emit.declareArray type elements.length
      scope.copyElements target 0 elements
      pure target

end Scope

end Dataflow
