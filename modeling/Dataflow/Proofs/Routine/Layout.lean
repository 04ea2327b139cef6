import Dataflow.Proofs.Routine.Building
import Dataflow.Proofs.Routine.Running

/-!
# Routines on a machine

Code that was added to a routine runs on machines that are ready for the routine: they have
its variables, and every declared array is a window of a buffer of its type.  The code
fills an array element by element.  Arrays that the code declares for itself lie in slots
that nothing else reads.
-/

namespace Dataflow

@[simp]
theorem ArrayDeclaration.type_contents (declaration : ArrayDeclaration) :
    declaration.contents.type = declaration.type := by
  cases declaration <;> simp [contents, type]

@[simp]
theorem ArrayDeclaration.size_contents (declaration : ArrayDeclaration) :
    declaration.contents.size = declaration.length := by
  cases declaration <;> simp [contents, length]

/-- A machine has the variables and the arrays of a routine. -/
structure Builder.Ready (builder : Builder) (views : Array View) (machine : Machine) : Prop where
  values : builder.valueTypes.size ≤ machine.registers.size
  arrays : ∀ (array : ArrayId) (declaration : ArrayDeclaration),
    builder.arrays[array]? = some declaration →
      ∃ slot, Backed views machine.heap array slot declaration.type declaration.length

/-- The slots of the arrays that a routine has declared while it grew. -/
def Builder.Fresh (before after : Builder) (slot : Nat) : Prop :=
  before.arrays.size ≤ slot ∧ slot < after.arrays.size

/-- The arrays that a routine has declared while it grew lie in slots of their own, which
cannot be read otherwise. -/
def Builder.Apart (before after : Builder) (views : Array View) (readable : Nat → Prop) : Prop :=
  ∀ (array : ArrayId) (view : View), before.Fresh after array → views[array]? = some view →
    view.slot = array ∧ ¬readable array

/-- The first elements of a window have given values. -/
def Filled (views : Array View) (heap : Array Buffer) (slot : Nat) (window : ArrayRef) (count : Nat)
    (values : Nat → Scalar) : Prop :=
  ∀ element < count,
    Holds views heap (· = slot) window.array (window.offset + element) (values element)

section Ready

variable {before between after : Builder} {code rest : List Instruction} {views : Array View}
  {machine : Machine}

theorem Builder.Ready.of_grows (ready : after.Ready views machine) (grows : before.Grows code after) :
    before.Ready views machine where
  values := Nat.le_trans grows.values_le ready.values
  arrays array declaration declared := by
    obtain ⟨bound, _⟩ := Array.getElem?_eq_some_iff.mp declared
    exact ready.arrays array declaration ((grows.getElem?_arrays bound).trans declared)

theorem Builder.Ready.of_eq {other : Builder} (ready : after.Ready views machine)
    (values : other.valueTypes = after.valueTypes) (arrays : other.arrays = after.arrays) :
    other.Ready views machine :=
  ⟨values ▸ ready.values, arrays ▸ ready.arrays⟩

theorem Builder.Ready.frame {values : Nat} {kept : Nat → Prop} {later : Machine}
    (ready : after.Ready views machine) (frame : machine.Frame values kept later) :
    after.Ready views later where
  values := frame.size_registers ▸ ready.values
  arrays array declaration declared :=
    (ready.arrays array declaration declared).imp fun _ backed => backed.frame frame

/-- A window that has passed its check lies in an array of its type. -/
theorem Builder.Ready.backed {window : ArrayRef} (ready : after.Ready views machine)
    (checked : after.checkArray window = .ok ()) :
    ∃ slot length, Backed views machine.heap window.array slot window.type length ∧
      window.offset + window.length ≤ length := by
  obtain ⟨declaration, declared, inside, typed⟩ := checkArray_eq_ok_iff.mp checked
  obtain ⟨slot, backed⟩ := ready.arrays _ _ declared
  exact ⟨slot, declaration.length, typed ▸ backed, inside⟩

theorem Builder.Fresh.mono_left (grows : before.Grows code between) {slot : Nat}
    (fresh : between.Fresh after slot) : before.Fresh after slot :=
  ⟨Nat.le_trans grows.arrays_le fresh.1, fresh.2⟩

theorem Builder.Fresh.mono_right (grows : between.Grows rest after) {slot : Nat}
    (fresh : before.Fresh between slot) : before.Fresh after slot :=
  ⟨fresh.1, Nat.lt_of_lt_of_le fresh.2 grows.arrays_le⟩

theorem Builder.Apart.left {readable : Nat → Prop} (apart : before.Apart after views readable)
    (grows : between.Grows rest after) : before.Apart between views readable :=
  fun array view fresh viewed => apart array view (fresh.mono_right grows) viewed

/-- Later arrays are also apart from those that were declared before them. -/
theorem Builder.Apart.right {readable : Nat → Prop} (apart : before.Apart after views readable)
    (grows : before.Grows code between) :
    between.Apart after views fun slot => readable slot ∨ before.Fresh between slot := by
  intro array view fresh viewed
  obtain ⟨own, unread⟩ := apart array view (fresh.mono_left grows) viewed
  refine ⟨own, ?_⟩
  rintro (read | earlier)
  · exact unread read
  · exact absurd fresh.1 (Nat.not_le.mpr earlier.2)

theorem Machine.points_fixed (machine : Machine) (element : Nat) :
    machine.Points element (.fixed element) :=
  rfl

theorem Machine.Points.frame {values : Nat} {kept : Nat → Prop} {later : Machine} {element : Nat}
    {position : Position} (points : machine.Points element position)
    (frame : machine.Frame values kept later)
    (below : ∀ value offset, position = .indexed value offset → value < values) :
    later.Points element position := by
  cases position with
  | fixed position => exact points
  | indexed value offset =>
      obtain ⟨index, read, sum⟩ := points
      exact ⟨index, (frame.registers value (below value offset rfl)).trans read, sum⟩

end Ready

/-! ## Filling arrays -/

section Filling

variable {activation : Activation} {machine : Machine} {slot : Nat} {window : ArrayRef}
  {values : Nat → Scalar} {count : Nat} {kept : Nat → Prop}

theorem filled_zero {views : Array View} {heap : Array Buffer} :
    Filled views heap slot window 0 values :=
  fun _ below => absurd below (Nat.not_lt_zero _)

theorem Filled.frame {views : Array View} {number : Nat} {later : Machine}
    (filled : Filled views machine.heap slot window count values)
    (frame : machine.Frame number kept later) (keeps : kept slot) :
    Filled views later.heap slot window count values :=
  fun element below => (filled element below).frame frame (by rintro _ rfl; exact keeps)

/-- A store fills the next element of a window. -/
theorem reaches_next {builder : Builder} {position : Position} {source : ValueId} {number : Nat}
    (ready : builder.Ready activation.views machine) (checked : builder.checkArray window = .ok ())
    (placed : ∀ view, activation.views[window.array]? = some view → view.slot = slot)
    (typed : (values count).type = window.type) (inside : count < window.length)
    (points : machine.Points (window.offset + count) position)
    (has : machine.Has source (values count))
    (filled : Filled activation.views machine.heap slot window count values) :
    activation.Reaches [.store window.array position source] number (· ≠ slot) machine fun after =>
      Filled activation.views after.heap slot window (count + 1) values := by
  obtain ⟨found, length, backed, room⟩ := ready.backed checked
  obtain rfl : found = slot := by
    obtain ⟨view, _, viewed, rfl, _⟩ := backed
    exact placed view viewed
  refine (Activation.reaches_store backed typed (by omega) points has).mono (Nat.le_refl _)
    (fun _ different => different) ?_
  rintro after _ ⟨written, others⟩ element below
  rcases Nat.lt_succ_iff_lt_or_eq.mp below with earlier | rfl
  · exact others _ _ (by omega) (filled element earlier)
  · exact written

/-- Loading an element and storing it fills the next element of a window. -/
theorem reaches_copy_next {builder : Builder} (position target : Position) {array : ArrayId}
    {element : Nat} {value : ValueId} {readable : Nat → Prop}
    (ready : builder.Ready activation.views machine) (checked : builder.checkArray window = .ok ())
    (placed : ∀ view, activation.views[window.array]? = some view → view.slot = slot)
    (typed : (values count).type = window.type) (inside : count < window.length)
    (holds : Holds activation.views machine.heap readable array element (values count))
    (points : machine.Points element position)
    (targetPoints : machine.Points (window.offset + count) target)
    (below : ∀ counter offset, target = .indexed counter offset → counter < value)
    (declared : value < builder.valueTypes.size)
    (filled : Filled activation.views machine.heap slot window count values) :
    activation.Reaches [.assign value (.load array position), .store window.array target value] value
      (· ≠ slot) machine fun after =>
        Filled activation.views after.heap slot window (count + 1) values := by
  have bound : value < machine.registers.size := Nat.lt_of_lt_of_le declared ready.values
  refine (Activation.reaches_load holds points bound).read_append fun loaded frame has => ?_
  exact reaches_next (ready.frame frame) checked placed typed inside
    (targetPoints.frame frame below) has (filled.frame frame trivial)

end Filling

end Dataflow
