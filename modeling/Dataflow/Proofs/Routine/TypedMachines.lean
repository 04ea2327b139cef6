import Dataflow.Proofs.Routine.Moments
import Dataflow.Proofs.Routine.SafeRuns
import Dataflow.Proofs.Routine.Typing

/-!
# Typed machines

The checks that the interpreter makes for typed code, on a machine whose variables hold values of
their types and whose arrays lie on the heap with theirs.  Each check leaves the machine alone.  It
gives what the types say, or it fails in one of few ways: on an undefined variable, on an index that
leads past the end of an array, or on an index that is handed to the host.
-/

namespace Dataflow

/-! ## Failures -/

/-- An index variable leads past the end of an array. -/
inductive Machine.Overruns (machine : Machine) (views : Array View) (array : ArrayId) :
    Position → RunError → Prop
  | past {value : ValueId} {offset index : Nat} {view : View}
      (viewed : views[array]? = some view)
      (holds : machine.registers[value]? = some (some (.index index)))
      (beyond : view.length ≤ index + offset) :
      Overruns machine views array (.indexed value offset)
        (.indexOutOfBounds (index + offset) view.length)

/-- The next instruction reads or writes an element of an array. -/
inductive Moment.Accesses (moment : Moment) (array : ArrayId) (position : Position) : Prop
  | load {target : ValueId} {rest : List Instruction}
      (next : moment.code = .assign target (.load array position) :: rest)
  | store {value : ValueId} {rest : List Instruction}
      (next : moment.code = .store array position value :: rest)

/-- The next instruction fails because an index leads past the end of an array, or because it
hands an index to the host, which takes scalars. -/
inductive Moment.Explains (moment : Moment) : RunError → Prop
  | overrun {array : ArrayId} {position : Position} {error : RunError}
      (accesses : moment.Accesses array position)
      (overruns : moment.machine.Overruns moment.views array position error) :
      Explains moment error
  | conversion {name : String} {arguments : List Argument} {rest : List Instruction}
      {value : ValueId} {index : Nat} (next : moment.code = .call (.host name) arguments :: rest)
      (passed : .value value ∈ arguments)
      (holds : moment.machine.registers[value]? = some (some (.index index))) :
      Explains moment (.typeMismatch "scalar conversion")

/-- The failures that typed code can end with, given the last moment of its run. -/
def RunError.Permitted (error : RunError) (last : Option Moment) : Prop :=
  match error with
  | .unknownArray _ => False
  | .typeMismatch _ => ∃ moment ∈ last, moment.Explains error
  | .indexOutOfBounds _ _ => ∃ moment ∈ last, moment.Explains error
  | _ => True

/-- A failure that needs no moment is permitted at every moment. -/
theorem RunError.Permitted.weaken {error : RunError} (permitted : error.Permitted none)
    (last : Option Moment) : error.Permitted last := by
  cases error <;> first | trivial | simp [Permitted] at permitted

theorem RunError.Permitted.append {error : RunError} {later : List Moment}
    (permitted : error.Permitted later.getLast?) (earlier : List Moment) :
    error.Permitted (earlier ++ later).getLast? := by
  cases later with
  | nil => exact permitted.weaken _
  | cons moment rest => rwa [List.getLast?_append_of_ne_nil _ (List.cons_ne_nil moment rest)]

/-! ## Checks of the machine -/

/-- A check leaves the machine alone.  It gives a value that meets a condition, or it fails as
allowed. -/
def Looks {α : Type} (check : Run α) (machine : Machine) (condition : α → Prop)
    (allowed : RunError → Prop) : Prop :=
  (∃ value, outcome check machine = (.ok value, machine) ∧ condition value) ∨
    ∃ error, outcome check machine = (.error error, machine) ∧ allowed error

section Looks

variable {α β : Type} {machine : Machine} {condition : α → Prop} {allowed : RunError → Prop}

theorem looks_pure {value : α} (meets : condition value) :
    Looks (pure value) machine condition allowed :=
  .inl ⟨value, rfl, meets⟩

theorem looks_throw {error : RunError} (permitted : allowed error) :
    Looks (throw error : Run α) machine condition allowed :=
  .inr ⟨error, rfl, permitted⟩

theorem Looks.bind {check : Run α} {next : α → Run β} {later : β → Prop}
    (first : Looks check machine condition allowed)
    (second : ∀ value, condition value → Looks (next value) machine later allowed) :
    Looks (check >>= next) machine later allowed := by
  rcases first with ⟨value, done, meets⟩ | ⟨error, done, permitted⟩
  · unfold Looks
    rw [outcome_bind_of_succeeds done]
    exact second value meets
  · exact .inr ⟨error, by rw [outcome_bind, done], permitted⟩

theorem Looks.map {check : Run α} {change : α → β} {later : β → Prop}
    (first : Looks check machine condition allowed)
    (implies : ∀ value, condition value → later (change value)) :
    Looks (change <$> check) machine later allowed := by
  rw [← bind_pure_comp]
  exact first.bind fun value meets => looks_pure (implies value meets)

theorem Looks.mono {check : Run α} {weaker : α → Prop} {more : RunError → Prop}
    (looks : Looks check machine condition allowed)
    (implies : ∀ value, condition value → weaker value)
    (permits : ∀ error, allowed error → more error) : Looks check machine weaker more := by
  rcases looks with ⟨value, done, meets⟩ | ⟨error, done, permitted⟩
  · exact .inl ⟨value, done, implies value meets⟩
  · exact .inr ⟨error, done, permits error permitted⟩

end Looks

/-! ## Typed machines -/

/-- A machine whose variables hold values of their types, if any, and whose arrays lie on the heap
with their types. -/
structure Machine.Typed (machine : Machine) (declared : Declarations) (views : Array View) :
    Prop where
  registers : ∀ (value : ValueId) (literal : Literal),
    machine.registers[value]? = some (some literal) → declared.values[value]? = some literal.type
  arrays : ∀ (array : ArrayId) (declaration : ArrayDeclaration),
    declared.arrays[array]? = some declaration →
      ∃ slot, Backed views machine.heap array slot declaration.type declaration.length

/-- A view lies inside a buffer of the heap. -/
def View.Inside (view : View) (heap : Array Buffer) : Prop :=
  ∃ buffer, heap[view.slot]? = some buffer ∧ view.offset + view.length ≤ buffer.size

/-- A failure that can happen anywhere. -/
def RunError.Harmless (error : RunError) : Prop :=
  error.Permitted none

namespace Machine.Typed

variable {machine after : Machine} {declared : Declarations} {views : Array View}

theorem of_alike (typed : machine.Typed declared views) (alike : machine.Alike after)
    (registers : after.registers = machine.registers) : after.Typed declared views where
  registers value literal holds := typed.registers value literal (registers ▸ holds)
  arrays array declaration found :=
    (typed.arrays array declaration found).imp fun _ backed => alike.backed backed

/-- A variable can be assigned a value of its type. -/
theorem write (typed : machine.Typed declared views) {target : ValueId} {literal : Literal}
    (declares : declared.values[target]? = some literal.type) :
    (machine.write target literal).Typed declared views where
  registers value found holds := by
    simp only [Machine.write, Array.getElem?_setIfInBounds] at holds
    split at holds
    · rename_i same
      split at holds
      · obtain rfl := Option.some.inj (Option.some.inj holds)
        exact same ▸ declares
      · contradiction
    · exact typed.registers value found holds
  arrays array declaration found :=
    (typed.arrays array declaration found).imp fun _ backed =>
      (machine.alike_write target literal).backed backed

/-! ### Variables -/

/-- An element of a buffer can be replaced by another one of its type. -/
theorem succeeds_writeElement {slot element : Nat} {buffer : Buffer} {scalar : Scalar}
    (found : machine.heap[slot]? = some buffer) (inside : element < buffer.size)
    (same : scalar.type = buffer.type) :
    Succeeds (Run.writeElement slot element scalar) machine ()
      { machine with heap := machine.heap.modify slot (·.set element scalar) } := by
  have accepts : buffer.accepts element scalar = true := by simp [Buffer.accepts, same, inside]
  simp [Run.writeElement, found, accepts]

end Machine.Typed

end Dataflow
