import Dataflow.Proofs.Routine.Safety

/-!
# Runs of safe code

Safe code on a machine that suits it runs to its end, and leaves a machine that suits what follows,
unless a function of the host is missing or panics.
-/

namespace Dataflow

/-! ## Failures of the host -/

/-- The failures that the host causes: a function that it does not have, or one that panics. -/
inductive Host.Raises (host : Host) : RunError → Prop
  | unknown {name : String} (missing : host.function? name = none) :
      Raises host (.unknownHostFunction name)
  | panic {name : String} {function : HostFunction} (found : host.function? name = some function)
      (panics : function.panics = true) : Raises host (.uncaughtPanic name)

/-- The functions of the host return. -/
def Host.Calm (host : Host) : Prop :=
  ∀ name function, host.function? name = some function → function.panics = false

theorem Host.Calm.exists_name {host : Host} (calm : host.Calm) {error : RunError}
    (raises : host.Raises error) :
    ∃ name, host.function? name = none ∧ error = .unknownHostFunction name := by
  cases raises with
  | unknown missing => exact ⟨_, missing, rfl⟩
  | panic found panics => simp [calm _ _ found] at panics

/-- An action reaches a goal, unless the host makes it fail. -/
def Behaves (host : Host) (action : Run Unit) (before : Machine) (goal : Machine → Prop) : Prop :=
  match outcome action before with
  | (.ok (), after) => goal after
  | (.error error, _) => host.Raises error

section Behaviour

variable {host : Host} {α : Type} {action : Run Unit} {before after : Machine}
  {goal more : Machine → Prop}

theorem Behaves.of_succeeds (succeeded : Succeeds action before () after) (reached : goal after) :
    Behaves host action before goal := by
  unfold Behaves
  rw [succeeded]
  exact reached

theorem behaves_bind_of_succeeds {check : Run α} {value : α} {next : α → Run Unit}
    (first : Succeeds check before value after) (second : Behaves host (next value) after goal) :
    Behaves host (check >>= next) before goal := by
  unfold Behaves
  rw [outcome_bind_of_succeeds first]
  exact second

theorem Behaves.bind {next : Unit → Run Unit} (first : Behaves host action before goal)
    (second : ∀ between, goal between → Behaves host (next ()) between more) :
    Behaves host (action >>= next) before more := by
  unfold Behaves at first ⊢
  rw [outcome_bind]
  rcases done : outcome action before with ⟨error | ⟨⟩, between⟩
  · rw [done] at first
    exact first
  · rw [done] at first
    exact second between first

theorem Behaves.mono (behaves : Behaves host action before goal)
    (implies : ∀ after, goal after → more after) : Behaves host action before more := by
  unfold Behaves at behaves ⊢
  rcases done : outcome action before with ⟨error | ⟨⟩, between⟩
  · rw [done] at behaves
    exact behaves
  · rw [done] at behaves
    exact implies between behaves

end Behaviour

/-! ## Machines that suit code -/

/-- Two machines have as many variables, and buffers of the same types and sizes. -/
structure Machine.Alike (before after : Machine) : Prop where
  size_registers : after.registers.size = before.registers.size
  size_heap : after.heap.size = before.heap.size
  shapes : ∀ (slot : Nat) (buffer : Buffer), before.heap[slot]? = some buffer →
    ∃ changed : Buffer, after.heap[slot]? = some changed ∧ changed.type = buffer.type ∧
      changed.size = buffer.size

theorem Machine.Alike.refl (machine : Machine) : machine.Alike machine :=
  ⟨rfl, rfl, fun _ buffer found => ⟨buffer, found, rfl, rfl⟩⟩

theorem Machine.Alike.trans {before between after : Machine} (first : before.Alike between)
    (second : between.Alike after) : before.Alike after where
  size_registers := second.size_registers.trans first.size_registers
  size_heap := second.size_heap.trans first.size_heap
  shapes slot buffer found := by
    obtain ⟨middle, middleFound, middleType, middleSize⟩ := first.shapes slot buffer found
    obtain ⟨last, lastFound, lastType, lastSize⟩ := second.shapes slot middle middleFound
    exact ⟨last, lastFound, lastType.trans middleType, lastSize.trans middleSize⟩

/-- A machine has the variables and arrays that are declared, scalars of the declared types in the
known variables, and counters below their bounds. -/
structure Machine.Suits (machine : Machine) (declared : Declarations) (views : Array View)
    (counters : Counters) (known : Set ValueId) : Prop where
  registers : declared.values.size ≤ machine.registers.size
  known : ∀ value ∈ known, ∀ type, declared.values[value]? = some (.scalar type) →
    ∃ scalar, machine.registers[value]? = some (some (.scalar scalar)) ∧ scalar.type = type
  counters : ∀ counter bound, (counter, bound) ∈ counters →
    ∃ index < bound, machine.registers[counter]? = some (some (.index index))
  arrays : ∀ (array : ArrayId) (declaration : ArrayDeclaration),
    declared.arrays[array]? = some declaration →
      ∃ slot, Backed views machine.heap array slot declaration.type declaration.length

/-- A machine on which a variable has been assigned. -/
def Machine.write (machine : Machine) (target : ValueId) (literal : Literal) : Machine :=
  { machine with registers := machine.registers.setIfInBounds target (some literal) }

theorem Machine.alike_write (machine : Machine) (target : ValueId) (literal : Literal) :
    machine.Alike (machine.write target literal) :=
  ⟨by simp [write], rfl, fun _ buffer found => ⟨buffer, found, rfl, rfl⟩⟩

theorem Machine.registers_write (machine : Machine) {target : ValueId} (literal : Literal)
    (inside : target < machine.registers.size) (value : ValueId) :
    (machine.write target literal).registers[value]? =
      if value = target then some (some literal) else machine.registers[value]? := by
  simp only [write, Array.getElem?_setIfInBounds, inside, eq_comm, if_true]

theorem Machine.Alike.backed {before after : Machine} (alike : before.Alike after)
    {views : Array View} {array : ArrayId} {slot : Nat} {type : ScalarType} {length : Nat}
    (backed : Backed views before.heap array slot type length) :
    Backed views after.heap array slot type length := by
  obtain ⟨view, buffer, viewed, rfl, viewLength, found, typed, room⟩ := backed
  obtain ⟨changed, changedFound, changedType, changedSize⟩ := alike.shapes _ _ found
  exact ⟨view, changed, viewed, rfl, viewLength, changedFound, changedType.trans typed,
    changedSize ▸ room⟩

/-- A position of an array stands for an element of a buffer. -/
structure Machine.Locates (machine : Machine) (views : Array View) (array : ArrayId)
    (position : Position) (view : View) (buffer : Buffer) (element : Nat) : Prop where
  viewed : views[array]? = some view
  stored : machine.heap[view.slot]? = some buffer
  points : machine.Points element position
  inside : element < view.length
  room : view.offset + element < buffer.size

namespace Machine.Suits

variable {declared : Declarations} {views : Array View} {counters : Counters} {known : Set ValueId}
  {machine after : Machine}

theorem mono {fewer : Set ValueId} (suits : machine.Suits declared views counters known)
    (subset : fewer ⊆ known) : machine.Suits declared views counters fewer :=
  { suits with known := fun value mem => suits.known value (subset mem) }

theorem drop {counter : ValueId × Nat}
    (suits : machine.Suits declared views (counter :: counters) known) :
    machine.Suits declared views counters known :=
  { suits with
    counters := fun value bound mem => suits.counters value bound (List.mem_cons_of_mem _ mem) }

/-- Suiting depends on the variables and on the shapes of the buffers. -/
theorem of_alike (suits : machine.Suits declared views counters known)
    (alike : machine.Alike after) (registers : after.registers = machine.registers) :
    after.Suits declared views counters known where
  registers := registers ▸ suits.registers
  known := registers ▸ suits.known
  counters := registers ▸ suits.counters
  arrays array declaration found :=
    (suits.arrays array declaration found).imp fun _ backed => alike.backed backed

theorem write (suits : machine.Suits declared views counters known) {target : ValueId}
    {scalar : Scalar} (declares : declared.values[target]? = some (.scalar scalar.type))
    (free : target ∉ counters.map Prod.fst) :
    (machine.write target scalar).Suits declared views counters (insert target known) := by
  obtain ⟨bound, _⟩ := Array.getElem?_eq_some_iff.mp declares
  have inside := Nat.lt_of_lt_of_le bound suits.registers
  refine ⟨(machine.alike_write target scalar).size_registers ▸ suits.registers, ?_, ?_, ?_⟩
  · intro value mem type typed
    rw [machine.registers_write _ inside]
    split
    · rename_i same
      subst same
      exact ⟨scalar, rfl, ValueType.scalar.inj (Option.some.inj (declares.symm.trans typed))⟩
    · rename_i different
      exact suits.known value (Set.mem_of_mem_insert_of_ne mem different) type typed
  · intro counter bound mem
    have different : counter ≠ target := by
      rintro rfl
      exact free (List.mem_map_of_mem mem)
    rw [machine.registers_write _ inside, if_neg different]
    exact suits.counters counter bound mem
  · exact fun array declaration found => (suits.arrays array declaration found).imp
      fun _ backed => (machine.alike_write target scalar).backed backed

theorem count (suits : machine.Suits declared views counters known) {counter stop index : Nat}
    (counts : declared.values[counter]? = some .index) (free : counter ∉ counters.map Prod.fst)
    (below : index < stop) :
    (machine.write counter (.index index)).Suits declared views ((counter, stop) :: counters)
      known := by
  obtain ⟨bound, _⟩ := Array.getElem?_eq_some_iff.mp counts
  have inside := Nat.lt_of_lt_of_le bound suits.registers
  refine ⟨(machine.alike_write counter _).size_registers ▸ suits.registers, ?_, ?_, ?_⟩
  · intro value mem type typed
    have different : value ≠ counter := by
      rintro rfl
      simp [counts] at typed
    rw [machine.registers_write _ inside, if_neg different]
    exact suits.known value mem type typed
  · intro other limit mem
    rw [machine.registers_write _ inside]
    rcases List.mem_cons.mp mem with here | earlier
    · obtain ⟨rfl, rfl⟩ := Prod.mk.inj here
      exact ⟨index, below, if_pos rfl⟩
    · have different : other ≠ counter := by
        rintro rfl
        exact free (List.mem_map_of_mem earlier)
      rw [if_neg different]
      exact suits.counters other limit earlier
  · exact fun array declaration found => (suits.arrays array declaration found).imp
      fun _ backed => (machine.alike_write counter _).backed backed

/-! ### What safe instructions find -/

theorem exists_scalar (suits : machine.Suits declared views counters known) {value : ValueId}
    {type : ScalarType} (knows : declared.Knows known value type) :
    ∃ scalar, machine.registers[value]? = some (some (.scalar scalar)) ∧ scalar.type = type :=
  suits.known value knows.1 type knows.2

/-- A position inside an array stands for an element of the buffer behind it. -/
theorem exists_element (suits : machine.Suits declared views counters known) {array : ArrayId}
    {position : Position} {type : ScalarType}
    (covers : declared.Covers counters array position type) :
    ∃ view buffer element, machine.Locates views array position view buffer element ∧
      buffer.type = type := by
  obtain ⟨declaration, found, rfl, inside⟩ := covers
  obtain ⟨_, view, buffer, viewed, rfl, length, stored, typed, room⟩ :=
    suits.arrays array declaration found
  cases position with
  | fixed position =>
      have below : position < declaration.length := inside
      exact ⟨view, buffer, position, ⟨viewed, stored, rfl, by omega, by omega⟩, typed⟩
  | indexed counter offset =>
      obtain ⟨bound, mem, upTo⟩ := inside
      obtain ⟨index, below, read⟩ := suits.counters counter bound mem
      exact ⟨view, buffer, index + offset,
        ⟨viewed, stored, ⟨index, read, rfl⟩, by omega, by omega⟩, typed⟩

/-- The buffer behind a position has the type of its array. -/
theorem type_of_locates (suits : machine.Suits declared views counters known) {array : ArrayId}
    {position : Position} {type : ScalarType} {view : View} {buffer : Buffer} {element : Nat}
    (covers : declared.Covers counters array position type)
    (locates : machine.Locates views array position view buffer element) : buffer.type = type := by
  obtain ⟨declaration, found, rfl, _⟩ := covers
  obtain ⟨_, other, stored, viewed, rfl, _, found, typed, _⟩ := suits.arrays array declaration found
  obtain rfl := Option.some.inj (locates.viewed.symm.trans viewed)
  obtain rfl := Option.some.inj (locates.stored.symm.trans found)
  exact typed

/-- A window can be passed on, as a view that fits. -/
theorem exists_passes (suits : machine.Suits declared views counters known) {window : ArrayRef}
    (contains : declared.Contains window) :
    ∃ passed buffer, Passes views window passed ∧ machine.heap[passed.slot]? = some buffer ∧
      buffer.type = window.type ∧ passed.offset + passed.length ≤ buffer.size := by
  obtain ⟨declaration, found, inside, typed⟩ := contains
  obtain ⟨_, view, buffer, viewed, rfl, length, stored, bufferType, room⟩ :=
    suits.arrays window.array declaration found
  refine ⟨⟨view.slot, view.offset + window.offset, window.length⟩, buffer,
    ⟨view, viewed, by omega, rfl⟩, stored, bufferType.trans typed, ?_⟩
  simp only
  omega

end Machine.Suits

/-! ## Expressions -/

section Expressions

variable {declared : Declarations} {activation : Activation} {counters : Counters}
  {known : Set ValueId} {machine : Machine}

theorem BinaryOp.exists_onScalars? (op : BinaryOp) {left right : Scalar} {type : RealType}
    (leftType : left.type = type.toScalarType) (rightType : right.type = type.toScalarType) :
    ∃ value, op.onScalars? left right = some value ∧ value.type = type.toScalarType := by
  cases type <;> cases left <;> cases leftType <;> cases right <;> cases rightType <;>
    exact ⟨_, rfl, rfl⟩

theorem Predicate.exists_onScalars? (predicate : Predicate) {left right : Scalar}
    (same : left.type = right.type) : ∃ value, predicate.onScalars? left right = some value := by
  cases left <;> cases right <;> cases same <;> exact ⟨_, rfl⟩

/-- An expression has a scalar as its value. -/
inductive Machine.Gives (machine : Machine) (views : Array View) : Expression → Scalar → Prop
  | literal (scalar : Scalar) : Gives machine views (.literal (.scalar scalar)) scalar
  | copy {source : ValueId} {scalar : Scalar}
      (found : machine.registers[source]? = some (some (.scalar scalar))) :
      Gives machine views (.copy source) scalar
  | load {array : ArrayId} {position : Position} {view : View} {buffer : Buffer} {element : Nat}
      (locates : machine.Locates views array position view buffer element) :
      Gives machine views (.load array position) (buffer.item (view.offset + element))
  | binary {op : BinaryOp} {left right : ValueId} {leftScalar rightScalar value : Scalar}
      (left_found : machine.registers[left]? = some (some (.scalar leftScalar)))
      (right_found : machine.registers[right]? = some (some (.scalar rightScalar)))
      (computed : op.onScalars? leftScalar rightScalar = some value) :
      Gives machine views (.binary op left right) value
  | compare {predicate : Predicate} {left right : ValueId} {leftScalar rightScalar : Scalar}
      {value : Bool} (left_found : machine.registers[left]? = some (some (.scalar leftScalar)))
      (right_found : machine.registers[right]? = some (some (.scalar rightScalar)))
      (computed : predicate.onScalars? leftScalar rightScalar = some value) :
      Gives machine views (.compare predicate left right) (.bool value)

/-- A safe expression has a value of its type. -/
theorem Declarations.Yields.exists_value {views : Array View} {expression : Expression}
    {type : ScalarType} (yields : declared.Yields counters known expression type)
    (suits : machine.Suits declared views counters known) :
    ∃ scalar, machine.Gives views expression scalar ∧ scalar.type = type := by
  cases yields with
  | literal scalar => exact ⟨scalar, .literal scalar, rfl⟩
  | copy knows =>
      obtain ⟨scalar, found, typed⟩ := suits.exists_scalar knows
      exact ⟨scalar, .copy found, typed⟩
  | load covers =>
      obtain ⟨view, buffer, element, locates, typed⟩ := suits.exists_element covers
      exact ⟨_, .load locates, (Buffer.type_item locates.room).trans typed⟩
  | @binary op _ _ _ leftKnows rightKnows =>
      obtain ⟨left, leftFound, leftType⟩ := suits.exists_scalar leftKnows
      obtain ⟨right, rightFound, rightType⟩ := suits.exists_scalar rightKnows
      obtain ⟨value, computed, typed⟩ := op.exists_onScalars? leftType rightType
      exact ⟨value, .binary leftFound rightFound computed, typed⟩
  | @compare predicate _ _ _ leftKnows rightKnows =>
      obtain ⟨left, leftFound, leftType⟩ := suits.exists_scalar leftKnows
      obtain ⟨right, rightFound, rightType⟩ := suits.exists_scalar rightKnows
      obtain ⟨value, computed⟩ := predicate.exists_onScalars? (leftType.trans rightType.symm)
      exact ⟨.bool value, .compare leftFound rightFound computed, rfl⟩

/-- The evaluation of an expression that has a value gives this value. -/
theorem Machine.Gives.succeeds {expression : Expression} {scalar : Scalar}
    (gives : machine.Gives activation.views expression scalar) :
    Succeeds (activation.evaluate expression) machine (.scalar scalar) machine := by
  cases gives with
  | literal scalar => exact rfl
  | copy found => exact Activation.succeeds_readValue found
  | load locates =>
      rw [Activation.evaluate, succeeds_bind_iff]
      refine ⟨_, _, Activation.succeeds_locate locates.viewed locates.points locates.inside,
        succeeds_bind_iff.mpr ⟨_, machine, ?_, succeeds_pure_iff.mpr ⟨rfl, rfl⟩⟩⟩
      simp [Run.readElement, locates.stored, Buffer.get?_eq_item locates.room]
  | binary leftFound rightFound computed =>
      rw [Activation.evaluate, succeeds_bind_iff]
      refine ⟨_, _, Activation.succeeds_readValue leftFound, succeeds_bind_iff.mpr ?_⟩
      exact ⟨_, _, Activation.succeeds_readValue rightFound, by simp [computed]⟩
  | compare leftFound rightFound computed =>
      rw [Activation.evaluate, succeeds_bind_iff]
      refine ⟨_, _, Activation.succeeds_readValue leftFound, succeeds_bind_iff.mpr ?_⟩
      exact ⟨_, _, Activation.succeeds_readValue rightFound, by simp [computed]⟩

end Expressions

/-! ## Instructions -/

/-- A buffer fits a parameter that is passed as a window of it. -/
def View.Fits (view : View) (heap : Array Buffer) (parameter : Parameter) : Prop :=
  ∃ buffer, heap[view.slot]? = some buffer ∧ buffer.type = parameter.type ∧
    view.length = parameter.length ∧ view.offset + view.length ≤ buffer.size

/-- The calls of an activation run to their end and give back the variables, unless the host makes
them fail. -/
def Activation.Answers (activation : Activation) (declared : Declarations) : Prop :=
  ∀ name parameters, declared.callees name parameters → ∀ (before : Machine) (passed : List View),
    List.Forall₂ (fun parameter view => view.Fits before.heap parameter) parameters passed →
      Behaves activation.host (activation.call name passed) before fun after =>
        before.Alike after ∧ after.registers = before.registers

section Instructions

variable {declared : Declarations} {activation : Activation} {counters : Counters}
  {known : Set ValueId} {machine : Machine}

theorem Machine.Gives.succeeds_assign {target : ValueId} {expression : Expression} {scalar : Scalar}
    (gives : machine.Gives activation.views expression scalar) :
    Succeeds (activation.execute (.assign target expression)) machine ()
      (machine.write target scalar) := by
  rw [Activation.execute, succeeds_bind_iff]
  exact ⟨_, machine, gives.succeeds, rfl⟩

/-- A store that is safe writes an element of its type. -/
theorem Machine.Suits.exists_store (suits : machine.Suits declared activation.views counters known)
    {array : ArrayId} {position : Position} {value : ValueId} {type : ScalarType}
    (covers : declared.Covers counters array position type)
    (knows : declared.Knows known value type) :
    ∃ view buffer element scalar, machine.registers[value]? = some (some (.scalar scalar)) ∧
      scalar.type = type ∧ buffer.type = type ∧
      machine.Locates activation.views array position view buffer element ∧
      Succeeds (activation.execute (.store array position value)) machine ()
        { machine with
          heap := machine.heap.modify view.slot (·.set (view.offset + element) scalar) } := by
  obtain ⟨view, buffer, element, locates, typed⟩ := suits.exists_element covers
  obtain ⟨scalar, found, scalarType⟩ := suits.exists_scalar knows
  have accepts : buffer.accepts (view.offset + element) scalar := by
    simp [Buffer.accepts, scalarType, typed, locates.room]
  refine ⟨view, buffer, element, scalar, found, scalarType, typed, locates, ?_⟩
  simp only [Activation.execute, succeeds_bind_iff]
  refine ⟨_, _, Activation.succeeds_locate locates.viewed locates.points locates.inside, _, _,
    Activation.succeeds_readScalar found, ?_⟩
  simp [Run.writeElement, locates.stored, accepts]

theorem Machine.alike_set (machine : Machine) (slot element : Nat) (scalar : Scalar) :
    machine.Alike { machine with heap := machine.heap.modify slot (·.set element scalar) } := by
  refine ⟨rfl, by simp, fun other buffer found => ?_⟩
  by_cases same : slot = other
  · exact ⟨buffer.set element scalar, by simp [Array.getElem?_modify, same, found],
      Buffer.type_set _ _ _, Buffer.size_set _ _ _⟩
  · exact ⟨buffer, by simp [Array.getElem?_modify, same, found], rfl, rfl⟩

/-- A window that is handed to the host can be read. -/
theorem Machine.Suits.exists_hostValue (suits : machine.Suits declared activation.views counters known)
    {window : ArrayRef} (contains : declared.Contains window) :
    ∃ passed buffer part, Passes activation.views window passed ∧
      machine.heap[passed.slot]? = some buffer ∧ buffer.type = window.type ∧
      passed.offset + passed.length ≤ buffer.size ∧
      buffer.slice? passed.offset (passed.offset + passed.length) = some part ∧
      Succeeds ([Argument.window window.array window.offset window.length].mapM
        activation.hostValue) machine [.array part] machine := by
  obtain ⟨passed, buffer, passes, stored, typed, room⟩ := suits.exists_passes contains
  obtain ⟨part, sliced, _⟩ := buffer.exists_slice? (Nat.le_add_right passed.offset passed.length) room
  have read : Succeeds (Run.readWindow passed) machine part machine := by
    simp [Run.readWindow, stored, sliced]
  have value : Succeeds
      (activation.hostValue (.window window.array window.offset window.length)) machine (.array part)
      machine := by
    rw [Activation.hostValue, succeeds_bind_iff]
    exact ⟨_, _, passes.succeeds_window, succeeds_map_iff.mpr ⟨part, read, rfl⟩⟩
  refine ⟨passed, buffer, part, passes, stored, typed, room, sliced, ?_⟩
  simp only [List.mapM_cons, List.mapM_nil, succeeds_bind_iff]
  exact ⟨_, _, value, _, _, rfl, rfl⟩

theorem behaves_callHost {host : Host} {name : String} {values : List HostValue} :
    Behaves host (Run.callHost host name values) machine fun after =>
      after.registers = machine.registers ∧ after.heap = machine.heap := by
  unfold Behaves
  rw [Activation.outcome_callHost]
  cases found : host.function? name with
  | none => exact .unknown found
  | some function =>
      cases panics : function.panics with
      | true => simpa [panics] using Host.Raises.panic found panics
      | false => simp [panics]

/-- Windows that fit the parameters of a routine are passed to it. -/
theorem Machine.Suits.exists_windows (suits : machine.Suits declared activation.views counters known)
    {parameters : List Parameter} {windows : List ArrayRef} (callee : String)
    (fits : List.Forall₂ (fun (parameter : Parameter) (window : ArrayRef) =>
      parameter.type = window.type ∧ parameter.length = window.length) parameters windows)
    (contains : ∀ window ∈ windows, declared.Contains window) :
    ∃ passed, List.Forall₂ (Passes activation.views) windows passed ∧
      List.Forall₂ (fun parameter view => View.Fits view machine.heap parameter) parameters passed ∧
      Succeeds (activation.windows callee 0
        (windows.map fun window => .window window.array window.offset window.length)) machine passed
        machine := by
  have each : ∃ passed, List.Forall₂ (Passes activation.views) windows passed ∧
      List.Forall₂ (fun parameter view => View.Fits view machine.heap parameter) parameters
        passed := by
    induction fits with
    | nil => exact ⟨[], .nil, .nil⟩
    | @cons parameter window parameters windows fit _ ih =>
        obtain ⟨inside, others⟩ := List.forall_mem_cons.mp contains
        obtain ⟨passed, passes, fitted⟩ := ih others
        obtain ⟨view, buffer, pass, stored, typed, room⟩ := suits.exists_passes inside
        exact ⟨view :: passed, .cons pass passes,
          .cons ⟨buffer, stored, typed.trans fit.1.symm, pass.length_eq.trans fit.2.symm, room⟩
            fitted⟩
  obtain ⟨passed, passes, fitted⟩ := each
  exact ⟨passed, passes, fitted, Activation.succeeds_windows passes⟩

/-- A loop behaves as its turns do.  The induction is on the number of turns that are left. -/
theorem behaves_forRange {host : Host} {body : Nat → Run Unit} {goal : Machine → Prop}
    {first count : Nat} (start : goal machine)
    (turn : ∀ index between, index < first + count → goal between →
      Behaves host (body index) between goal) :
    Behaves host (Activation.forRange body first count) machine goal := by
  induction count generalizing first machine with
  | zero => exact .of_succeeds rfl start
  | succ count ih =>
      rw [Activation.forRange]
      refine (turn first machine (by omega) start).bind fun between reached => ?_
      exact ih reached fun index later below => turn index later (by omega)

end Instructions

/-! ## Bodies -/

/-- Safe code on a machine that suits it leaves a machine that suits what follows, unless the host
makes it fail.  The induction is on the rules of safe code, with one case for each instruction. -/
theorem Declarations.Safe.behaves {declared : Declarations} {counters : Counters}
    {known after : Set ValueId} {code : List Instruction} {activation : Activation} {machine : Machine}
    (safe : declared.Safe counters known code after) (answers : activation.Answers declared)
    (suits : machine.Suits declared activation.views counters known) :
    Behaves activation.host (activation.executeBody code) machine fun later =>
      machine.Alike later ∧ later.Suits declared activation.views counters after := by
  induction safe generalizing machine with
  | nil subset => exact .of_succeeds rfl ⟨.refl machine, suits.mono subset⟩
  | @assign counters known _ target expression type rest yields declares free _ ih =>
      obtain ⟨scalar, gives, rfl⟩ := yields.exists_value suits
      rw [Activation.executeBody]
      refine behaves_bind_of_succeeds gives.succeeds_assign ?_
      refine (ih (suits.write declares free)).mono fun later left => ?_
      exact ⟨(machine.alike_write target scalar).trans left.1, left.2⟩
  | store covers knows _ ih =>
      obtain ⟨view, _, element, scalar, _, _, _, _, ran⟩ := suits.exists_store covers knows
      have alike := machine.alike_set view.slot (view.offset + element) scalar
      rw [Activation.executeBody]
      refine behaves_bind_of_succeeds ran ?_
      exact (ih (suits.of_alike alike rfl)).mono fun later left => ⟨alike.trans left.1, left.2⟩
  | @loop counters known _ counter stop body rest counts free _ _ _ turn ih =>
      have looped : Behaves activation.host (activation.execute (.loop counter 0 stop body)) machine
          fun later => machine.Alike later ∧ later.Suits declared activation.views counters known := by
        rw [Activation.execute]
        refine behaves_forRange ⟨.refl machine, suits⟩ fun index between below reached => ?_
        obtain ⟨alike, suited⟩ := reached
        have counted := suited.count counts free (by simpa using below)
        have wrote : Succeeds (Run.writeValue counter (.index index)) between ()
            (between.write counter (.index index)) := rfl
        refine behaves_bind_of_succeeds wrote ?_
        refine (turn counted).mono fun later left => ⟨?_, left.2.drop⟩
        exact alike.trans ((between.alike_write counter _).trans left.1)
      rw [Activation.executeBody]
      refine looped.bind fun between reached => ?_
      exact (ih reached.2).mono fun later left => ⟨reached.1.trans left.1, left.2⟩
  | @branch counters known _ condition body rest knows _ _ taken ih =>
      have branched : Behaves activation.host (activation.execute (.branch condition body)) machine
          fun later => machine.Alike later ∧ later.Suits declared activation.views counters known := by
        obtain ⟨scalar, found, typed⟩ := suits.exists_scalar knows
        rw [Activation.execute]
        refine behaves_bind_of_succeeds (Activation.succeeds_readValue found) ?_
        cases scalar with
        | bool trigger =>
            cases trigger with
            | true => exact taken suits
            | false => exact .of_succeeds rfl ⟨.refl machine, suits⟩
        | f32 | f64 => cases typed
      rw [Activation.executeBody]
      refine branched.bind fun between reached => ?_
      exact (ih reached.2).mono fun later left => ⟨reached.1.trans left.1, left.2⟩
  | @host counters known _ name window rest contains _ ih =>
      obtain ⟨_, _, _, _, _, _, _, _, read⟩ := suits.exists_hostValue contains
      have called : Behaves activation.host (activation.execute (.call (.host name)
          [.window window.array window.offset window.length])) machine fun later =>
            later.registers = machine.registers ∧ later.heap = machine.heap := by
        rw [Activation.execute]
        exact behaves_bind_of_succeeds read behaves_callHost
      rw [Activation.executeBody]
      refine called.bind fun between unchanged => ?_
      obtain ⟨registers, heap⟩ := unchanged
      have alike : machine.Alike between :=
        ⟨congrArg Array.size registers, congrArg Array.size heap,
          fun _ buffer found => ⟨buffer, heap ▸ found, rfl, rfl⟩⟩
      exact (ih (suits.of_alike alike registers)).mono fun later left =>
        ⟨alike.trans left.1, left.2⟩
  | @routine counters known _ name parameters windows rest callee fits contains _ ih =>
      obtain ⟨passed, _, fitted, read⟩ := suits.exists_windows name fits contains
      have called : Behaves activation.host (activation.execute (.call (.routine name)
          (windows.map fun window => .window window.array window.offset window.length))) machine
            fun later => machine.Alike later ∧ later.registers = machine.registers := by
        rw [Activation.execute]
        exact behaves_bind_of_succeeds read (answers name parameters callee machine passed fitted)
      rw [Activation.executeBody]
      refine called.bind fun between reached => ?_
      obtain ⟨alike, registers⟩ := reached
      exact (ih (suits.of_alike alike registers)).mono fun later left =>
        ⟨alike.trans left.1, left.2⟩

/-! ## Calls -/

/-- What the code of a routine refers to, if it can call some routines. -/
def Routine.declarations (routine : Routine) (callees : String → List Parameter → Prop) :
    Declarations :=
  ⟨routine.valueTypes, routine.arrays, callees⟩

/-- A routine whose parameters come first among its arrays, and whose code is safe. -/
structure Routine.Safe (routine : Routine) (callees : String → List Parameter → Prop) : Prop where
  parameters : ∀ (index : Nat) (parameter : Parameter),
    routine.parameters[index]? = some parameter →
      routine.arrays[index]? = some (.parameter parameter.type parameter.length)
  body : (routine.declarations callees).Safe [] ∅ routine.body ∅

section Calls

variable {program : Program} {host : Host} {depth : Nat} {name : String} {routine : Routine}
  {passed : List View} {before after : Machine} {callees : String → List Parameter → Prop}

/-- The local arrays of a routine follow its parameters. -/
theorem Routine.locals_getElem? (routine : Routine) (index : Nat) :
    routine.locals[index]? = routine.arrays[routine.parameters.length + index]? := by
  rw [locals, List.getElem?_drop, Array.getElem?_toList]

/-- The views of a routine show its local arrays behind the heap of its caller. -/
theorem Routine.view_local {declaration : ArrayDeclaration} {array : Nat} (base : Nat)
    (count : routine.parameters.length = passed.length) (beyond : passed.length ≤ array)
    (declared : routine.arrays[array]? = some declaration) :
    (passed ++ viewsFrom base routine.locals)[array]? =
      some ⟨base + (array - passed.length), 0, declaration.length⟩ := by
  have own : routine.locals[array - passed.length]? = some declaration := by
    rw [routine.locals_getElem?, count, Nat.add_sub_cancel' beyond, declared]
  rw [List.getElem?_append_right beyond, viewsFrom, List.getElem?_mapIdx, own, Option.map_some]

/-- The local arrays of a routine start with their contents. -/
theorem Machine.heap_enter_local {declaration : ArrayDeclaration} {array : Nat}
    (count : routine.parameters.length = passed.length) (beyond : passed.length ≤ array)
    (declared : routine.arrays[array]? = some declaration) :
    (before.enter routine).heap[before.heap.size + (array - passed.length)]? =
      some declaration.contents := by
  have own : routine.locals[array - passed.length]? = some declaration := by
    rw [routine.locals_getElem?, count, Nat.add_sub_cancel' beyond, declared]
  rw [enter, Array.getElem?_append_right (Nat.le_add_right _ _), Nat.add_sub_cancel_left,
    List.getElem?_toArray, List.getElem?_map, own, Option.map_some]

/-- The machine on which a routine starts suits its code. -/
theorem Routine.Safe.suits_enter (safe : routine.Safe callees)
    (fits : List.Forall₂ (fun parameter view => View.Fits view before.heap parameter)
      routine.parameters passed) :
    (before.enter routine).Suits (routine.declarations callees)
      (passed ++ viewsFrom before.heap.size routine.locals).toArray [] ∅ where
  registers := by simp [Machine.enter, declarations]
  known := by simp
  counters := by simp
  arrays array declaration declared := by
    have count : routine.parameters.length = passed.length := fits.length_eq
    simp only [declarations] at declared
    rcases Nat.lt_or_ge array passed.length with inside | beyond
    · obtain ⟨parameter, view, parameterAt, viewAt, buffer, stored, typed, length, room⟩ :
          ∃ parameter view, routine.parameters[array]? = some parameter ∧
            passed[array]? = some view ∧ View.Fits view before.heap parameter :=
        ⟨_, _, List.getElem?_eq_getElem (count ▸ inside), List.getElem?_eq_getElem inside,
          fits.get (count ▸ inside) inside⟩
      obtain rfl := Option.some.inj (declared.symm.trans (safe.parameters array parameter parameterAt))
      obtain ⟨bound, _⟩ := Array.getElem?_eq_some_iff.mp stored
      refine ⟨view.slot, view, buffer, ?_, rfl, length, ?_, typed, room⟩
      · rw [List.getElem?_toArray, List.getElem?_append_left inside, viewAt]
      · rw [Machine.enter, Array.getElem?_append_left bound, stored]
    · exact ⟨_, _, declaration.contents,
        List.getElem?_toArray.trans (routine.view_local _ count beyond declared), rfl, rfl,
        Machine.heap_enter_local count beyond declared, declaration.type_contents,
        by rw [declaration.size_contents, Nat.zero_add]⟩

/-- What a routine leaves is like what its caller had. -/
theorem Machine.Alike.leave (alike : (before.enter routine).Alike after) :
    before.Alike (after.leave before) := by
  have size : before.heap.size ≤ after.heap.size := by
    rw [alike.size_heap]
    simp [enter]
  refine ⟨rfl, by simpa [Machine.leave] using size, fun slot buffer found => ?_⟩
  obtain ⟨bound, _⟩ := Array.getElem?_eq_some_iff.mp found
  have entered : (before.enter routine).heap[slot]? = some buffer := by
    rw [enter, Array.getElem?_append_left bound, found]
  obtain ⟨changed, stored, typed, sized⟩ := alike.shapes slot buffer entered
  refine ⟨changed, ?_, typed, sized⟩
  obtain ⟨inside, rfl⟩ := Array.getElem?_eq_some_iff.mp stored
  simp [Machine.leave, bound, inside]

/-- Views that fit the parameters of a routine are accepted. -/
theorem View.accepts_of_fits (fits : List.Forall₂
    (fun parameter view => View.Fits view before.heap parameter) routine.parameters passed) :
    routine.Accepts before passed := by
  refine fits.imp fun parameter view ⟨buffer, stored, typed, length, _⟩ => ⟨length.symm, ?_⟩
  simp [stored, typed]

/-- A call of a safe routine runs to its end and gives back the variables of the caller, unless
the host makes it fail. -/
theorem Routine.Safe.behaves_call (safe : routine.Safe callees)
    (found : program.routine? name = some routine)
    (answers : (program.activation host depth routine passed before.heap.size).Answers
      (routine.declarations callees))
    (fits : List.Forall₂ (fun parameter view => View.Fits view before.heap parameter)
      routine.parameters passed) :
    Behaves host (program.call host (depth + 1) name passed) before fun after =>
      before.Alike after ∧ after.registers = before.registers := by
  have accepts := View.accepts_of_fits fits
  have ran := safe.body.behaves answers (safe.suits_enter fits)
  unfold Behaves at ran ⊢
  rw [Program.outcome_call found accepts]
  rcases done : outcome ((program.activation host depth routine passed before.heap.size).executeBody
    routine.body) (before.enter routine) with ⟨error | ⟨⟩, later⟩
  · rw [done] at ran
    exact ran
  · rw [done] at ran
    exact ⟨ran.1.leave, rfl⟩

/-- The routines of a program that are safe and call no others. -/
def Program.leaves (program : Program) (name : String) (parameters : List Parameter) : Prop :=
  ∃ routine, program.routine? name = some routine ∧ routine.parameters = parameters ∧
    routine.Safe fun _ _ => False

theorem Program.answers_leaves {views : Array View} {values : Array ValueType}
    {arrays : Array ArrayDeclaration} :
    Activation.Answers ⟨host, views, program.call host (depth + 1)⟩
      ⟨values, arrays, program.leaves⟩ := by
  rintro name parameters ⟨routine, found, rfl, safe⟩ before passed fits
  exact safe.behaves_call found (fun _ _ impossible => impossible.elim) fits

end Calls

end Dataflow
