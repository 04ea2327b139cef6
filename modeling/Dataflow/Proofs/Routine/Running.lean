import Dataflow.Proofs.Actions
import Dataflow.Proofs.Scalar.Sameness
import Dataflow.Routine.Execution

/-!
# What instructions do

A cell of an array holds a value when reading it gives that value, where all undefined
floats count as one.  An instruction writes one variable or one cell and keeps everything
else; code reaches a goal by steps that each keep what the earlier ones have reached.
-/

namespace Dataflow

/-! ## Cells and variables -/

/-- A position of an array, in a slot that may be read, holds a value. -/
def Holds (views : Array View) (heap : Array Buffer) (readable : Nat → Prop) (array : ArrayId)
    (position : Nat) (value : Scalar) : Prop :=
  ∃ view buffer scalar, views[array]? = some view ∧ position < view.length ∧ readable view.slot ∧
    heap[view.slot]? = some buffer ∧ buffer.get? (view.offset + position) = some scalar ∧
    scalar.Same value

/-- A variable of a machine has a value. -/
def Machine.Has (machine : Machine) (value : ValueId) (scalar : Scalar) : Prop :=
  ∃ found, machine.registers[value]? = some (some (.scalar found)) ∧ found.Same scalar

/-- A position stands for an element. -/
def Machine.Points (machine : Machine) (element : Nat) : Position → Prop
  | .fixed position => position = element
  | .indexed value offset =>
      ∃ index, machine.registers[value]? = some (some (.index index)) ∧ index + offset = element

/-- Running code keeps the calls, the variables below a number, the buffers in some slots,
and the type and size of every buffer. -/
structure Machine.Frame (values : Nat) (kept : Nat → Prop) (before after : Machine) : Prop where
  calls_eq : after.calls = before.calls
  size_registers : after.registers.size = before.registers.size
  registers : ∀ value < values, after.registers[value]? = before.registers[value]?
  size_heap : after.heap.size = before.heap.size
  heap : ∀ slot, kept slot → after.heap[slot]? = before.heap[slot]?
  shapes : ∀ (slot : Nat) (buffer : Buffer), before.heap[slot]? = some buffer →
    ∃ changed : Buffer, after.heap[slot]? = some changed ∧ changed.type = buffer.type ∧
      changed.size = buffer.size

section Frames

variable {values : Nat} {kept : Nat → Prop} {before between after : Machine}

theorem Machine.Frame.refl (values : Nat) (kept : Nat → Prop) (machine : Machine) :
    machine.Frame values kept machine :=
  ⟨rfl, rfl, fun _ _ => rfl, rfl, fun _ _ => rfl, fun _ buffer found => ⟨buffer, found, rfl, rfl⟩⟩

theorem Machine.Frame.trans (first : before.Frame values kept between)
    (second : between.Frame values kept after) : before.Frame values kept after where
  calls_eq := second.calls_eq.trans first.calls_eq
  size_registers := second.size_registers.trans first.size_registers
  registers value below := (second.registers value below).trans (first.registers value below)
  size_heap := second.size_heap.trans first.size_heap
  heap slot keeps := (second.heap slot keeps).trans (first.heap slot keeps)
  shapes slot buffer found := by
    obtain ⟨middle, middleFound, middleType, middleSize⟩ := first.shapes slot buffer found
    obtain ⟨last, lastFound, lastType, lastSize⟩ := second.shapes slot middle middleFound
    exact ⟨last, lastFound, lastType.trans middleType, lastSize.trans middleSize⟩

theorem Machine.Frame.mono {fewer : Nat} {less : Nat → Prop} (frame : before.Frame values kept after)
    (below : fewer ≤ values) (keeps : ∀ slot, less slot → kept slot) :
    before.Frame fewer less after :=
  { frame with
    registers := fun value small => frame.registers value (Nat.lt_of_lt_of_le small below)
    heap := fun slot part => frame.heap slot (keeps slot part) }

theorem Machine.Has.frame {value : ValueId} {scalar : Scalar} (has : before.Has value scalar)
    (frame : before.Frame values kept after) (below : value < values) : after.Has value scalar := by
  obtain ⟨found, read, same⟩ := has
  exact ⟨found, (frame.registers value below).trans read, same⟩

theorem Machine.Has.of_same {value : ValueId} {scalar other : Scalar} (has : before.Has value scalar)
    (same : scalar.Same other) : before.Has value other := by
  obtain ⟨found, read, sameFound⟩ := has
  exact ⟨found, read, sameFound.trans same⟩

variable {views : Array View} {readable : Nat → Prop} {array : ArrayId} {position : Nat}
  {value : Scalar}

theorem Holds.frame (holds : Holds views before.heap readable array position value)
    (frame : before.Frame values kept after) (keeps : ∀ slot, readable slot → kept slot) :
    Holds views after.heap readable array position value := by
  obtain ⟨view, buffer, scalar, viewed, inside, read, found, got, same⟩ := holds
  exact ⟨view, buffer, scalar, viewed, inside, read, (frame.heap _ (keeps _ read)).trans found, got,
    same⟩

theorem Holds.mono {more : Nat → Prop} {heap : Array Buffer}
    (holds : Holds views heap readable array position value)
    (includes : ∀ slot, readable slot → more slot) : Holds views heap more array position value := by
  obtain ⟨view, buffer, scalar, viewed, inside, read, rest⟩ := holds
  exact ⟨view, buffer, scalar, viewed, inside, includes _ read, rest⟩

end Frames

/-! ## Running code -/

/-- Code runs from one machine to another. -/
def Activation.Runs (activation : Activation) (code : List Instruction) (before after : Machine) :
    Prop :=
  Succeeds (activation.executeBody code) before () after

/-- Code reaches a goal, within a frame. -/
def Activation.Reaches (activation : Activation) (code : List Instruction) (values : Nat)
    (kept : Nat → Prop) (before : Machine) (goal : Machine → Prop) : Prop :=
  ∃ after, activation.Runs code before after ∧ before.Frame values kept after ∧ goal after

namespace Activation

variable {activation : Activation} {values : Nat} {kept : Nat → Prop} {before after : Machine}

@[simp]
theorem runs_nil_iff : activation.Runs [] before after ↔ after = before := by
  simp [Runs, executeBody]

theorem runs_cons_iff {instruction : Instruction} {rest : List Instruction} :
    activation.Runs (instruction :: rest) before after ↔
      ∃ between, Succeeds (activation.execute instruction) before () between ∧
        activation.Runs rest between after := by
  simp only [Runs, executeBody, succeeds_bind_iff]
  constructor
  · rintro ⟨⟨⟩, between, first, others⟩
    exact ⟨between, first, others⟩
  · rintro ⟨between, first, others⟩
    exact ⟨(), between, first, others⟩

theorem runs_singleton_iff {instruction : Instruction} :
    activation.Runs [instruction] before after ↔
      Succeeds (activation.execute instruction) before () after := by
  simp [runs_cons_iff]

theorem runs_append_iff {code rest : List Instruction} :
    activation.Runs (code ++ rest) before after ↔
      ∃ between, activation.Runs code before between ∧ activation.Runs rest between after := by
  induction code generalizing before with
  | nil => simp
  | cons instruction code ih =>
      simp only [List.cons_append, runs_cons_iff, ih]
      constructor
      · rintro ⟨first, started, between, ran, others⟩
        exact ⟨between, ⟨first, started, ran⟩, others⟩
      · rintro ⟨between, ⟨first, started, ran⟩, others⟩
        exact ⟨first, started, between, ran, others⟩

/-- Code that follows other code continues where that ended, unless it failed. -/
theorem outcome_executeBody_append (code rest : List Instruction) (before : Machine) :
    outcome (activation.executeBody (code ++ rest)) before =
      match outcome (activation.executeBody code) before with
      | (.ok (), between) => outcome (activation.executeBody rest) between
      | (.error error, between) => (.error error, between) := by
  induction code generalizing before with
  | nil => rfl
  | cons instruction code ih =>
      rw [List.cons_append, executeBody, executeBody, outcome_bind, outcome_bind]
      rcases outcome (activation.execute instruction) before with ⟨_ | ⟨⟩, between⟩
      · rfl
      · exact ih between

namespace Reaches

variable {goal : Machine → Prop} {code : List Instruction}

theorem nil (reached : goal before) : activation.Reaches [] values kept before goal :=
  ⟨before, runs_nil_iff.mpr rfl, .refl _ _ _, reached⟩

/-- Two pieces of code, where the second continues from what the first has reached. -/
theorem append {more : Machine → Prop} {rest : List Instruction}
    (first : activation.Reaches code values kept before goal)
    (second : ∀ between, before.Frame values kept between → goal between →
      activation.Reaches rest values kept between more) :
    activation.Reaches (code ++ rest) values kept before more := by
  obtain ⟨between, ran, frame, reached⟩ := first
  obtain ⟨after, others, otherFrame, done⟩ := second between frame reached
  exact ⟨after, runs_append_iff.mpr ⟨between, ran, others⟩, frame.trans otherFrame, done⟩

/-- Code that leaves all buffers alone, and code that continues from what it has reached. -/
theorem read_append {more : Machine → Prop} {rest : List Instruction}
    (first : activation.Reaches code values (fun _ => True) before goal)
    (second : ∀ between, before.Frame values (fun _ => True) between → goal between →
      activation.Reaches rest values kept between more) :
    activation.Reaches (code ++ rest) values kept before more := by
  obtain ⟨between, ran, frame, reached⟩ := first
  obtain ⟨after, others, otherFrame, done⟩ := second between frame reached
  exact ⟨after, runs_append_iff.mpr ⟨between, ran, others⟩,
    (frame.mono (Nat.le_refl _) fun _ _ => trivial).trans otherFrame, done⟩

theorem mono {fewer : Nat} {less : Nat → Prop} {weaker : Machine → Prop}
    (reaches : activation.Reaches code values kept before goal) (below : fewer ≤ values)
    (keeps : ∀ slot, less slot → kept slot)
    (implies : ∀ after, before.Frame values kept after → goal after → weaker after) :
    activation.Reaches code fewer less before weaker := by
  obtain ⟨after, ran, frame, reached⟩ := reaches
  exact ⟨after, ran, frame.mono below keeps, implies after frame reached⟩

end Reaches

/-! ## Variables -/

theorem succeeds_readValue {value : ValueId} {literal : Literal}
    (found : before.registers[value]? = some (some literal)) :
    Succeeds (Run.readValue value) before literal before := by
  simp [Run.readValue, found]

theorem succeeds_readScalar {value : ValueId} {scalar : Scalar}
    (found : before.registers[value]? = some (some (.scalar scalar))) :
    Succeeds (Run.readScalar value) before scalar before := by
  rw [Run.readScalar, succeeds_bind_iff]
  exact ⟨_, _, succeeds_readValue found, rfl⟩

/-- An assignment writes its variable. -/
theorem succeeds_assign {target : ValueId} {expression : Expression} {literal : Literal}
    (evaluated : Succeeds (activation.evaluate expression) before literal before)
    (inside : target < before.registers.size) :
    ∃ after, Succeeds (activation.execute (.assign target expression)) before () after ∧
      (∀ kept, before.Frame target kept after) ∧
      after.registers[target]? = some (some literal) := by
  refine ⟨{ before with registers := before.registers.setIfInBounds target (some literal) }, ?_,
    fun kept => ⟨rfl, by simp, ?_, rfl, fun _ _ => rfl, ?_⟩, ?_⟩
  · rw [execute, succeeds_bind_iff]
    exact ⟨literal, before, evaluated, rfl⟩
  · intro value below
    simp [Array.getElem?_setIfInBounds_ne (Nat.ne_of_gt below)]
  · exact fun _ buffer found => ⟨buffer, found, rfl, rfl⟩
  · simp [inside]

/-- An assignment of a scalar. -/
theorem reaches_assign {target : ValueId} {expression : Expression} {scalar value : Scalar}
    (evaluated : Succeeds (activation.evaluate expression) before (.scalar scalar) before)
    (same : scalar.Same value) (inside : target < before.registers.size) :
    activation.Reaches [.assign target expression] target kept before (·.Has target value) := by
  obtain ⟨after, ran, frame, written⟩ := succeeds_assign evaluated inside
  exact ⟨after, runs_singleton_iff.mpr ran, frame kept, scalar, written, same⟩

/-! ## Expressions -/

theorem literal_evaluates (activation : Activation) (machine : Machine) (literal : Literal) :
    Succeeds (activation.evaluate (.literal literal)) machine literal machine :=
  rfl

theorem reaches_literal {target : ValueId} {scalar : Scalar}
    (inside : target < before.registers.size) :
    activation.Reaches [.assign target (.literal scalar)] target kept before
      (·.Has target scalar) :=
  reaches_assign (literal_evaluates _ _ _) (.refl scalar) inside

theorem reaches_copy {target source : ValueId} {value : Scalar} (has : before.Has source value)
    (inside : target < before.registers.size) :
    activation.Reaches [.assign target (.copy source)] target kept before (·.Has target value) := by
  obtain ⟨scalar, found, same⟩ := has
  exact reaches_assign (succeeds_readValue found) same inside

/-- Finding an element of an array. -/
theorem succeeds_locate {views : Array View} {array : ArrayId} {position : Position} {view : View}
    {element : Nat} (viewed : views[array]? = some view) (points : before.Points element position)
    (inside : element < view.length) :
    Succeeds (Run.locate views array position) before (view.slot, view.offset + element) before := by
  have found : Succeeds (Run.view views array) before view before := by
    simp [Run.view, viewed]
  rw [Run.locate, succeeds_bind_iff]
  refine ⟨view, before, found, ?_⟩
  cases position with
  | fixed position =>
      obtain rfl : position = element := points
      simp [inside]
  | indexed value offset =>
      obtain ⟨index, read, rfl⟩ := points
      have indexed : Succeeds (Run.readIndex value) before index before := by
        rw [Run.readIndex, succeeds_bind_iff]
        exact ⟨_, _, succeeds_readValue read, rfl⟩
      simp only [succeeds_bind_iff, succeeds_map_iff]
      refine ⟨index + offset, before, ⟨index, indexed, rfl⟩, ?_⟩
      simp [inside]

theorem reaches_load {readable : Nat → Prop} {target : ValueId} {array : ArrayId}
    {position : Position} {element : Nat} {value : Scalar}
    (holds : Holds activation.views before.heap readable array element value)
    (points : before.Points element position) (inside : target < before.registers.size) :
    activation.Reaches [.assign target (.load array position)] target kept before
      (·.Has target value) := by
  obtain ⟨view, buffer, scalar, viewed, bound, _, found, got, same⟩ := holds
  refine reaches_assign ?_ same inside
  rw [evaluate, succeeds_bind_iff]
  refine ⟨_, _, succeeds_locate viewed points bound, succeeds_bind_iff.mpr ?_⟩
  have read : Succeeds (Run.readElement view.slot (view.offset + element)) before scalar before := by
    simp [Run.readElement, found, got]
  exact ⟨scalar, before, read, rfl⟩

/-- A combination of two scalars that does not tell undefined floats apart. -/
def Respects (combine : Scalar → Scalar → Option Scalar) : Prop :=
  ∀ {left right left' right' value : Scalar}, left'.Same left → right'.Same right →
    combine left right = some value → ∃ value', combine left' right' = some value' ∧
      value'.Same value

theorem respects_binary (op : BinaryOp) : Respects op.onScalars? := by
  intro left right left' right' value leftSame rightSame defined
  cases leftSame with
  | bool => simp [BinaryOp.onScalars?] at defined
  | f32 leftSame =>
      cases rightSame with
      | f32 rightSame =>
          obtain rfl := Option.some.inj defined
          exact ⟨_, rfl, .f32 (@BinaryOp.apply_same op .f32 _ _ _ _ leftSame rightSame)⟩
      | _ => simp [BinaryOp.onScalars?] at defined
  | f64 leftSame =>
      cases rightSame with
      | f64 rightSame =>
          obtain rfl := Option.some.inj defined
          exact ⟨_, rfl, .f64 (@BinaryOp.apply_same op .f64 _ _ _ _ leftSame rightSame)⟩
      | _ => simp [BinaryOp.onScalars?] at defined

theorem respects_compare (predicate : Predicate) :
    Respects fun left right => (predicate.onScalars? left right).map .bool := by
  intro left right left' right' value leftSame rightSame defined
  simp only [Option.map_eq_some_iff] at defined ⊢
  obtain ⟨result, compared, rfl⟩ := defined
  refine ⟨.bool result, ⟨result, ?_, rfl⟩, .refl _⟩
  rw [← compared]
  cases leftSame with
  | bool =>
      cases rightSame with
      | bool => rfl
      | _ => rfl
  | f32 leftSame =>
      cases rightSame with
      | f32 rightSame =>
          exact congrArg some (@Predicate.apply_same predicate .f32 _ _ _ _ leftSame rightSame)
      | _ => rfl
  | f64 leftSame =>
      cases rightSame with
      | f64 rightSame =>
          exact congrArg some (@Predicate.apply_same predicate .f64 _ _ _ _ leftSame rightSame)
      | _ => rfl

theorem reaches_binary {op : BinaryOp} {target left right : ValueId}
    {leftValue rightValue value : Scalar} (leftHas : before.Has left leftValue)
    (rightHas : before.Has right rightValue) (defined : op.onScalars? leftValue rightValue = some value)
    (inside : target < before.registers.size) :
    activation.Reaches [.assign target (.binary op left right)] target kept before
      (·.Has target value) := by
  obtain ⟨leftFound, leftRead, leftSame⟩ := leftHas
  obtain ⟨rightFound, rightRead, rightSame⟩ := rightHas
  obtain ⟨result, computed, same⟩ := respects_binary op leftSame rightSame defined
  refine reaches_assign ?_ same inside
  rw [evaluate, succeeds_bind_iff]
  refine ⟨_, _, succeeds_readValue leftRead, succeeds_bind_iff.mpr ?_⟩
  exact ⟨_, _, succeeds_readValue rightRead, by simp [computed]⟩

theorem reaches_compare {predicate : Predicate} {target left right : ValueId}
    {leftValue rightValue value : Scalar} (leftHas : before.Has left leftValue)
    (rightHas : before.Has right rightValue)
    (defined : (predicate.onScalars? leftValue rightValue).map Scalar.bool = some value)
    (inside : target < before.registers.size) :
    activation.Reaches [.assign target (.compare predicate left right)] target kept before
      (·.Has target value) := by
  obtain ⟨leftFound, leftRead, leftSame⟩ := leftHas
  obtain ⟨rightFound, rightRead, rightSame⟩ := rightHas
  obtain ⟨result, computed, same⟩ := respects_compare predicate leftSame rightSame defined
  obtain ⟨compared, comparison, rfl⟩ := Option.map_eq_some_iff.mp computed
  refine reaches_assign ?_ same inside
  rw [evaluate, succeeds_bind_iff]
  refine ⟨_, _, succeeds_readValue leftRead, succeeds_bind_iff.mpr ?_⟩
  exact ⟨_, _, succeeds_readValue rightRead, by simp [comparison]⟩

end Activation

/-! ## Writing cells -/

/-- An array is a window of a slot whose buffer has the type and room for it. -/
def Backed (views : Array View) (heap : Array Buffer) (array : ArrayId) (slot : Nat)
    (type : ScalarType) (length : Nat) : Prop :=
  ∃ view buffer, views[array]? = some view ∧ view.slot = slot ∧ view.length = length ∧
    heap[slot]? = some buffer ∧ buffer.type = type ∧ view.offset + view.length ≤ buffer.size

theorem Backed.frame {values : Nat} {kept : Nat → Prop} {before after : Machine}
    {views : Array View} {array : ArrayId} {slot : Nat} {type : ScalarType} {length : Nat}
    (backed : Backed views before.heap array slot type length)
    (frame : before.Frame values kept after) : Backed views after.heap array slot type length := by
  obtain ⟨view, buffer, viewed, rfl, viewLength, found, typed, room⟩ := backed
  obtain ⟨changed, changedFound, changedType, changedSize⟩ := frame.shapes _ _ found
  exact ⟨view, changed, viewed, rfl, viewLength, changedFound, changedType.trans typed,
    changedSize ▸ room⟩

namespace Activation

variable {activation : Activation} {values : Nat} {kept : Nat → Prop} {before after : Machine}

/-- A store writes its cell and no other one. -/
theorem reaches_store {array : ArrayId} {slot : Nat} {type : ScalarType} {length element : Nat}
    {position : Position} {source : ValueId} {value : Scalar}
    (backed : Backed activation.views before.heap array slot type length)
    (typed : value.type = type) (inside : element < length) (points : before.Points element position)
    (has : before.Has source value) :
    activation.Reaches [.store array position source] values (· ≠ slot) before fun after =>
      Holds activation.views after.heap (· = slot) array element value ∧
        ∀ other old, other ≠ element →
          Holds activation.views before.heap (· = slot) array other old →
          Holds activation.views after.heap (· = slot) array other old := by
  obtain ⟨view, buffer, viewed, rfl, rfl, found, rfl, room⟩ := backed
  obtain ⟨scalar, read, same⟩ := has
  have position : view.offset + element < buffer.size :=
    Nat.lt_of_lt_of_le (Nat.add_lt_add_left inside _) room
  have accepts : buffer.accepts (view.offset + element) scalar := by
    simp [Buffer.accepts, same.type_eq.trans typed, position]
  have written : ∀ index, (buffer.set (view.offset + element) scalar).get? index =
      if index = view.offset + element then some scalar else buffer.get? index := by
    intro index
    simp only [Buffer.get?_set, accepts, and_true]
  refine ⟨{ before with
      heap := before.heap.modify view.slot (·.set (view.offset + element) scalar) },
    runs_singleton_iff.mpr ?_, ⟨rfl, rfl, fun _ _ => rfl, by simp, ?_, ?_⟩, ?_, ?_⟩
  · simp only [execute, succeeds_bind_iff]
    refine ⟨_, _, succeeds_locate viewed points inside, _, _, succeeds_readScalar read, ?_⟩
    simp [Run.writeElement, found, accepts]
  · intro other different
    simp [Array.getElem?_modify, Ne.symm different]
  · intro other otherBuffer otherFound
    by_cases here : other = view.slot
    · subst here
      obtain rfl := Option.some.inj (found.symm.trans otherFound)
      exact ⟨buffer.set (view.offset + element) scalar, by simp [Array.getElem?_modify, found],
        Buffer.type_set _ _ _, Buffer.size_set _ _ _⟩
    · exact ⟨otherBuffer, by simp [Array.getElem?_modify, Ne.symm here, otherFound], rfl, rfl⟩
  · exact ⟨view, _, scalar, viewed, inside, rfl, by simp [Array.getElem?_modify, found]; rfl,
      by simp [written], same⟩
  · rintro other old different ⟨otherView, otherBuffer, otherScalar, otherViewed, otherInside,
      otherSlot, otherFound, got, otherSame⟩
    obtain rfl := Option.some.inj (viewed.symm.trans otherViewed)
    obtain rfl := Option.some.inj (found.symm.trans otherFound)
    refine ⟨view, _, otherScalar, viewed, otherInside, rfl,
      by simp [Array.getElem?_modify, found]; rfl, ?_, otherSame⟩
    rw [written, if_neg (fun same => different (Nat.add_left_cancel same)), got]

/-! ## Loops -/

/-- The induction is on the number of values that are left. -/
theorem succeeds_forRange {body : Nat → Run Unit} (invariant : Nat → Machine → Prop)
    {first count : Nat} (start : invariant first before)
    (step : ∀ index machine, index < first + count → invariant index machine →
      ∃ after, Succeeds (body index) machine () after ∧ invariant (index + 1) after) :
    ∃ after, Succeeds (forRange body first count) before () after ∧
      invariant (first + count) after := by
  induction count generalizing first before with
  | zero => exact ⟨before, rfl, start⟩
  | succ count ih =>
      obtain ⟨between, ran, next⟩ := step first before (by omega) start
      obtain ⟨after, others, last⟩ := ih next fun index machine below =>
        step index machine (by omega)
      refine ⟨after, ?_, by rwa [show first + (count + 1) = first + 1 + count by omega]⟩
      rw [forRange, succeeds_bind_iff]
      exact ⟨(), between, ran, others⟩

/-- A loop reaches what its body keeps up, from one value of the counter to the next.  The
body may assign variables from a number on that is not above the counter. -/
theorem reaches_loop {counter count : Nat} {code : List Instruction}
    (invariant : Nat → Machine → Prop) (upTo : values ≤ counter)
    (inside : counter < before.registers.size) (start : invariant 0 before)
    (step : ∀ index machine entered, index < count → before.Frame values kept entered →
      invariant index machine → machine.Frame counter (fun _ => True) entered →
      entered.registers[counter]? = some (some (.index index)) →
      activation.Reaches code values kept entered (invariant (index + 1))) :
    activation.Reaches [.loop counter 0 count code] values kept before (invariant count) := by
  have looped : ∃ after,
      Succeeds (forRange
        (fun index => do
          Run.writeValue counter (.index index)
          activation.executeBody code) 0 count) before () after ∧
        before.Frame values kept after ∧ invariant (0 + count) after := by
    refine succeeds_forRange
      (fun index machine => before.Frame values kept machine ∧ invariant index machine)
      ⟨.refl _ _ _, start⟩ ?_
    rintro index machine below ⟨frame, holds⟩
    have bound : counter < machine.registers.size := frame.size_registers ▸ inside
    obtain ⟨entered, wrote, entering, counted⟩ :=
      succeeds_assign (literal_evaluates activation machine (.index index)) bound
    have framed := frame.trans ((entering kept).mono upTo fun _ keeps => keeps)
    obtain ⟨after, ran, inner, next⟩ :=
      step index machine entered (by omega) framed holds (entering _) counted
    refine ⟨after, succeeds_bind_iff.mpr ⟨(), entered, ?_, ran⟩, framed.trans inner, next⟩
    simpa [execute, evaluate] using wrote
  obtain ⟨after, ran, frame, reached⟩ := looped
  rw [Nat.zero_add] at reached
  exact ⟨after, runs_singleton_iff.mpr (by rw [execute]; exact ran), frame, reached⟩

end Activation

end Dataflow
