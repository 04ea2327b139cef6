import Dataflow.Proofs.Graph.Totals
import Dataflow.Proofs.Lowering.Elementwise

/-!
# Sums

A loop adds the elements of a group to zero, as the evaluator does.  Sums that are written
out start with the first element instead, as if it had been added to negative zero.  Both give the
same sum unless all elements are negative zeros.
-/

namespace Dataflow

/-- An item of a list as a scalar. -/
def RealType.item (type : RealType) (items : List type.Carrier) (index : Nat) : Scalar :=
  type.toScalar (items.getD index type.zero)

/-- The sum of a list, added from the left to a start. -/
def RealType.total (type : RealType) (start : type.Carrier) (items : List type.Carrier) : Scalar :=
  type.toScalar (items.foldl (· + ·) start)

theorem RealType.zero_toScalarType (type : RealType) :
    type.toScalarType.zero = type.toScalar type.zero := by
  cases type <;> rfl

/-- Adding one item after the other. -/
theorem RealType.add_item (type : RealType) (start : type.Carrier) {items : List type.Carrier}
    {index : Nat} (below : index < items.length) :
    BinaryOp.add.onScalars? (type.total start (items.take index)) (type.item items index) =
      some (type.total start (items.take (index + 1))) := by
  rw [total, item, BinaryOp.onScalars?_toScalar, total, List.take_add_one,
    List.getElem?_eq_getElem below, Option.toList_some, List.foldl_append, List.foldl_cons,
    List.foldl_nil, List.getD_eq_getElem _ _ below]
  rfl

/-- Loading an item and adding it to the sum of those before it. -/
theorem reaches_added {activation : Activation} {machine : Machine} {readable : Nat → Prop}
    {type : RealType} {items : List type.Carrier} {start : type.Carrier} {total value : ValueId}
    {array : ArrayId} {position : Position} {place index : Nat} (earlier : total < value)
    (room : value + 1 < machine.registers.size) (below : index < items.length)
    (holds : Holds activation.views machine.heap readable array place (type.item items index))
    (points : machine.Points place position)
    (has : machine.Has total (type.total start (items.take index))) :
    activation.Reaches
      [.assign value (.load array position), .assign (value + 1) (.binary .add total value)] value
      (fun _ => True) machine (·.Has (value + 1) (type.total start (items.take (index + 1)))) := by
  have loaded : activation.Reaches [.assign value (.load array position)] value (fun _ => True)
      machine fun later => later.Has total (type.total start (items.take index)) ∧
        later.Has value (type.item items index) :=
    (Activation.reaches_load holds points (Nat.lt_of_succ_lt room)).mono (Nat.le_refl _)
      (fun _ _ => trivial) fun later frame itemHas => ⟨has.frame frame earlier, itemHas⟩
  refine loaded.append fun one frame both => ?_
  exact (Activation.reaches_binary both.1 both.2 (type.add_item start below)
    (frame.size_registers ▸ room)).mono (Nat.le_succ _) (fun _ _ => trivial) fun _ _ sum => sum

namespace Site

variable {site : Site} {before after : Builder × Lowering}

/-- An input of the site holds items, which are not all negative zeros. -/
structure Summand (site : Site) (scope : Scope) (views : Array View) (heap : Array Buffer)
    (readable : Nat → Prop) (type : RealType) (index : Nat) (items : List type.Carrier) : Prop where
  port : ∀ port : InputPort, site.inputs[index]? = some port →
    port.size = items.length ∧ port.type = type.toScalarType
  reads : ∀ element < items.length,
    site.Reads scope views heap readable index element (type.item items element)
  mixed : items ≠ [] → ∃ item ∈ items, item ≠ type.negativeZero

theorem Summand.frame {scope : Scope} {views : Array View} {readable kept : Nat → Prop}
    {type : RealType} {index number : Nat} {items : List type.Carrier} {machine later : Machine}
    (summand : site.Summand scope views machine.heap readable type index items)
    (frame : machine.Frame number kept later) (keeps : ∀ slot, readable slot → kept slot) :
    site.Summand scope views later.heap readable type index items :=
  ⟨summand.port, fun element below => (summand.reads element below).frame frame keeps,
    summand.mixed⟩

/-! ## Written out -/

/-- Adding elements to a total.  The induction is on the elements that are left. -/
theorem of_expandSum {group position count : Nat} {total value : ValueId}
    (declared : total < before.1.valueTypes.size)
    (emitted : Succeeds (site.expandSum group total position count) before value after) :
    after.2 = before.2 ∧ after.1.arrays = before.1.arrays ∧ value < after.1.valueTypes.size ∧
      ∃ code, before.1.Grows code after.1 ∧
        ∀ {activation : Activation} {machine : Machine} {readable : Nat → Prop} {type : RealType}
          {items : List type.Carrier} {start : type.Carrier},
          after.1.Ready activation.views machine → position + count = items.length →
          (∀ element < items.length, site.Reads before.2.scope activation.views machine.heap readable
            group element (type.item items element)) →
          machine.Has total (type.total start (items.take position)) →
          activation.Reaches code before.1.valueTypes.size (fun _ => True) machine
            (·.Has value (type.total start items)) := by
  induction count generalizing before position total with
  | zero =>
      obtain ⟨rfl, rfl⟩ := succeeds_pure_iff.mp emitted
      refine ⟨rfl, rfl, declared, [], .refl _, fun _ whole _ has => .nil ?_⟩
      rwa [List.take_of_length_le (by omega)] at has
  | succ count ih =>
      simp only [expandSum, succeeds_bind_iff] at emitted
      obtain ⟨_, _, loaded, _, _, added, others⟩ := emitted
      obtain ⟨type, array, place, rfl, rfl, holds⟩ := of_inputElement loaded
      obtain ⟨sumType, rfl, rfl⟩ := Emit.of_binary added
      obtain ⟨sameOwn, sameArrays, inside, code, grows, reaches⟩ := ih (by simp) others
      have defined := (Builder.Grows.define before.1 type (.load array (.fixed place))).trans
        (.define _ sumType (.binary .add total before.1.valueTypes.size))
      refine ⟨sameOwn, sameArrays, inside, _, defined.trans grows, ?_⟩
      intro activation machine readable realType items start ready whole reads has
      have below : position < items.length := by omega
      have room : before.1.valueTypes.size + 1 < machine.registers.size := by
        have := grows.values_le
        simp only [Builder.size_values_define] at this
        exact Nat.lt_of_lt_of_le (by omega) ready.values
      have step := reaches_added declared room below (holds (reads position below))
        (machine.points_fixed place) has
      rw [Builder.size_values_define] at reaches ⊢
      refine step.append fun between frame next => ?_
      exact (reaches (ready.frame frame) (by omega) (fun element inside =>
        (reads element inside).frame frame fun _ _ => trivial) next).mono (by simp; omega)
        (fun _ _ => trivial) fun _ _ sum => sum

/-! ## One sum -/

/-- The loop that adds the elements of a window to an accumulator. -/
theorem of_sumLoop {accumulator : ValueId} {values : ArrayRef} {size : Nat} {done : Unit}
    (declared : accumulator < before.1.valueTypes.size)
    (emitted : Succeeds
      (Emit.loop 0 size fun index => do
        let element ← Emit.load values (.value index)
        let total ← Emit.binary .add accumulator element
        Emit.assign accumulator total : Lower Unit) before done after) :
    after.2 = before.2 ∧ after.1.arrays = before.1.arrays ∧
      ∃ code, before.1.Grows code after.1 ∧
        ∀ {activation : Activation} {machine : Machine} {readable : Nat → Prop} {type : RealType}
          {items : List type.Carrier}, after.1.Ready activation.views machine →
          items.length = size →
          values.Shows activation.views machine.heap readable size (type.item items) →
          machine.Has accumulator (type.total type.zero []) →
          activation.Reaches code accumulator (fun _ => True) machine
            (·.Has accumulator (type.total type.zero items)) := by
  obtain ⟨inner, own, ran, rfl⟩ := Emit.of_loop emitted
  simp only [succeeds_bind_iff] at ran
  obtain ⟨_, _, loaded, _, _, added, assigned⟩ := ran
  obtain ⟨_, placed, rfl, rfl⟩ := Emit.of_load loaded
  obtain rfl := Builder.position_of_value placed
  obtain ⟨sumType, rfl, rfl⟩ := Emit.of_binary added
  obtain ⟨rfl, rfl⟩ := Prod.mk.inj (Emit.of_assign assigned)
  have opened : (before.1.withValue .index).openBlock.valueTypes.size =
      before.1.valueTypes.size + 1 := by
    simp [Builder.withValue]
  have grows := ((Builder.Grows.define (before.1.withValue .index).openBlock values.type
    (.load values.array (.indexed before.1.valueTypes.size values.offset))).trans
    (.define _ sumType (.binary .add accumulator (before.1.valueTypes.size + 1)))).trans
    (.push _ (.assign accumulator (.copy (before.1.valueTypes.size + 1 + 1))))
  simp only [Builder.size_values_define, opened] at grows ⊢
  obtain ⟨body, blockGrows⟩ := grows.block
  have counted := Builder.Grows.withValue before.1 .index
  refine ⟨trivial, by simp [Builder.withValue], _, (counted.trans blockGrows).trans (.push _ _), ?_⟩
  intro activation machine readable type items ready length shows has
  rw [body]
  have room : before.1.valueTypes.size + 1 + 1 < machine.registers.size := by
    simpa [Builder.withValue] using ready.values
  have low : accumulator ≤ before.1.valueTypes.size := Nat.le_of_lt declared
  refine (Activation.reaches_loop (fun index later =>
    later.Has accumulator (type.total type.zero (items.take index))) low
    (Nat.lt_of_lt_of_le (by omega) room) has ?_).mono (Nat.le_refl _) (fun _ _ => trivial) ?_
  · intro index current entered below frame sum entering counter
    have size : entered.registers.size = machine.registers.size := frame.size_registers
    have points : entered.Points (values.offset + index)
        (.indexed before.1.valueTypes.size values.offset) := ⟨index, counter, Nat.add_comm _ _⟩
    have step := reaches_added (Nat.lt_succ_of_lt declared) (size ▸ room) (length ▸ below)
      ((shows index below).frame frame fun _ _ => trivial) points
      (sum.frame entering declared)
    refine (step.mono (Nat.le_of_lt (Nat.lt_succ_of_lt declared)) (fun _ _ => trivial)
      fun _ _ next => next).append fun between between_frame next => ?_
    exact Activation.reaches_copy next (Nat.lt_of_lt_of_le (Nat.lt_of_le_of_lt low (by omega))
      (Nat.le_of_eq between_frame.size_registers.symm))
  · intro later _ sum
    rwa [← length, List.take_length] at sum

/-- A sum asks for the layout of its input where its strategy is a loop, and loops where the answer
is yes. -/
theorem exists_looped {type : RealType} {group size : Nat} {value : ValueId}
    (emitted : Succeeds (site.sumInput type group size) before value after) :
    ∃ choice chosen looped, Succeeds (site.strategy size) before choice chosen ∧
      (choice = .loop ∧ Succeeds (site.inputIsContiguous group) chosen looped chosen ∨
        choice = .expanded ∧ looped = false) ∧
      Succeeds
        (if looped = true then do
          let values ← site.inputArray group
          let accumulator ← Emit.literal type.toScalarType.zero
          Emit.loop 0 size fun index => do
            let element ← Emit.load values (.value index)
            let total ← Emit.binary .add accumulator element
            Emit.assign accumulator total
          pure accumulator
        else do
          let first ← site.inputElement group 0
          site.expandSum group first 1 (size - 1)) chosen value after := by
  simp only [sumInput, succeeds_bind_iff] at emitted
  obtain ⟨choice, chosen, strategyChosen, rest⟩ := emitted
  cases choice with
  | loop =>
      simp only [succeeds_bind_iff] at rest
      obtain ⟨looped, _, asked, rest⟩ := rest
      obtain rfl := of_inputIsContiguous asked
      exact ⟨_, _, looped, strategyChosen, .inl ⟨rfl, asked⟩, rest⟩
  | expanded =>
      simp only [succeeds_bind_iff] at rest
      obtain ⟨looped, _, asked, rest⟩ := rest
      obtain ⟨rfl, rfl⟩ := succeeds_pure_iff.mp asked
      exact ⟨_, _, false, strategyChosen, .inr ⟨rfl, rfl⟩, rest⟩

/-- One sum is looped over, where its input is one array already, or it is written out. -/
theorem sumInput_cases {type : RealType} {group size : Nat} {value : ValueId}
    (emitted : Succeeds (site.sumInput type group size) before value after) :
    ∃ chosen, chosen.1 = before.1 ∧ before.2.Agrees chosen.2 ∧
      ((∃ values read zeroed, Succeeds (site.inputArray group) chosen values read ∧
          Succeeds (Emit.literal type.toScalarType.zero : Lower ValueId) read value zeroed ∧
          Succeeds
            (Emit.loop 0 size fun index => do
              let element ← Emit.load values (.value index)
              let total ← Emit.binary .add value element
              Emit.assign value total : Lower Unit) zeroed () after) ∨
        ∃ first one, Succeeds (site.inputElement group 0) chosen first one ∧
          Succeeds (site.expandSum group first 1 (size - 1)) one value after) := by
  obtain ⟨choice, chosen, looped, strategyChosen, _, rest⟩ := exists_looped emitted
  obtain ⟨sameBuilder, agrees⟩ := of_strategy strategyChosen
  refine ⟨chosen, sameBuilder, agrees, ?_⟩
  cases looped with
  | true =>
      simp only [if_true, succeeds_bind_iff, succeeds_pure_iff] at rest
      obtain ⟨values, read, inputRead, _, zeroed, started, _, _, loop, rfl, rfl⟩ := rest
      exact .inl ⟨values, read, zeroed, inputRead, started, loop⟩
  | false =>
      simp only [Bool.false_eq_true, if_false, succeeds_bind_iff] at rest
      exact .inr rest

/-- The code of one sum. -/
theorem of_sumInput {type : RealType} {group size : Nat} {value : ValueId}
    (emitted : Succeeds (site.sumInput type group size) before value after) :
    before.2.Agrees after.2 ∧ (site.placement = .subroutine → after.1.arrays = before.1.arrays) ∧
      value < after.1.valueTypes.size ∧
      ∃ code, before.1.Grows code after.1 ∧
        ∀ {activation : Activation} {machine : Machine} {readable : Nat → Prop}
          {items : List type.Carrier}, after.1.Ready activation.views machine →
          before.1.Apart after.1 activation.views readable → items.length = size → items ≠ [] →
          site.Summand before.2.scope activation.views machine.heap readable type group items →
          activation.Reaches code before.1.valueTypes.size (¬before.1.Fresh after.1 ·) machine
            (·.Has value (type.total type.zero items)) := by
  obtain ⟨chosen, sameBuilder, agrees,
    ⟨values, read, _, inputRead, started, loop⟩ | ⟨_, _, loaded, summed⟩⟩ := sumInput_cases emitted
  · obtain ⟨rfl, rfl⟩ := Emit.succeeds_literal_iff.mp started
    obtain ⟨port, ported, sameOwn, _, _, arrays, code, grows, reaches⟩ := of_inputArray inputRead
    obtain ⟨loopOwn, loopArrays, loopCode, loopGrows, loopReaches⟩ :=
      of_sumLoop (Builder.value_lt_define _ _ _) loop
    rw [sameBuilder] at arrays grows reaches
    have defined := grows.trans
      (.define read.1 (Literal.scalar type.toScalarType.zero).type
        (.literal type.toScalarType.zero))
    refine ⟨agrees.trans (.of_eq (loopOwn.trans sameOwn)), ?_, ?_, _, defined.trans loopGrows, ?_⟩
    · intro placed
      rw [loopArrays]
      exact arrays placed
    · have := loopGrows.values_le
      simp only [Builder.size_values_define] at this
      exact Nat.lt_of_succ_le this
    · intro activation machine readable items ready apart length _ summand
      obtain ⟨portSize, portType⟩ := summand.port port ported
      rw [portSize] at reaches
      have readyDefined := ready.of_grows loopGrows
      have readyRead := readyDefined.of_grows (.define _ _ _)
      have shown : activation.Reaches code before.1.valueTypes.size (¬before.1.Fresh after.1 ·)
          machine fun later => values.Shows activation.views later.heap
            (fun slot => readable slot ∨ before.1.Fresh read.1 slot) items.length
            (type.item items) := by
        refine (reaches readyRead (apart.left ((Builder.Grows.define _ _ _).trans loopGrows))
          fun element below => ?_).mono (Nat.le_refl _) ?_ fun _ _ shows => shows
        · rw [agrees.scope_eq, portType]
          exact ⟨summand.reads element below, RealType.type_toScalar _ _⟩
        · exact fun slot old fresh =>
            old (fresh.mono_right ((Builder.Grows.define _ _ _).trans loopGrows))
      rw [List.append_assoc]
      refine shown.append fun one oneFrame shows => ?_
      have room : read.1.valueTypes.size < one.registers.size :=
        Nat.lt_of_lt_of_le (Builder.value_lt_define _ _ _) (readyDefined.frame oneFrame).values
      have zeroed : activation.Reaches
          [.assign read.1.valueTypes.size (.literal type.toScalarType.zero)]
          read.1.valueTypes.size (fun _ => True) one
          (·.Has read.1.valueTypes.size (type.total type.zero [])) := by
        rw [type.zero_toScalarType]
        exact Activation.reaches_literal room
      refine (zeroed.append fun two twoFrame has => ?_).mono grows.values_le
        (fun _ _ => trivial) fun _ _ sum => sum
      exact loopReaches ((ready.frame oneFrame).frame twoFrame) length
        (length ▸ shows.frame twoFrame fun _ _ => trivial) has
  · obtain ⟨loadType, array, place, rfl, rfl, holds⟩ := of_inputElement loaded
    obtain ⟨sameOwn, sameArrays, inside, code, grows, reaches⟩ := of_expandSum (by simp) summed
    rw [sameBuilder] at sameArrays grows reaches summed
    have defined := Builder.Grows.define before.1 loadType (.load array (.fixed place))
    refine ⟨agrees.trans (.of_eq sameOwn), fun _ => sameArrays, inside, _, defined.trans grows, ?_⟩
    intro activation machine readable items ready apart length nonempty summand
    obtain ⟨first, rest, rfl⟩ := List.exists_cons_of_ne_nil nonempty
    have room : before.1.valueTypes.size < machine.registers.size :=
      Nat.lt_of_lt_of_le (Builder.value_lt_define _ _ _) (ready.of_grows grows).values
    have reads : ∀ element < (first :: rest).length,
        site.Reads chosen.2.scope activation.views machine.heap readable group element
          (type.item (first :: rest) element) := by
      rw [agrees.scope_eq]
      exact summand.reads
    have started : (type.item (first :: rest) 0).Same
        (type.total type.negativeZero ((first :: rest).take 1)) :=
      Scalar.same_toScalar_iff.mpr (RealType.negativeZero_add_same first).symm
    have finished : (type.total type.negativeZero (first :: rest)).Same
        (type.total type.zero (first :: rest)) :=
      Scalar.same_toScalar_iff.mpr
        (RealType.foldl_add_zeros_same_iff.mpr (summand.mixed nonempty)).symm
    have loaded : activation.Reaches [.assign before.1.valueTypes.size (.load array (.fixed place))]
        before.1.valueTypes.size (fun _ => True) machine
        (·.Has before.1.valueTypes.size (type.item (first :: rest) 0)) :=
      Activation.reaches_load (holds (reads 0 (Nat.zero_lt_succ _))) (machine.points_fixed _) room
    refine (loaded.append fun one frame has => ?_).mono (Nat.le_refl _) (fun _ _ => trivial)
      fun _ _ sum => sum
    exact (reaches (ready.frame frame) (by rw [← length, List.length_cons]; omega)
      (fun element below =>
      (reads element below).frame frame fun _ _ => trivial) (has.of_same started)).mono
      defined.values_le (fun _ _ => trivial) fun _ _ sum => sum.of_same finished

/-- The code of one sum, or of the sum of nothing. -/
theorem exists_sum {type : RealType} {group : Nat} {port : InputPort} {done : Unit}
    {next : ValueId → Lower Unit} (ported : site.inputs[group]? = some port)
    (emitted : Succeeds
      (if port.size = 0 then do
        let total ← Emit.literal type.toScalarType.zero
        next total
      else do
        let total ← site.sumInput type group port.size
        next total) before done after) :
    ∃ value between, before.2.Agrees between.2 ∧
      (site.placement = .subroutine → between.1.arrays = before.1.arrays) ∧
      value < between.1.valueTypes.size ∧ Succeeds (next value) between done after ∧
      ∃ code, before.1.Grows code between.1 ∧
        ∀ {activation : Activation} {machine : Machine} {readable : Nat → Prop}
          {items : List type.Carrier}, between.1.Ready activation.views machine →
          before.1.Apart between.1 activation.views readable →
          site.Summand before.2.scope activation.views machine.heap readable type group items →
          activation.Reaches code before.1.valueTypes.size (¬before.1.Fresh between.1 ·) machine
            (·.Has value (type.total type.zero items)) := by
  by_cases empty : port.size = 0
  · simp only [empty, if_true, succeeds_bind_iff, Emit.succeeds_literal_iff] at emitted
    obtain ⟨_, _, ⟨rfl, rfl⟩, rest⟩ := emitted
    refine ⟨_, (before.1.define (Literal.scalar type.toScalarType.zero).type
      (.literal type.toScalarType.zero), before.2), .refl _, fun _ => rfl,
      Builder.value_lt_define _ _ _, rest, _, .define _ _ _, ?_⟩
    intro activation machine readable items ready _ summand
    have none : items = [] := by
      rw [← List.length_eq_zero_iff, ← (summand.port port ported).1, empty]
    have room : before.1.valueTypes.size < machine.registers.size :=
      Nat.lt_of_lt_of_le (Builder.value_lt_define _ _ _) ready.values
    rw [none, type.zero_toScalarType]
    exact (Activation.reaches_literal room)
  · simp only [empty, if_false, succeeds_bind_iff] at emitted
    obtain ⟨value, between, summed, rest⟩ := emitted
    obtain ⟨agrees, arrays, inside, code, grows, reaches⟩ := of_sumInput summed
    refine ⟨value, between, agrees, arrays, inside, rest, code, grows, ?_⟩
    intro activation machine readable items ready apart summand
    have length := (summand.port port ported).1
    refine reaches ready apart length.symm ?_ summand
    rintro rfl
    exact empty length

/-! ## All sums -/

/-- The code of several sums.  The induction is on the groups that are left. -/
theorem of_sums {type : RealType} {output : ArrayRef} {group : Nat} {ports : List InputPort}
    {done : Unit}
    (inputs : ∀ index port, ports[index]? = some port → site.inputs[group + index]? = some port)
    (emitted : Succeeds (site.sums type output group ports) before done after) :
    before.2.Agrees after.2 ∧ (site.placement = .subroutine → after.1.arrays = before.1.arrays) ∧
      ∃ code, before.1.Grows code after.1 ∧
        ∀ {activation : Activation} {machine : Machine} {readable : Nat → Prop} {slot : Nat}
          {groups : Nat → List type.Carrier}, after.1.Ready activation.views machine →
          (∀ view, activation.views[output.array]? = some view → view.slot = slot) →
          ¬readable slot → ¬before.1.Fresh after.1 slot →
          before.1.Apart after.1 activation.views readable → output.type = type.toScalarType →
          (∀ index < group + ports.length,
            site.Summand before.2.scope activation.views machine.heap readable type index
              (groups index)) →
          Filled activation.views machine.heap slot output group
            (fun index => type.total type.zero (groups index)) →
          activation.Reaches code before.1.valueTypes.size
            (fun other => other ≠ slot ∧ ¬before.1.Fresh after.1 other) machine fun later =>
              Filled activation.views later.heap slot output (group + ports.length)
                fun index => type.total type.zero (groups index) := by
  induction ports generalizing before group with
  | nil =>
      obtain ⟨_, rfl⟩ := succeeds_pure_iff.mp emitted
      exact ⟨.refl _, fun _ => rfl, [], .refl _, fun _ _ _ _ _ _ _ filled => .nil filled⟩
  | cons port rest ih =>
      simp only [sums] at emitted
      obtain ⟨value, between, agrees, arrays, inside, others, code, grows, reaches⟩ :=
        exists_sum (inputs 0 port rfl) emitted
      simp only [succeeds_bind_iff] at others
      obtain ⟨_, _, stored, others⟩ := others
      obtain ⟨_, positioned, checked, rfl⟩ := Emit.of_store stored
      obtain ⟨room, rfl⟩ := Builder.position_fixed_eq_ok_iff.mp positioned
      have shifted : ∀ index other, rest[index]? = some other →
          site.inputs[group + 1 + index]? = some other := by
        intro index other found
        rw [show group + 1 + index = group + (index + 1) by omega]
        exact inputs (index + 1) other (by simpa using found)
      obtain ⟨restAgrees, restArrays, restCode, restGrows, restReaches⟩ := ih shifted others
      have pushed := (Builder.Grows.push between.1
        (.store output.array (.fixed (output.offset + group)) value))
      have rested := pushed.trans restGrows
      refine ⟨agrees.trans restAgrees, fun placed => (restArrays placed).trans (arrays placed), _,
        (grows.trans pushed).trans restGrows, ?_⟩
      intro activation machine readable slot groups ready placed unread old apart typed summands filled
      rw [List.length_cons] at summands ⊢
      have readyStored := ready.of_grows restGrows
      have readySum := readyStored.of_grows pushed
      have keeps : ∀ other, readable other → other ≠ slot ∧ ¬before.1.Fresh after.1 other := by
        refine fun other read => ⟨?_, apart.not_fresh ready read⟩
        rintro rfl
        exact unread read
      have summed : activation.Reaches code before.1.valueTypes.size
          (fun other => other ≠ slot ∧ ¬before.1.Fresh after.1 other) machine fun later =>
            later.Has value (type.total type.zero (groups group)) ∧
              Filled activation.views later.heap slot output group
                fun index => type.total type.zero (groups index) :=
        (reaches readySum (apart.left rested) (summands group (by omega))).mono (Nat.le_refl _)
          (fun other keep fresh => keep.2 (fresh.mono_right rested))
          fun later frame has =>
            ⟨has, filled.frame frame fun fresh => old (fresh.mono_right rested)⟩
      have next : activation.Reaches
          (code ++ [.store output.array (.fixed (output.offset + group)) value])
          before.1.valueTypes.size (fun other => other ≠ slot ∧ ¬before.1.Fresh after.1 other)
          machine fun later => Filled activation.views later.heap slot output (group + 1)
            fun index => type.total type.zero (groups index) := by
        refine summed.append fun one frame both => ?_
        exact (reaches_next (readySum.frame frame) checked placed
          ((RealType.type_toScalar _ _).trans typed.symm) room (one.points_fixed _) both.1
          both.2).mono (Nat.le_refl _) (fun _ keep => keep.1) fun _ _ filled => filled
      refine next.append fun stored frame filledNext => ?_
      have still : ∀ index < group + 1 + rest.length, site.Summand between.2.scope
          activation.views stored.heap readable type index (groups index) := by
        intro index below
        rw [agrees.scope_eq]
        exact (summands index (by omega)).frame frame keeps
      have base := (grows.trans pushed).values_le
      rw [show group + (rest.length + 1) = group + 1 + rest.length by omega]
      refine (restReaches (ready.frame frame) placed unread
        (fun fresh => old (fresh.mono_left (grows.trans pushed)))
        (fun array view fresh viewed => apart array view (fresh.mono_left (grows.trans pushed)) viewed)
        typed still filledNext).mono base ?_ fun _ _ filled => filled
      exact fun other keep => ⟨keep.1, fun fresh => keep.2 (fresh.mono_left (grows.trans pushed))⟩

/-- The code of a sum operator fills the output with the sums of the inputs. -/
theorem fills_of_sums {type : RealType} {output : ArrayRef} {between : Builder × Lowering} {done : Unit}
    (declared : Succeeds (site.outputArray 0) before output between)
    (emitted : Succeeds (site.sums type output 0 site.inputs) between done after)
    (unbound : site.placement = .inline → before.2.scope.binding? (site.port 0) = none)
    (outputs : ∀ port, site.outputs[0]? = some port →
      port.size = site.inputs.length ∧ port.type = type.toScalarType) :
    site.Fills before after fun scope views heap readable values =>
      ∃ groups : Nat → List type.Carrier, ∀ index < site.inputs.length,
        values index = type.total type.zero (groups index) ∧
          site.Summand scope views heap readable type index (groups index) := by
  have inputs : ∀ index port, site.inputs[index]? = some port →
      site.inputs[0 + index]? = some port := by
    intro index port found
    rwa [Nat.zero_add]
  obtain ⟨agrees, arrays, code, grows, reaches⟩ := of_sums inputs emitted
  obtain ⟨chosen, chosenPort, chosenType, _⟩ := of_outputArray declared unbound
  refine fills_of_rest declared unbound agrees fun port ported length =>
    ⟨arrays, code, grows, ?_⟩
  obtain ⟨portSize, portType⟩ := outputs port ported
  obtain rfl := Option.some.inj (chosenPort.symm.trans ported)
  intro activation machine readable slot values ready placed unread old apart _ given
  obtain ⟨groups, sums⟩ := given
  rw [portSize]
  have all : ∀ index < 0 + site.inputs.length, site.Summand between.2.scope activation.views
      machine.heap readable type index (groups index) := by
    intro index below
    exact (sums index (by omega)).2
  refine (reaches ready placed unread old apart (chosenType.trans portType) all
    filled_zero).mono (Nat.le_refl _) (fun _ keep => keep) ?_
  intro later _ filled index below
  rw [(sums index below).1]
  exact filled index (by omega)

end Site

end Dataflow
