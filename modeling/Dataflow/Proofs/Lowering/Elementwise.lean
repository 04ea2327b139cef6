import Dataflow.Proofs.Lowering.Sites

/-!
# Elementwise work

Whether elementwise work is written out or looped over, and whether its inputs are read in
place or from copies, it fills the output with the combinations of the elements of its
inputs.
-/

namespace Dataflow

/-- An action emits one instruction, which combines two variables. -/
def Combines (combine : ValueId → ValueId → Lower ValueId)
    (result : Scalar → Scalar → Option Scalar) : Prop :=
  ∀ {left right value : ValueId} {before after : Builder × Lowering},
    Succeeds (combine left right) before value after →
      ∃ type expression, value = before.1.valueTypes.size ∧
        after = (before.1.define type expression, before.2) ∧
        ∀ {activation : Activation} {machine : Machine} {leftValue rightValue scalar : Scalar},
          machine.Has left leftValue → machine.Has right rightValue →
          result leftValue rightValue = some scalar → value < machine.registers.size →
          activation.Reaches [.assign value expression] value (fun _ => True) machine
            (·.Has value scalar)

theorem combines_binary (op : BinaryOp) : Combines (Emit.binary op) op.onScalars? := by
  intro left right value before after emitted
  obtain ⟨type, rfl, rfl⟩ := Emit.of_binary emitted
  exact ⟨_, _, rfl, rfl, fun leftHas rightHas defined inside =>
    Activation.reaches_binary leftHas rightHas defined inside⟩

theorem combines_compare (predicate : Predicate) :
    Combines (Emit.compare predicate)
      fun left right => (predicate.onScalars? left right).map .bool := by
  intro left right value before after emitted
  obtain ⟨rfl, rfl⟩ := Emit.of_compare emitted
  exact ⟨_, _, rfl, rfl, fun leftHas rightHas defined inside =>
    Activation.reaches_compare leftHas rightHas defined inside⟩

/-- What can be read is not new. -/
theorem Builder.Apart.not_fresh {before after : Builder} {views : Array View}
    {readable : Nat → Prop} {machine : Machine} (apart : before.Apart after views readable)
    (ready : after.Ready views machine) {slot : Nat} (read : readable slot) :
    ¬before.Fresh after slot := by
  intro fresh
  obtain ⟨_, view, _, viewed, _⟩ :=
    ready.arrays slot _ (Array.getElem?_eq_getElem fresh.2)
  exact (apart slot view fresh viewed).2 read

/-! ## One element -/

/-- Loading two elements, combining them and storing the result fills the next element of a
window.  The two loads and the combination assign three new variables. -/
theorem reaches_combined {combine : ValueId → ValueId → Lower ValueId}
    {result : Scalar → Scalar → Option Scalar} (combines : Combines combine result)
    {builder : Builder} {lowering : Lowering} {leftType rightType : ValueType}
    {leftArray rightArray : ArrayId} (leftPosition rightPosition target : Position)
    (output : ArrayRef) {value : ValueId} {combined : Builder × Lowering}
    (emitted : Succeeds
      (combine builder.valueTypes.size (builder.valueTypes.size + 1))
      ((builder.define leftType (.load leftArray leftPosition)).define rightType
        (.load rightArray rightPosition), lowering) value combined) :
    ∃ type expression, value = builder.valueTypes.size + 2 ∧
      combined = (((builder.define leftType (.load leftArray leftPosition)).define rightType
        (.load rightArray rightPosition)).define type expression, lowering) ∧
      builder.Grows
        [.assign builder.valueTypes.size (.load leftArray leftPosition),
          .assign (builder.valueTypes.size + 1) (.load rightArray rightPosition),
          .assign value expression, .store output.array target value]
        (combined.1.push (.store output.array target value)) ∧
      ∀ {activation : Activation} {machine : Machine} {final : Builder} {readable : Nat → Prop}
        {slot leftElement rightElement count : Nat} {leftValue rightValue : Scalar}
        {values : Nat → Scalar}, final.Ready activation.views machine →
        final.checkArray output = .ok () → builder.valueTypes.size + 2 < final.valueTypes.size →
        (∀ view, activation.views[output.array]? = some view → view.slot = slot) →
        count < output.length → (values count).type = output.type →
        Holds activation.views machine.heap readable leftArray leftElement leftValue →
        Holds activation.views machine.heap readable rightArray rightElement rightValue →
        result leftValue rightValue = some (values count) →
        (∀ position ∈ [leftPosition, rightPosition, target], ∀ counter offset,
          position = .indexed counter offset → counter < builder.valueTypes.size) →
        machine.Points leftElement leftPosition → machine.Points rightElement rightPosition →
        machine.Points (output.offset + count) target →
        Filled activation.views machine.heap slot output count values →
        activation.Reaches
          [.assign builder.valueTypes.size (.load leftArray leftPosition),
            .assign (builder.valueTypes.size + 1) (.load rightArray rightPosition),
            .assign value expression, .store output.array target value]
          builder.valueTypes.size (· ≠ slot) machine fun later =>
            Filled activation.views later.heap slot output (count + 1) values := by
  obtain ⟨type, expression, rfl, rfl, reaches⟩ := combines emitted
  have grows := (((Builder.Grows.define builder leftType (.load leftArray leftPosition)).trans
    (.define _ rightType (.load rightArray rightPosition))).trans (.define _ type expression)).trans
    (.push _ (.store output.array target (builder.valueTypes.size + 2)))
  refine ⟨type, expression, by simp, rfl, by simpa using grows, ?_⟩
  intro activation machine final readable slot leftElement rightElement count leftValue rightValue
    values ready checked room placed inside typed leftHolds rightHolds defined counters leftPoints
    rightPoints targetPoints filled
  simp only [List.forall_mem_cons, List.not_mem_nil, false_implies, implies_true, and_true]
    at counters
  obtain ⟨_, rightCounter, targetCounter⟩ := counters
  simp only [Builder.size_values_define] at reaches ⊢
  have last : builder.valueTypes.size + 1 + 1 < machine.registers.size :=
    Nat.lt_of_lt_of_le room ready.values
  have middle := Nat.lt_of_succ_lt last
  -- each step keeps the variables that the steps before it have assigned
  have first : activation.Reaches [.assign builder.valueTypes.size (.load leftArray leftPosition)]
      builder.valueTypes.size (fun _ => True) machine
      (·.Has builder.valueTypes.size leftValue) :=
    Activation.reaches_load leftHolds leftPoints (Nat.lt_of_succ_lt middle)
  refine first.read_append fun one oneFrame leftHas => ?_
  have second : activation.Reaches
      [.assign (builder.valueTypes.size + 1) (.load rightArray rightPosition)]
      builder.valueTypes.size (fun _ => True) one fun later =>
        later.Has builder.valueTypes.size leftValue ∧
          later.Has (builder.valueTypes.size + 1) rightValue :=
    (Activation.reaches_load (rightHolds.frame oneFrame fun _ _ => trivial)
      (rightPoints.frame oneFrame rightCounter) (oneFrame.size_registers ▸ middle)).mono
      (Nat.le_succ _) (fun _ _ => trivial)
      fun later frame rightHas => ⟨leftHas.frame frame (Nat.lt_succ_self _), rightHas⟩
  refine second.read_append fun two twoFrame has => ?_
  have twoSize : two.registers.size = machine.registers.size :=
    twoFrame.size_registers.trans oneFrame.size_registers
  have third : activation.Reaches [.assign (builder.valueTypes.size + 1 + 1) expression]
      builder.valueTypes.size (fun _ => True) two
      (·.Has (builder.valueTypes.size + 1 + 1) (values count)) :=
    (reaches has.1 has.2 defined (twoSize ▸ last)).mono (by omega) (fun _ _ => trivial)
      fun _ _ done => done
  refine third.read_append fun three threeFrame resultHas => ?_
  have frame : machine.Frame builder.valueTypes.size (fun _ => True) three :=
    (oneFrame.trans twoFrame).trans threeFrame
  exact reaches_next (ready.frame frame) checked placed typed inside
    (targetPoints.frame frame targetCounter) resultHas (filled.frame frame trivial)

/-! ## All elements -/

namespace Site

variable {site : Site} {before after : Builder × Lowering}

/-- At a position the two inputs have elements that combine to a value. -/
structure Combined (site : Site) (scope : Scope) (views : Array View) (heap : Array Buffer)
    (readable : Nat → Prop) (result : Scalar → Scalar → Option Scalar) (element : Nat)
    (left right value : Scalar) : Prop where
  left_reads : site.Reads scope views heap readable 0 element left
  right_reads : site.Reads scope views heap readable 1 element right
  defined : result left right = some value

theorem Combined.frame {scope : Scope} {views : Array View} {readable kept : Nat → Prop}
    {result : Scalar → Scalar → Option Scalar} {element number : Nat} {left right value : Scalar}
    {machine later : Machine}
    (combined : site.Combined scope views machine.heap readable result element left right value)
    (frame : machine.Frame number kept later) (keeps : ∀ slot, readable slot → kept slot) :
    site.Combined scope views later.heap readable result element left right value :=
  ⟨combined.left_reads.frame frame keeps, combined.right_reads.frame frame keeps, combined.defined⟩

/-- Elementwise work that is written out.  The induction is on the elements that are
left. -/
theorem of_expandElementwise {combine : ValueId → ValueId → Lower ValueId}
    {result : Scalar → Scalar → Option Scalar} (combines : Combines combine result)
    {output : ArrayRef} {position count : Nat} {done : Unit}
    (emitted : Succeeds (site.expandElementwise output combine position count) before done after) :
    after.2 = before.2 ∧ after.1.arrays = before.1.arrays ∧
      ∃ code, before.1.Grows code after.1 ∧
        ∀ {activation : Activation} {machine : Machine} {readable : Nat → Prop} {slot : Nat}
          {lefts rights values : Nat → Scalar}, after.1.Ready activation.views machine →
          (∀ view, activation.views[output.array]? = some view → view.slot = slot) →
          ¬readable slot →
          (∀ element < position + count, (values element).type = output.type ∧
            site.Combined before.2.scope activation.views machine.heap readable result element
              (lefts element) (rights element) (values element)) →
          Filled activation.views machine.heap slot output position values →
          activation.Reaches code before.1.valueTypes.size (· ≠ slot) machine fun later =>
            Filled activation.views later.heap slot output (position + count) values := by
  induction count generalizing before position with
  | zero =>
      obtain ⟨_, rfl⟩ := succeeds_pure_iff.mp emitted
      exact ⟨rfl, rfl, [], .refl _, fun _ _ _ _ filled => .nil filled⟩
  | succ count ih =>
      simp only [expandElementwise, succeeds_bind_iff] at emitted
      obtain ⟨_, _, leftLoaded, _, _, rightLoaded, value, _, joined, _, _, stored, others⟩ := emitted
      obtain ⟨leftType, leftArray, leftPosition, rfl, rfl, leftHolds⟩ := of_inputElement leftLoaded
      obtain ⟨rightType, rightArray, rightPosition, rfl, rfl, rightHolds⟩ :=
        of_inputElement rightLoaded
      simp only [Builder.size_values_define] at joined
      obtain ⟨type, expression, rfl, rfl, grown, reaches⟩ := reaches_combined combines
        (.fixed leftPosition) (.fixed rightPosition) (.fixed (output.offset + position)) output joined
      obtain ⟨_, positioned, checked, rfl⟩ := Emit.of_store stored
      obtain ⟨inside, rfl⟩ := Builder.position_fixed_eq_ok_iff.mp positioned
      obtain ⟨sameOwn, sameArrays, code, grows, reachesRest⟩ := ih others
      refine ⟨sameOwn, sameArrays, _, grown.trans grows, ?_⟩
      intro activation machine readable slot lefts rights values ready placed unread combined filled
      have keeps : ∀ other, readable other → other ≠ slot := by
        rintro other read rfl
        exact unread read
      obtain ⟨typed, here⟩ := combined position (by omega)
      have built := ready.of_grows ((Builder.Grows.push _ _).trans grows)
      refine (reaches built checked (by simp) placed inside typed
        (leftHolds here.left_reads) (rightHolds here.right_reads) here.defined (by simp) (machine.points_fixed _) (machine.points_fixed _)
        (machine.points_fixed _) filled).append fun between frame next => ?_
      have still : ∀ element < position + 1 + count, (values element).type = output.type ∧
          site.Combined before.2.scope activation.views between.heap readable result element
            (lefts element) (rights element) (values element) := by
        intro element below
        obtain ⟨elementTyped, elementCombined⟩ := combined element (by omega)
        exact ⟨elementTyped, elementCombined.frame frame keeps⟩
      rw [Nat.add_comm count, ← Nat.add_assoc]
      exact (reachesRest (ready.frame frame) placed unread still next).mono (by simp; omega)
        (fun _ different => different) fun _ _ filled => filled

/-- A loop over windows that hold the elements. -/
theorem of_combineLoop {combine : ValueId → ValueId → Lower ValueId}
    {result : Scalar → Scalar → Option Scalar} (combines : Combines combine result)
    {left right output : ArrayRef} {size : Nat} {done : Unit}
    (emitted : Succeeds
      (Emit.loop 0 size fun index => do
        let leftValue ← Emit.load left (.value index)
        let rightValue ← Emit.load right (.value index)
        let result ← combine leftValue rightValue
        Emit.store output (.value index) result) before done after) :
    after.2 = before.2 ∧ after.1.arrays = before.1.arrays ∧
      ∃ code, before.1.Grows code after.1 ∧
        ∀ {activation : Activation} {machine : Machine} {readable : Nat → Prop} {slot : Nat}
          {lefts rights values : Nat → Scalar}, after.1.Ready activation.views machine →
          (∀ view, activation.views[output.array]? = some view → view.slot = slot) →
          ¬readable slot → output.length = size →
          (∀ element < size, (values element).type = output.type ∧
            result (lefts element) (rights element) = some (values element)) →
          left.Shows activation.views machine.heap readable size lefts →
          right.Shows activation.views machine.heap readable size rights →
          activation.Reaches code before.1.valueTypes.size (· ≠ slot) machine fun later =>
            Filled activation.views later.heap slot output size values := by
  obtain ⟨inner, own, ran, rfl⟩ := Emit.of_loop emitted
  simp only [succeeds_bind_iff] at ran
  obtain ⟨_, _, leftLoaded, _, _, rightLoaded, value, _, joined, stored⟩ := ran
  obtain ⟨_, leftPlaced, rfl, rfl⟩ := Emit.of_load leftLoaded
  obtain ⟨_, rightPlaced, rfl, rfl⟩ := Emit.of_load rightLoaded
  obtain rfl := Builder.position_of_value leftPlaced
  obtain rfl := Builder.position_of_value rightPlaced
  simp only [Builder.size_values_define] at joined
  obtain ⟨type, expression, rfl, rfl, grows, reaches⟩ := reaches_combined combines
    (.indexed before.1.valueTypes.size left.offset) (.indexed before.1.valueTypes.size right.offset)
    (.indexed before.1.valueTypes.size output.offset) output joined
  obtain ⟨_, storePlaced, checked, same⟩ := Emit.of_store stored
  obtain rfl := Builder.position_of_value storePlaced
  obtain ⟨rfl, rfl⟩ := Prod.mk.inj same
  obtain ⟨body, blockGrows⟩ := grows.block
  have counted := Builder.Grows.withValue before.1 .index
  refine ⟨rfl, by simp [Builder.withValue], _, (counted.trans blockGrows).trans (.push _ _), ?_⟩
  intro activation machine readable slot lefts rights values ready placed unread length defined
    leftShows rightShows
  rw [body]
  have registers : before.1.valueTypes.size + 1 + 1 + 1 < machine.registers.size := by
    simpa [Builder.withValue] using ready.values
  have keeps : ∀ other, readable other → other ≠ slot := by
    rintro other read rfl
    exact unread read
  refine Activation.reaches_loop (fun count later =>
    Filled activation.views later.heap slot output count values) (Nat.le_refl _)
    (Nat.lt_of_lt_of_le (by omega) registers) filled_zero ?_
  intro index current entered below frame filled entering counter
  obtain ⟨typed, combined⟩ := defined index below
  have points : ∀ window : ArrayRef, entered.Points (window.offset + index)
      (.indexed before.1.valueTypes.size window.offset) :=
    fun window => ⟨index, counter, Nat.add_comm _ _⟩
  have entry := ready.frame frame
  refine (reaches (entry.of_eq (by simp) (by simp)) checked (by simp [Builder.withValue]) placed (length ▸ below) typed
    ((leftShows index below).frame frame keeps) ((rightShows index below).frame frame keeps)
    combined ?_ (points left) (points right) (points output) (filled.frame entering trivial)).mono
    (by simp [Builder.withValue]) (fun _ different => different) fun _ _ next => next
  simp [Builder.withValue]

/-- The code of a site fills its output with values, given that the site reads what they are
made of. -/
def Fills (site : Site) (before after : Builder × Lowering)
    (given : Scope → Array View → Array Buffer → (Nat → Prop) → (Nat → Scalar) → Prop) : Prop :=
  ∃ port output code, site.outputs[0]? = some port ∧ output.type = port.type ∧ output.offset = 0 ∧
    output.length = port.size ∧ after.2.program = before.2.program ∧
    (match site.placement with
      | .inline => output.array = before.1.arrays.size ∧ before.1.Fresh after.1 output.array ∧
          after.2.scope = before.2.scope.bindArray (site.port 0) output
      | .subroutine => output.array = site.inputs.length ∧ after.2.scope = before.2.scope ∧
          after.1.arrays = before.1.arrays) ∧
    before.1.Grows code after.1 ∧
    ∀ {activation : Activation} {machine : Machine} {readable : Nat → Prop} {slot : Nat}
      {values : Nat → Scalar}, after.1.Ready activation.views machine →
      (∀ view, activation.views[output.array]? = some view → view.slot = slot) → ¬readable slot →
      before.1.Apart after.1 activation.views readable →
      (∀ element < port.size, (values element).type = port.type) →
      given after.2.scope activation.views machine.heap readable values →
      activation.Reaches code before.1.valueTypes.size
        (fun other => other ≠ slot ∧ ¬before.1.Fresh after.1 other) machine fun later =>
          Filled activation.views later.heap slot output port.size values

/-- What follows the choice of an output array fills that array, if it fills any array apart from
those that it declares. -/
theorem fills_of_rest {between : Builder × Lowering} {output : ArrayRef}
    {given : Scope → Array View → Array Buffer → (Nat → Prop) → (Nat → Scalar) → Prop}
    (emitted : Succeeds (site.outputArray 0) before output between)
    (unbound : site.placement = .inline → before.2.scope.binding? (site.port 0) = none)
    (agrees : between.2.Agrees after.2)
    (rest : ∀ port, site.outputs[0]? = some port → output.length = port.size →
      (site.placement = .subroutine → after.1.arrays = between.1.arrays) ∧
      ∃ code, between.1.Grows code after.1 ∧
        ∀ {activation : Activation} {machine : Machine} {readable : Nat → Prop} {slot : Nat}
          {values : Nat → Scalar}, after.1.Ready activation.views machine →
          (∀ view, activation.views[output.array]? = some view → view.slot = slot) →
          ¬readable slot → ¬between.1.Fresh after.1 slot →
          between.1.Apart after.1 activation.views readable →
          (∀ element < port.size, (values element).type = output.type) →
          given between.2.scope activation.views machine.heap readable values →
          activation.Reaches code between.1.valueTypes.size
            (fun other => other ≠ slot ∧ ¬between.1.Fresh after.1 other) machine fun later =>
              Filled activation.views later.heap slot output port.size values) :
    site.Fills before after given := by
  obtain ⟨port, ported, typed, offset, length, placement⟩ := of_outputArray emitted unbound
  obtain ⟨arrays, code, grows, reaches⟩ := rest port ported length
  cases placed : site.placement with
  | inline =>
      simp only [placed] at placement
      obtain ⟨array, declaration⟩ := placement
      have declared : before.1.Grows [] between.1 := by
        rw [declaration]
        exact .withArray _ _
      have size : between.1.arrays.size = before.1.arrays.size + 1 := by
        rw [declaration]
        simp [Builder.withArray]
      have values : between.1.valueTypes.size = before.1.valueTypes.size := by
        rw [declaration]
        rfl
      have fresh : before.1.Fresh after.1 output.array := by
        rw [array]
        have := grows.arrays_le
        exact ⟨Nat.le_refl _, by omega⟩
      have own : between.2.scope = before.2.scope.bindArray (site.port 0) output := by
        rw [declaration]
      refine ⟨port, output, _, ported, typed, offset, length, ?_, ?_, declared.trans grows, ?_⟩
      · rw [agrees.program_eq, declaration]
      · simp only [placed]
        exact ⟨array, fresh, agrees.scope_eq.trans own⟩
      · intro activation machine readable slot results ready slots unread apart types reads
        obtain ⟨_, view, _, viewed, _⟩ :=
          ready.arrays output.array _ (Array.getElem?_eq_getElem fresh.2)
        have slotEq : slot = output.array := (slots view viewed).symm.trans (apart _ _ fresh viewed).1
        refine (reaches ready slots unread ?_ ?_ (typed ▸ types) (agrees.scope_eq ▸ reads)).mono
          (Nat.le_of_eq values.symm) ?_ fun _ _ filled => filled
        · intro later
          have above := later.1
          rw [slotEq, array, size] at above
          omega
        · exact fun other view otherFresh otherViewed =>
            apart other view (otherFresh.mono_left declared) otherViewed
        · exact fun other keeps =>
            ⟨keeps.1, fun otherFresh => keeps.2 (otherFresh.mono_left declared)⟩
  | subroutine =>
      simp only [placed] at placement
      obtain ⟨array, rfl⟩ := placement
      have none : ∀ slot, ¬between.1.Fresh after.1 slot := by
        intro slot fresh
        have := arrays placed
        simp only [Builder.Fresh, this] at fresh
        omega
      refine ⟨port, output, _, ported, typed, offset, length, agrees.program_eq, ?_, grows, ?_⟩
      · simp only [placed]
        exact ⟨array, agrees.scope_eq, arrays placed⟩
      · intro activation machine readable slot results ready slots unread apart types reads
        exact reaches ready slots unread (none slot) apart (typed ▸ types) (agrees.scope_eq ▸ reads)

/-- Elementwise work fills the output with the combinations of the elements. -/
theorem fills_of_elementwise {combine : ValueId → ValueId → Lower ValueId}
    {result : Scalar → Scalar → Option Scalar} (combines : Combines combine result)
    {size : Nat} {type : ScalarType} {done : Unit}
    (emitted : Succeeds (site.elementwise size combine) before done after)
    (unbound : site.placement = .inline → before.2.scope.binding? (site.port 0) = none)
    (outputs : ∀ port, site.outputs[0]? = some port → port.size = size)
    (inputs : ∀ (index : Nat) (port : InputPort), site.inputs[index]? = some port →
      port.size = size ∧ port.type = type) :
    site.Fills before after fun scope views heap readable values =>
      ∃ lefts rights : Nat → Scalar, ∀ element < size,
        (lefts element).type = type ∧ (rights element).type = type ∧
          site.Combined scope views heap readable result element (lefts element) (rights element)
            (values element) := by
  simp only [elementwise, succeeds_bind_iff] at emitted
  obtain ⟨output, declared, outputChosen, choice, chosen, strategyChosen, rest⟩ := emitted
  obtain ⟨sameBuilder, agrees⟩ := of_strategy strategyChosen
  cases choice with
  | expanded =>
      obtain ⟨sameOwn, sameArrays, code, grows, reaches⟩ := of_expandElementwise combines rest
      rw [sameBuilder] at sameArrays grows reaches
      refine fills_of_rest outputChosen unbound (agrees.trans (.of_eq sameOwn))
        fun port ported length => ⟨fun _ => sameArrays, code, grows, ?_⟩
      intro activation machine readable slot values ready placed unread _ _ types reads
      obtain ⟨lefts, rights, combined⟩ := reads
      rw [outputs port ported] at types ⊢
      have all : ∀ element < 0 + size, (values element).type = output.type ∧
          site.Combined chosen.2.scope activation.views machine.heap readable result element
            (lefts element) (rights element) (values element) := by
        intro element below
        rw [Nat.zero_add] at below
        rw [agrees.scope_eq]
        exact ⟨types element below, (combined element below).2.2⟩
      exact (reaches ready placed unread all filled_zero).mono (Nat.le_refl _)
        (fun _ keeps => keeps.1) fun _ _ filled => Nat.zero_add size ▸ filled
  | loop =>
      simp only [succeeds_bind_iff] at rest
      obtain ⟨left, one, leftRead, right, two, rightRead, looped⟩ := rest
      obtain ⟨leftPort, leftPorted, leftOwn, leftType, leftLength, leftArrays, leftCode, leftGrows,
        leftReaches⟩ := of_inputArray leftRead
      obtain ⟨rightPort, rightPorted, rightOwn, rightType, rightLength, rightArrays, rightCode,
        rightGrows, rightReaches⟩ := of_inputArray rightRead
      obtain ⟨leftSize, leftPortType⟩ := inputs 0 leftPort leftPorted
      obtain ⟨rightSize, rightPortType⟩ := inputs 1 rightPort rightPorted
      obtain ⟨loopOwn, loopArrays, loopCode, loopGrows, loopReaches⟩ :=
        of_combineLoop combines looped
      rw [leftSize, leftPortType, sameBuilder] at leftReaches
      rw [rightSize, rightPortType] at rightReaches
      rw [sameBuilder] at leftArrays leftGrows
      have gathered := leftGrows.trans rightGrows
      refine fills_of_rest outputChosen unbound
        (agrees.trans (.of_eq (loopOwn.trans (rightOwn.trans leftOwn))))
        fun port ported length => ⟨?_, _, gathered.trans loopGrows, ?_⟩
      · intro placed
        rw [loopArrays, rightArrays placed, leftArrays placed]
      intro activation machine readable slot values ready placed unread old apart types reads
      obtain ⟨lefts, rights, combined⟩ := reads
      rw [outputs port ported] at types length ⊢
      have readyTwo := ready.of_grows loopGrows
      have apartLeft := apart.left (rightGrows.trans loopGrows)
      have apartRight := (apart.right leftGrows).left loopGrows
      have keeps : ∀ other, readable other → other ≠ slot ∧ ¬declared.1.Fresh after.1 other := by
        refine fun other read => ⟨?_, apart.not_fresh ready read⟩
        rintro rfl
        exact unread read
      have leftShown : activation.Reaches leftCode declared.1.valueTypes.size
          (fun other => other ≠ slot ∧ ¬declared.1.Fresh after.1 other) machine fun later =>
            left.Shows activation.views later.heap
              (fun other => readable other ∨ declared.1.Fresh one.1 other) size lefts := by
        refine (leftReaches (readyTwo.of_grows rightGrows) apartLeft fun element below => ?_).mono
          (Nat.le_refl _) ?_ fun _ _ shows => shows
        · rw [agrees.scope_eq]
          exact ⟨(combined element below).2.2.left_reads, (combined element below).1⟩
        · exact fun other keep fresh => keep.2 (fresh.mono_right (rightGrows.trans loopGrows))
      have bothShown : activation.Reaches (leftCode ++ rightCode) declared.1.valueTypes.size
          (fun other => other ≠ slot ∧ ¬declared.1.Fresh after.1 other) machine fun later =>
            left.Shows activation.views later.heap (fun other =>
                (readable other ∨ declared.1.Fresh one.1 other) ∨ one.1.Fresh two.1 other) size
                lefts ∧
              right.Shows activation.views later.heap (fun other =>
                (readable other ∨ declared.1.Fresh one.1 other) ∨ one.1.Fresh two.1 other) size
                rights := by
        refine leftShown.append fun between frame leftShows => ?_
        refine (rightReaches (readyTwo.frame frame) apartRight fun element below => ?_).mono
          leftGrows.values_le ?_ fun later rightFrame rightShows => ⟨?_, rightShows⟩
        · rw [leftOwn, agrees.scope_eq]
          exact ⟨((combined element below).2.2.right_reads.frame frame keeps).mono
            fun _ read => .inl read, (combined element below).2.1⟩
        · exact fun other keep fresh =>
            keep.2 ((fresh.mono_right loopGrows).mono_left leftGrows)
        · exact (leftShows.frame rightFrame fun other read =>
            apartRight.not_fresh (readyTwo.frame frame) read).mono fun _ read => .inl read
      refine bothShown.append fun between frame shows => ?_
      refine (loopReaches (ready.frame frame) placed ?_ length ?_ shows.1 shows.2).mono
        gathered.values_le (fun _ keep => keep.1) fun _ _ filled => filled
      · rintro ((read | fresh) | fresh)
        · exact unread read
        · exact old (fresh.mono_right (rightGrows.trans loopGrows))
        · exact old ((fresh.mono_right loopGrows).mono_left leftGrows)
      · exact fun element below => ⟨types element below, (combined element below).2.2.defined⟩

end Site

end Dataflow
