import Dataflow.Proofs.Graph.Settled
import Dataflow.Proofs.Lowering.Subroutines

/-!
# Code and graph

The code of a model simulates the evaluator.  Between two nodes, each place of the scope holds
the value that the model computes for its coordinate, and the arrays that are not declared yet
hold what they hold when the routine is entered.  The code of each kind of node keeps this up,
and makes the calls of the sinks.
-/

namespace Dataflow

/-! ## Calls of nodes -/

/-- What the code of a node hands to the host: a sink passes its input on, when the trigger is
set. -/
def Operator.calls (inputs : List Buffer) : Operator → List (String × Buffer)
  | .sink _ name _ _ =>
      match inputs with
      | [values, .bool trigger] => if trigger[0]? = some true then [(name, values)] else []
      | _ => []
  | _ => []

/-- What the code of a node hands to the host for the values that its inputs have. -/
def Model.calls (model : Model) (entry : Entry) : List (String × Buffer) :=
  match model.gatherInputs entry.node with
  | .ok inputs => entry.node.operator.calls inputs
  | .error _ => []

/-- Sums of the model meet no first element that adding to zero changes. -/
def Model.Exact (model : Model) : Prop :=
  ∀ entry ∈ model.entries, ∀ inputs, model.gatherInputs entry.node = .ok inputs →
    entry.node.operator.Exact inputs

theorem Model.exact_iff {model : Model} : model.Exact ↔ ∀ entry ∈ model.entries,
    ∀ inputs ∈ (model.gatherInputs entry.node).toOption, entry.node.operator.Exact inputs := by
  refine forall₂_congr fun entry _ => forall_congr' fun inputs => ?_
  cases model.gatherInputs entry.node <;> simp [Except.toOption]

instance (model : Model) : Decidable model.Exact :=
  decidable_of_iff _ Model.exact_iff.symm

/-- No sum of the model meets a group of negative zeros and nothing else. -/
def Model.Unambiguous (model : Model) : Prop :=
  ∀ entry ∈ model.entries, ∀ inputs, model.gatherInputs entry.node = .ok inputs →
    entry.node.operator.Unambiguous inputs

theorem Model.Exact.unambiguous {model : Model} (exact : model.Exact) : model.Unambiguous :=
  fun entry mem inputs gathered => (exact entry mem inputs gathered).unambiguous

/-! ## The simulation -/

/-- Each array lies in the slot with its number. -/
def Plain (views : Array View) : Prop :=
  ∀ (array : ArrayId) (view : View), views[array]? = some view → view.slot = array ∧ view.offset = 0

/-- The slots of declared arrays, but for those that are reserved. -/
def Declared (reserved : Nat → Prop) (declared : Nat) (slot : Nat) : Prop :=
  slot < declared ∧ ¬reserved slot

/-- Each array of a routine is one buffer of the heap. -/
def Whole (routine : Builder) (heap : Array Buffer) : Prop :=
  ∀ (array : ArrayId) (declaration : ArrayDeclaration), routine.arrays[array]? = some declaration →
    ∃ buffer, heap[array]? = some buffer ∧ buffer.type = declaration.type ∧
      buffer.size = declaration.length

theorem Whole.size_le {routine : Builder} {heap : Array Buffer} (whole : Whole routine heap) :
    routine.arrays.size ≤ heap.size := by
  refine Nat.le_of_not_lt fun beyond => ?_
  obtain ⟨_, stored, _⟩ := whole _ _ (Array.getElem?_eq_getElem beyond)
  simp at stored

theorem Whole.frame {routine : Builder} {number : Nat} {kept : Nat → Prop} {machine later : Machine}
    (whole : Whole routine machine.heap) (frame : machine.Frame number kept later) :
    Whole routine later.heap := by
  intro array declaration declared
  obtain ⟨buffer, stored, typed, sized⟩ := whole array declaration declared
  obtain ⟨changed, changedStored, changedType, changedSize⟩ := frame.shapes array buffer stored
  exact ⟨changed, changedStored, changedType.trans typed, changedSize.trans sized⟩

/-- The places of a scope hold the values of a model.  Arrays from a number on are as they were
when the routine was entered. -/
structure Carries (model : Model) (final : Builder) (reserved : Nat → Prop) (views : Array View)
    (declared : Nat) (scope : Scope) (machine : Machine) : Prop where
  ready : final.Ready views machine
  whole : Whole final machine.heap
  pristine : ∀ (array : ArrayId) (declaration : ArrayDeclaration),
    final.arrays[array]? = some declaration → declared ≤ array →
      machine.heap[array]? = some declaration.contents
  places : ∀ coordinate location, scope.locate coordinate = .ok location →
    ∃ value, model.value coordinate = .ok value ∧
      Holds views machine.heap (Declared reserved declared) location.window.array location.absolute
        value

/-- Code that was added to the entry routine makes the calls that are due, and carries the values
of a model on. -/
def Transports (model : Model) (due : List (String × Buffer)) (before after : Builder × Lowering) :
    Prop :=
  before.2.program.Extends after.2.program ∧ ∃ code, before.1.Grows code after.1 ∧
    ∀ {activation : Activation} {program : Program} {depth : Nat} {final : Builder}
      {rest : List Instruction} {reserved : Nat → Prop} {machine : Machine},
      activation.call = program.call activation.host (depth + 1) →
      after.2.program.Extends program → after.1.Grows rest final → Plain activation.views →
      (∀ slot, reserved slot → slot < before.1.arrays.size) →
      Carries model final reserved activation.views before.1.arrays.size before.2.scope machine →
      activation.Delivers code due machine
        (Carries model final reserved activation.views after.1.arrays.size after.2.scope)

section Laws

variable {model : Model} {before between after : Builder × Lowering}

theorem Transports.refl (model : Model) (state : Builder × Lowering) :
    Transports model [] state state :=
  ⟨.refl _, [], .refl _, fun _ _ _ _ _ carries => .nil carries⟩

theorem Transports.trans {due more : List (String × Buffer)}
    (first : Transports model due before between) (second : Transports model more between after) :
    Transports model (due ++ more) before after := by
  obtain ⟨extended, code, grows, delivers⟩ := first
  obtain ⟨otherExtended, others, otherGrows, otherDelivers⟩ := second
  refine ⟨extended.trans otherExtended, code ++ others, grows.trans otherGrows, ?_⟩
  intro activation program depth final rest reserved machine calls extending finalGrows plain below
    carries
  refine (delivers calls (otherExtended.trans extending) (otherGrows.trans finalGrows) plain below
    carries).append fun middle carried => ?_
  exact otherDelivers calls extending finalGrows plain
    (fun slot held => Nat.lt_of_lt_of_le (below slot held) grows.arrays_le) carried

end Laws

/-! ## What the simulation allows -/

theorem Declared.mono {reserved : Nat → Prop} {fewer more slot : Nat} (upTo : fewer ≤ more)
    (declared : Declared reserved fewer slot) : Declared reserved more slot :=
  ⟨Nat.lt_of_lt_of_le declared.1 upTo, declared.2⟩

theorem Declared.not_fresh {reserved : Nat → Prop} {before after : Builder} {slot : Nat}
    (declared : Declared reserved before.arrays.size slot) : ¬before.Fresh after slot :=
  fun fresh => absurd fresh.1 (Nat.not_le.mpr declared.1)

/-- Arrays that are declared now lie apart from the places of the scope. -/
theorem Plain.apart {views : Array View} (plain : Plain views) {reserved : Nat → Prop}
    {before after : Builder} : before.Apart after views (Declared reserved before.arrays.size) := by
  intro array view fresh viewed
  exact ⟨(plain array view viewed).1, fun declared => declared.not_fresh fresh⟩

theorem Builder.Fresh.declared {reserved : Nat → Prop} {before after : Builder} {slot : Nat}
    (below : ∀ slot, reserved slot → slot < before.arrays.size) (fresh : before.Fresh after slot) :
    Declared reserved after.arrays.size slot :=
  ⟨fresh.2, fun held => absurd fresh.1 (Nat.not_le.mpr (below slot held))⟩

section Carrying

variable {model : Model} {final : Builder} {reserved : Nat → Prop} {views : Array View}
  {declared : Nat} {scope : Scope} {machine later : Machine}

/-- Code that only writes to arrays that it declares carries the values on. -/
theorem Carries.frame {before after : Builder} {code : List Instruction} {number : Nat}
    (carries : Carries model final reserved views before.arrays.size scope machine)
    (grows : before.Grows code after)
    (frame : machine.Frame number (¬before.Fresh after ·) later) :
    Carries model final reserved views after.arrays.size scope later where
  ready := carries.ready.frame frame
  whole := carries.whole.frame frame
  pristine array declaration found above := by
    have untouched : ¬before.Fresh after array := fun fresh => absurd fresh.2 (Nat.not_lt.mpr above)
    rw [frame.heap array untouched]
    exact carries.pristine array declaration found (Nat.le_trans grows.arrays_le above)
  places coordinate location located := by
    obtain ⟨value, computed, holds⟩ := carries.places coordinate location located
    exact ⟨value, computed, (holds.frame frame fun _ declared => declared.not_fresh).mono
      fun _ => .mono grows.arrays_le⟩

/-- Code that only writes to reserved slots carries the values on. -/
theorem Carries.of_reserved {number : Nat} {kept : Nat → Prop}
    (carries : Carries model final reserved views declared scope machine)
    (frame : machine.Frame number kept later) (keeps : ∀ slot, ¬reserved slot → kept slot)
    (below : ∀ slot, reserved slot → slot < declared) :
    Carries model final reserved views declared scope later where
  ready := carries.ready.frame frame
  whole := carries.whole.frame frame
  pristine array declaration found above := by
    have free : ¬reserved array := fun held => absurd (below array held) (Nat.not_lt.mpr above)
    rw [frame.heap array (keeps array free)]
    exact carries.pristine array declaration found above
  places coordinate location located := by
    obtain ⟨value, computed, holds⟩ := carries.places coordinate location located
    exact ⟨value, computed, holds.frame frame fun slot declared => keeps slot declared.2⟩

/-- The values do not depend on anything but the variables and the buffers. -/
theorem Carries.of_eq (carries : Carries model final reserved views declared scope machine)
    (registers : later.registers = machine.registers) (heap : later.heap = machine.heap) :
    Carries model final reserved views declared scope later where
  ready := ⟨registers ▸ carries.ready.values, heap ▸ carries.ready.arrays⟩
  whole := heap ▸ carries.whole
  pristine := heap ▸ carries.pristine
  places := heap ▸ carries.places

/-- Binding a port to places that hold its values. -/
theorem Carries.bind {port : OutputRef} {binding : PortBinding}
    (carries : Carries model final reserved views declared scope machine)
    (bound : ∀ coordinate location, coordinate.output = port →
      binding.locate coordinate.element = .ok location →
        ∃ value, model.value coordinate = .ok value ∧
          Holds views machine.heap (Declared reserved declared) location.window.array
            location.absolute value) :
    Carries model final reserved views declared (scope.bind port binding) machine where
  ready := carries.ready
  whole := carries.whole
  pristine := carries.pristine
  places coordinate location located := by
    by_cases same : coordinate.output = port
    · rw [Scope.locate, same, Scope.binding?_bind] at located
      exact bound coordinate location same located
    · rw [Scope.locate_bind_of_ne same] at located
      exact carries.places coordinate location located

/-- Binding a port to a window that shows its values. -/
theorem Carries.bindArray {port : OutputRef} {window : ArrayRef} {values : Buffer}
    (carries : Carries model final reserved views declared scope machine)
    (shows : window.ShowsBuffer views machine.heap (Declared reserved declared) values)
    (computed : ∀ coordinate scalar, coordinate.output = port →
      values.get? coordinate.element = some scalar → model.value coordinate = .ok scalar) :
    Carries model final reserved views declared (scope.bindArray port window) machine := by
  refine carries.bind fun coordinate location output located => ?_
  simp only [PortBinding.locate] at located
  split at located
  · rename_i inside
    obtain rfl := Except.ok.inj located
    have found := Buffer.get?_eq_item (shows.length_eq ▸ inside)
    exact ⟨_, computed coordinate _ output found, shows.holds _ _ found⟩
  · contradiction

/-- Binding a port to the places of elements that have its values. -/
theorem Carries.bindAlias {port : OutputRef} {elements : Elements} {locations : List Location}
    {type : ScalarType} {values : Buffer}
    (carries : Carries model final reserved views declared scope machine)
    (located : scope.locateAll elements = .ok locations)
    (gathered : model.gather elements type = .ok values)
    (computed : ∀ coordinate scalar, coordinate.output = port →
      values.get? coordinate.element = some scalar → model.value coordinate = .ok scalar) :
    Carries model final reserved views declared (scope.bind port (.scattered locations))
      machine := by
  refine carries.bind fun coordinate location output found => ?_
  have listed : locations[coordinate.element]? = some location := by
    simp only [PortBinding.locate] at found
    cases read : locations[coordinate.element]? <;> simp_all
  obtain ⟨source, element, place⟩ := exists_getElem?_right (mapM_eq_ok_iff.mp located) listed
  obtain ⟨value, sourceValue, holds⟩ := carries.places source location place
  obtain ⟨_, pointwise⟩ := Model.gather_eq_ok_iff.mp gathered
  obtain ⟨scalar, read, also⟩ := exists_getElem?_left pointwise element
  obtain rfl := Except.ok.inj (sourceValue.symm.trans also)
  exact ⟨value, computed coordinate value output (Buffer.getElem?_toList _ _ ▸ read), holds⟩

/-- The places of the elements of an input hold what the evaluator gathers. -/
theorem Carries.supplies {port : InputPort} {values : Buffer}
    (carries : Carries model final reserved views declared scope machine)
    (gathered : model.gather port.elements port.type = .ok values) :
    scope.Supplies views machine.heap (Declared reserved declared) port values := by
  obtain ⟨typed, pointwise⟩ := Model.gather_eq_ok_iff.mp gathered
  refine ⟨⟨typed, by simpa [InputPort.size] using pointwise.length_eq.symm⟩, ?_⟩
  intro index coordinate scalar element found location located
  rw [← Buffer.getElem?_toList] at found
  obtain ⟨other, otherElement, computed⟩ := exists_getElem?_right pointwise found
  obtain rfl := Option.some.inj (element.symm.trans otherElement)
  obtain ⟨value, also, holds⟩ := carries.places coordinate location located
  rwa [Except.ok.inj (also.symm.trans computed)] at holds

end Carrying

/-! ## The values of an entry -/

section Values

variable {model : Model} {entry : Entry}

/-- A standard node that is no input holds what its operator computes. -/
theorem Model.Solves.exists_values (solves : model.Solves entry) (standard : entry.node.Standard)
    (inner : entry.node.capabilities.input = false) :
    ∃ inputs values, model.gatherInputs entry.node = .ok inputs ∧
      entry.node.operator.value inputs = .ok (some values) ∧ entry.outputs = [values] ∧
      ∀ port ∈ entry.node.outputs, values.Fits port := by
  obtain ⟨inputs, result, gathered, computed, holds⟩ := solves
  obtain ⟨other, also, isInput, fits⟩ := standard.exists_value (feeds_of_gatherInputs gathered)
  obtain rfl := Except.ok.inj (computed.symm.trans also)
  cases result with
  | none => simp [inner] at isInput
  | some values => exact ⟨inputs, values, gathered, computed, holds values rfl, fits values rfl⟩

theorem Model.Coherent.value_of_outputs (coherent : model.Coherent) (mem : entry ∈ model.entries)
    {values : Buffer} (outputs : entry.outputs = [values]) {coordinate : Coordinate}
    (output : coordinate.output = ⟨entry.id, 0⟩) {scalar : Scalar}
    (found : values.get? coordinate.element = some scalar) :
    model.value coordinate = .ok scalar := by
  have node : coordinate.node = entry.id := congrArg OutputRef.node output
  have port : coordinate.port = 0 := congrArg OutputRef.port output
  exact coherent.value_eq_ok_iff.mpr
    ⟨entry, mem, node.symm, values, by simp [outputs, port], found⟩

end Values

/-! ## Steps of the simulation -/

section Steps

variable {model : Model} {entry : Entry} {before after : Builder × Lowering}

/-- What the scope supplies to the inputs of a node. -/
theorem Carries.supplies_inputs {final : Builder} {reserved : Nat → Prop} {views : Array View}
    {declared : Nat} {scope : Scope} {machine : Machine} {node : Node} {inputs : List Buffer}
    (carries : Carries model final reserved views declared scope machine)
    (gathered : model.gatherInputs node = .ok inputs) :
    List.Forall₂ (scope.Supplies views machine.heap (Declared reserved declared)) node.inputs
      inputs :=
  (Model.gatherInputs_eq_ok_iff.mp gathered).imp fun _ _ => carries.supplies

/-- A node that gets an array of its own. -/
theorem transports_of_computes (coherent : model.Coherent) (mem : entry ∈ model.entries)
    (solves : model.Solves entry) (standard : entry.node.Standard)
    (inner : entry.node.capabilities.input = false) (unambiguous : model.Unambiguous)
    (computes : entry.node.Computes entry.id before after) : Transports model [] before after := by
  obtain ⟨window, code, fresh, scope, extended, grows, reaches⟩ := computes
  obtain ⟨inputs, values, gathered, computed, outputs, fits⟩ := solves.exists_values standard inner
  refine ⟨extended, code, grows, ?_⟩
  intro activation program depth final rest reserved machine calls extending finalGrows plain below
    carries
  have ran := reaches calls extending (carries.ready.of_grows finalGrows) plain.apart
    (carries.supplies_inputs gathered) computed (unambiguous entry mem inputs gathered) fits
  refine (ran.mono (Nat.zero_le _) (fun _ kept => kept) fun later frame shows => ?_).delivers
  rw [scope]
  exact (carries.frame grows frame).bindArray (shows.mono fun _ new => new.declared below)
    fun _ _ output found => coherent.value_of_outputs mem outputs output found

/-- A port that is bound to a constant array. -/
theorem transports_of_constant (coherent : model.Coherent) (mem : entry ∈ model.entries)
    {values : Buffer} (outputs : entry.outputs = [values])
    (array : after.1 = before.1.withArray (.constant values))
    (scope : after.2.scope = before.2.scope.bindArray ⟨entry.id, 0⟩
      ⟨before.1.arrays.size, values.type, 0, values.size⟩)
    (program : after.2.program = before.2.program) : Transports model [] before after := by
  have grows : before.1.Grows [] after.1 := array ▸ .withArray _ _
  refine ⟨program ▸ .refl _, [], grows, ?_⟩
  intro activation _ depth final rest reserved machine _ _ finalGrows plain below carries
  have declared : after.1.arrays[before.1.arrays.size]? = some (.constant values) := by
    simp [array, Builder.withArray]
  have fresh : before.1.Fresh after.1 before.1.arrays.size :=
    ⟨Nat.le_refl _, (Array.getElem?_eq_some_iff.mp declared).1⟩
  have kept := (finalGrows.getElem?_arrays fresh.2).trans declared
  obtain ⟨slot, view, _, viewed, _, viewLength, _⟩ := carries.ready.arrays _ _ kept
  obtain ⟨own, offset⟩ := plain _ view viewed
  have stored := carries.pristine _ _ kept (Nat.le_refl _)
  refine .nil ?_
  rw [scope]
  refine (carries.frame grows (.refl 0 _ machine)).bindArray ⟨rfl, rfl, fun index scalar found => ?_⟩
    fun _ _ output found => coherent.value_of_outputs mem outputs output found
  refine ⟨view, values, scalar, viewed, ?_, own ▸ fresh.declared below, own ▸ stored, ?_, .refl _⟩
  · rw [Nat.zero_add, viewLength]
    exact Buffer.lt_size_of_get?_eq_some found
  · rw [offset, Nat.zero_add, Nat.zero_add, found]

/-- A port that is another name for elements. -/
theorem transports_of_alias (coherent : model.Coherent) (mem : entry ∈ model.entries)
    {values : Buffer} (outputs : entry.outputs = [values]) {elements : Elements} {type : ScalarType}
    {locations : List Location} (gathered : model.gather elements type = .ok values)
    (located : before.2.scope.locateAll elements = .ok locations) (same : after.1 = before.1)
    (scope : after.2.scope = before.2.scope.bind ⟨entry.id, 0⟩ (.scattered locations))
    (program : after.2.program = before.2.program) : Transports model [] before after := by
  refine ⟨program ▸ .refl _, [], same ▸ .refl _, ?_⟩
  intro activation _ depth final rest reserved machine _ _ _ _ _ carries
  refine .nil ?_
  rw [same, scope]
  exact carries.bindAlias located gathered
    fun _ _ output found => coherent.value_of_outputs mem outputs output found

/-- A branch around a call of the host. -/
theorem of_branch_call {condition : ValueId} {name : String} {window : ArrayRef} {done : Unit}
    (emitted : Succeeds (Emit.branch condition (Emit.call (.host name) [.array window])) before done
      after) :
    before.1.checkArray window = .ok () ∧ after.2 = before.2 ∧
      before.1.Grows [.branch condition
        [.call (.host name) [.window window.array window.offset window.length]]] after.1 := by
  obtain ⟨inner, own, called, rfl⟩ := Emit.of_branch emitted
  obtain ⟨arguments, passed, same⟩ := Emit.succeeds_call_iff.mp called
  obtain ⟨rfl, rfl⟩ := Prod.mk.inj same
  have operands : List.Forall₂ (fun operand argument =>
      before.1.openBlock.argument operand = .ok argument) ([window].map .array) arguments :=
    mapM_eq_ok_iff.mp passed
  obtain ⟨checked, rfl⟩ := arguments_eq_of_checked operands
  obtain ⟨block, closed⟩ := (Builder.Grows.push before.1.openBlock
    (.call (.host name) [.window window.array window.offset window.length])).block
  refine ⟨checked window List.mem_cons_self, rfl, ?_⟩
  have pushed := closed.trans (Builder.Grows.push _ (.branch condition
    [.call (.host name) [.window window.array window.offset window.length]]))
  rw [← block] at pushed
  exact block ▸ pushed

/-- A branch on an element of an input that hands another input to the host. -/
theorem transports_of_branch {id : NodeId} {node : Node} {options : CompilerOptions} {name : String}
    {first second : Builder × Lowering} {trigger : ValueId} {window : ArrayRef}
    {input condition : InputPort} {values : Buffer} {bools : Array Bool} {done : Unit}
    (inputs : node.inputs = [input, condition]) (single : condition.size = 1)
    (gathered : model.gatherInputs node = .ok [values, .bool bools])
    (loaded : Succeeds ((Site.ofNode id node options .inline).inputElement 1 0) before trigger first)
    (collected : Succeeds ((Site.ofNode id node options .inline).inputArray 0) first window second)
    (branched : Succeeds (Emit.branch trigger (Emit.call (.host name) [.array window])) second done
      after) :
    Transports model (if bools[0]? = some true then [(name, values)] else []) before after ∧
      after.2 = before.2 := by
  obtain ⟨type, array, position, rfl, rfl, reads⟩ := Site.of_inputElement loaded
  obtain ⟨port, ported, sameOwn, typed, length, _, code, grows, gathers⟩ :=
    Site.of_inputArray collected
  obtain ⟨checked, branchOwn, pushed⟩ := of_branch_call branched
  have feeds := Model.feeds_of_gatherInputs gathered
  rw [inputs] at feeds
  obtain ⟨valuesFeed, rest⟩ := List.forall₂_cons.mp feeds
  obtain ⟨boolsFeed, _⟩ := List.forall₂_cons.mp rest
  have size : bools.size = 1 := boolsFeed.2.trans single
  obtain ⟨set, found⟩ : ∃ set, bools[0]? = some set := ⟨_, Array.getElem?_eq_getElem (by omega)⟩
  have due : (if bools[0]? = some true then [(name, values)] else []) =
      if set then [(name, values)] else [] := by simp [found]
  obtain rfl : input = port := by
    rw [Site.ofNode, inputs] at ported
    exact Option.some.inj ported
  have defined := Builder.Grows.define before.1 type (.load array (.fixed position))
  have own : after.2 = before.2 := branchOwn.trans sameOwn
  refine ⟨⟨own ▸ .refl _, _, (defined.trans grows).trans pushed, ?_⟩, own⟩
  intro activation program depth final others reserved machine calls extending finalGrows plain below
    carries
  have supplies := carries.supplies_inputs gathered
  rw [inputs] at supplies
  obtain ⟨valuesSupply, rest⟩ := List.forall₂_cons.mp supplies
  obtain ⟨boolsSupply, _⟩ := List.forall₂_cons.mp rest
  have ready := carries.ready.of_grows finalGrows
  have secondReady := ready.of_grows pushed
  have triggerReads : (Site.ofNode id node options .inline).Reads before.2.scope activation.views
      machine.heap (Declared reserved before.1.arrays.size) 1 0 (.bool set) := by
    intro port ported coordinate element
    rw [Site.ofNode, inputs] at ported
    obtain rfl := Option.some.inj ported
    exact boolsSupply.places 0 coordinate _ element (by simp [Buffer.get?, found])
  have valuesRead : ∀ element < input.size,
      (Site.ofNode id node options .inline).Reads before.2.scope activation.views machine.heap
          (Declared reserved before.1.arrays.size) 0 element (values.item element) ∧
        (values.item element).type = input.type := by
    intro element inside
    rw [← valuesFeed.2] at inside
    refine ⟨?_, (Buffer.type_item inside).trans valuesFeed.1⟩
    intro port ported coordinate place
    rw [Site.ofNode, inputs] at ported
    obtain rfl := Option.some.inj ported
    exact valuesSupply.places element coordinate _ place (Buffer.get?_eq_item inside)
  have bound : before.1.valueTypes.size < machine.registers.size :=
    Nat.lt_of_lt_of_le
      (Builder.value_lt_define before.1 type (.load array (.fixed position)))
      (Nat.le_trans grows.values_le secondReady.values)
  have loads : activation.Reaches [.assign before.1.valueTypes.size (.load array (.fixed position))]
      before.1.valueTypes.size (fun _ => True) machine
      (·.Has before.1.valueTypes.size (.bool set)) :=
    Activation.reaches_load (reads triggerReads) (machine.points_fixed _) bound
  have ran : activation.Reaches
      ([.assign before.1.valueTypes.size (.load array (.fixed position))] ++ code)
      before.1.valueTypes.size (¬before.1.Fresh after.1 ·) machine fun later =>
        later.Has before.1.valueTypes.size (.bool set) ∧
          window.ShowsBuffer activation.views later.heap (Declared reserved after.1.arrays.size)
            values := by
    refine loads.read_append fun middle frame has => ?_
    refine (gathers (secondReady.frame frame) plain.apart fun element inside =>
      ⟨(valuesRead element inside).1.frame frame fun _ _ => trivial,
        (valuesRead element inside).2⟩).mono (Nat.le_of_lt (Builder.value_lt_define _ _ _))
      (fun _ old fresh => old ((fresh.mono_left defined).mono_right pushed)) ?_
    intro later gatherFrame shows
    refine ⟨has.frame gatherFrame (Builder.value_lt_define _ _ _),
      typed.trans valuesFeed.1.symm, length.trans valuesFeed.2.symm, fun index scalar got => ?_⟩
    have holds := shows index (valuesFeed.2 ▸ Buffer.lt_size_of_get?_eq_some got)
    rw [Buffer.item_of_get?_eq_some got] at holds
    refine holds.mono ?_
    rintro slot (old | fresh)
    · exact old.mono ((defined.trans grows).trans pushed).arrays_le
    · exact ((fresh.mono_left defined).mono_right pushed).declared below
  have arrived : activation.Delivers
      ([.assign before.1.valueTypes.size (.load array (.fixed position))] ++ code) [] machine
      fun later => (later.Has before.1.valueTypes.size (.bool set) ∧
          window.ShowsBuffer activation.views later.heap (Declared reserved after.1.arrays.size)
            values) ∧
        Carries model final reserved activation.views after.1.arrays.size after.2.scope later :=
    (ran.mono (Nat.le_refl _) (fun _ kept => kept) fun later frame reached =>
      ⟨reached, own ▸ carries.frame ((defined.trans grows).trans pushed) frame⟩).delivers
  rw [due]
  refine arrived.append fun later reached => ?_
  obtain ⟨⟨has, shows⟩, carried⟩ := reached
  refine Activation.delivers_branch has (fun _ => ?_) fun _ => carried
  have laterReady := (carried.ready.of_grows finalGrows).of_grows pushed
  obtain ⟨passed, passes⟩ := laterReady.passes checked
  obtain ⟨slot, size, backed, _⟩ := laterReady.backed checked
  exact (Activation.delivers_call passes backed shows).mono fun last unchanged =>
    carried.of_eq unchanged.1 unchanged.2

end Steps

end Dataflow
