import Dataflow.Lowering.NodeCode
import Dataflow.Proofs.Lowering.Gathering

/-!
# What the code of a node can rely on

The code of a node asks its site for its inputs and outputs.  Inside the entry routine the
answers come from the scope, in a subroutine from the parameters.  The laws of this module
say the same thing for both: a variable that was loaded from an input has the value of
the element, and the window of an input holds its values.
-/

namespace Dataflow

namespace Lower

variable {before after : Builder × Lowering}

@[simp]
theorem succeeds_scope_iff {scope : Scope} :
    Succeeds Lower.scope before scope after ↔ scope = before.2.scope ∧ after = before := by
  simp only [Lower.scope, bind_pure_comp, succeeds_map_iff, Emit.succeeds_own_iff]
  constructor
  · rintro ⟨_, ⟨rfl, rfl⟩, rfl⟩
    exact ⟨rfl, rfl⟩
  · rintro ⟨rfl, rfl⟩
    exact ⟨_, ⟨rfl, rfl⟩, rfl⟩

@[simp]
theorem succeeds_setScope_iff {scope : Scope} {result : Unit} :
    Succeeds (Lower.setScope scope) before result after ↔
      after = (before.1, { before.2 with scope }) := by
  rw [Lower.setScope]
  exact Emit.succeeds_modifyOwn_iff

end Lower

/-- Two states of a lowering have the same scope and the same routines. -/
structure Lowering.Agrees (before after : Lowering) : Prop where
  scope_eq : after.scope = before.scope
  program_eq : after.program = before.program

theorem Lowering.Agrees.refl (lowering : Lowering) : lowering.Agrees lowering :=
  ⟨rfl, rfl⟩

theorem Lowering.Agrees.trans {before between after : Lowering} (first : before.Agrees between)
    (second : between.Agrees after) : before.Agrees after :=
  ⟨second.scope_eq.trans first.scope_eq, second.program_eq.trans first.program_eq⟩

theorem Lowering.Agrees.of_eq {before after : Lowering} (same : after = before) :
    before.Agrees after :=
  same ▸ .refl before

namespace Site

variable {site : Site} {before after : Builder × Lowering} {index element : Nat}

/-- Where the site reads an element of an input, there is a value. -/
def Reads (site : Site) (scope : Scope) (views : Array View) (heap : Array Buffer)
    (readable : Nat → Prop) (index element : Nat) (value : Scalar) : Prop :=
  match site.placement with
  | .inline => ∀ port, site.inputs[index]? = some port →
      ∀ coordinate, port.elements[element]? = some coordinate →
        scope.Places views heap readable coordinate value
  | .subroutine => Holds views heap readable index element value

theorem Reads.frame {scope : Scope} {views : Array View} {readable kept : Nat → Prop} {value : Scalar}
    {number : Nat} {machine later : Machine}
    (reads : site.Reads scope views machine.heap readable index element value)
    (frame : machine.Frame number kept later) (keeps : ∀ slot, readable slot → kept slot) :
    site.Reads scope views later.heap readable index element value := by
  unfold Reads at reads ⊢
  split at reads
  · exact fun port ported coordinate found => (reads port ported coordinate found).frame frame keeps
  · exact Holds.frame reads frame keeps

theorem Reads.mono {scope : Scope} {views : Array View} {heap : Array Buffer}
    {readable more : Nat → Prop} {value : Scalar}
    (reads : site.Reads scope views heap readable index element value)
    (includes : ∀ slot, readable slot → more slot) :
    site.Reads scope views heap more index element value := by
  unfold Reads at reads ⊢
  split at reads
  · exact fun port ported coordinate found location located =>
      (reads port ported coordinate found location located).mono includes
  · exact Holds.mono reads includes

theorem inputPort_eq_ok_iff {port : InputPort} :
    site.inputPort index = .ok port ↔ site.inputs[index]? = some port := by
  unfold inputPort
  cases site.inputs[index]? <;> simp

theorem outputPort_eq_ok_iff {port : OutputPort} :
    site.outputPort index = .ok port ↔ site.outputs[index]? = some port := by
  unfold outputPort
  cases site.outputs[index]? <;> simp

/-- Choosing a strategy emits no code. -/
theorem of_strategy {size : Nat} {choice : Strategy}
    (emitted : Succeeds (site.strategy size) before choice after) :
    after.1 = before.1 ∧ before.2.Agrees after.2 := by
  simp only [strategy, succeeds_bind_iff, Emit.succeeds_modifyOwn_iff, succeeds_pure_iff] at emitted
  obtain ⟨_, _, rfl, rfl, rfl⟩ := emitted
  exact ⟨rfl, rfl, rfl⟩

/-- Asking for the layout of an input emits no code. -/
theorem of_inputIsContiguous {contiguous : Bool}
    (emitted : Succeeds (site.inputIsContiguous index) before contiguous after) : after = before := by
  simp only [inputIsContiguous, succeeds_bind_iff, Emit.succeeds_check_iff] at emitted
  obtain ⟨port, _, ⟨_, rfl⟩, rest⟩ := emitted
  split at rest
  · simp only [succeeds_bind_iff, Lower.succeeds_scope_iff, Emit.succeeds_check_iff,
      succeeds_pure_iff] at rest
    obtain ⟨_, _, ⟨_, rfl⟩, _, _, ⟨_, rfl⟩, _, rfl⟩ := rest
    rfl
  · exact (succeeds_pure_iff.mp rest).2

/-- An element of an input is loaded from where the site reads it. -/
theorem of_inputElement {value : ValueId}
    (emitted : Succeeds (site.inputElement index element) before value after) :
    ∃ type array position, value = before.1.valueTypes.size ∧
      after = (before.1.define type (.load array (.fixed position)), before.2) ∧
      ∀ {views : Array View} {heap : Array Buffer} {readable : Nat → Prop} {scalar : Scalar},
        site.Reads before.2.scope views heap readable index element scalar →
        Holds views heap readable array position scalar := by
  simp only [inputElement, succeeds_bind_iff, Emit.succeeds_check_iff] at emitted
  obtain ⟨port, before, ⟨ported, rfl⟩, rest⟩ := emitted
  have inside := inputPort_eq_ok_iff.mp ported
  simp only [Reads]
  cases placed : site.placement with
  | inline =>
      simp only [placed] at rest ⊢
      split at rest
      · rename_i coordinate found
        simp only [succeeds_bind_iff, Lower.succeeds_scope_iff] at rest
        obtain ⟨_, before, ⟨rfl, rfl⟩, loaded⟩ := rest
        obtain ⟨location, located, rfl, rfl⟩ := Scope.of_load loaded
        exact ⟨_, _, _, rfl, rfl, fun reads => reads port inside coordinate found location located⟩
      · exact absurd rest not_succeeds_throw
  | subroutine =>
      simp only [placed] at rest ⊢
      obtain ⟨position, positioned, rfl, rfl⟩ := Emit.of_load rest
      obtain ⟨_, rfl⟩ := Builder.position_fixed_eq_ok_iff.mp positioned
      refine ⟨_, _, _, rfl, rfl, fun reads => ?_⟩
      simpa [inputParameter] using reads

/-- An input as one array holds the values of the input. -/
theorem of_inputArray {window : ArrayRef}
    (emitted : Succeeds (site.inputArray index) before window after) :
    ∃ port, site.inputs[index]? = some port ∧ after.2 = before.2 ∧ window.type = port.type ∧
      window.length = port.size ∧
      (site.placement = .subroutine → after.1.arrays = before.1.arrays) ∧
      ∃ code, before.1.Grows code after.1 ∧
        ∀ {activation : Activation} {machine : Machine} {readable : Nat → Prop}
          {values : Nat → Scalar}, after.1.Ready activation.views machine →
          before.1.Apart after.1 activation.views readable →
          (∀ element < port.size,
            site.Reads before.2.scope activation.views machine.heap readable index element
                (values element) ∧
              (values element).type = port.type) →
          activation.Reaches code before.1.valueTypes.size (¬before.1.Fresh after.1 ·) machine
            fun later => window.Shows activation.views later.heap
              (fun slot => readable slot ∨ before.1.Fresh after.1 slot) port.size values := by
  simp only [inputArray, succeeds_bind_iff, Emit.succeeds_check_iff] at emitted
  obtain ⟨port, before, ⟨ported, rfl⟩, rest⟩ := emitted
  have inside := inputPort_eq_ok_iff.mp ported
  refine ⟨port, inside, ?_⟩
  simp only [Reads]
  cases placed : site.placement with
  | inline =>
      simp only [placed, succeeds_bind_iff, Lower.succeeds_scope_iff] at rest ⊢
      obtain ⟨_, before, ⟨rfl, rfl⟩, gathered⟩ := rest
      obtain ⟨same, typed, length, code, grows, reaches⟩ := Scope.of_gather gathered
      refine ⟨same, typed, length, by simp, code, grows, fun ready apart reads => ?_⟩
      refine reaches ready apart fun position coordinate found => ?_
      obtain ⟨bound, _⟩ := List.getElem?_eq_some_iff.mp found
      exact ⟨(reads position bound).1 port inside coordinate found, (reads position bound).2⟩
  | subroutine =>
      simp only [placed] at rest ⊢
      obtain ⟨rfl, rfl⟩ := succeeds_pure_iff.mp rest
      refine ⟨rfl, rfl, rfl, fun _ => rfl, [], .refl _, fun _ _ reads => .nil ?_⟩
      intro position below
      rw [inputParameter, Nat.zero_add]
      exact (reads position below).1.mono fun _ read => .inl read

/-- The array of an output is a new array that the output is bound to, or a parameter. -/
theorem of_outputArray {window : ArrayRef}
    (emitted : Succeeds (site.outputArray index) before window after)
    (unbound : site.placement = .inline → before.2.scope.binding? (site.port index) = none) :
    ∃ port, site.outputs[index]? = some port ∧ window.type = port.type ∧ window.offset = 0 ∧
      window.length = port.size ∧
      match site.placement with
      | .inline => window.array = before.1.arrays.size ∧
          after = (before.1.withArray (.scratch port.type port.size),
            { before.2 with scope := before.2.scope.bindArray (site.port index) window })
      | .subroutine => window.array = site.inputs.length + index ∧ after = before := by
  simp only [outputArray, succeeds_bind_iff, Emit.succeeds_check_iff] at emitted
  obtain ⟨port, before, ⟨ported, rfl⟩, rest⟩ := emitted
  refine ⟨port, outputPort_eq_ok_iff.mp ported, ?_⟩
  cases placed : site.placement with
  | inline =>
      simp only [placed, succeeds_bind_iff, Lower.succeeds_scope_iff] at rest ⊢
      obtain ⟨_, before, ⟨rfl, rfl⟩, rest⟩ := rest
      simp only [unbound placed, succeeds_bind_iff, Emit.succeeds_declareArray_iff,
        Lower.succeeds_setScope_iff, succeeds_pure_iff] at rest
      obtain ⟨_, _, ⟨rfl, rfl⟩, _, _, rfl, rfl, rfl⟩ := rest
      exact ⟨rfl, rfl, rfl, rfl, rfl⟩
  | subroutine =>
      simp only [placed] at rest ⊢
      obtain ⟨rfl, rfl⟩ := succeeds_pure_iff.mp rest
      exact ⟨rfl, rfl, rfl, rfl, rfl⟩

theorem of_requireInline {result : Unit} (emitted : Succeeds site.requireInline before result after) :
    site.placement = .inline ∧ after = before := by
  unfold requireInline at emitted
  split at emitted
  · exact ⟨‹_›, (succeeds_pure_iff.mp emitted).2⟩
  · exact absurd emitted not_succeeds_throw

/-- Binding an output to an array emits no code. -/
theorem of_bindOutputArray {window : ArrayRef} {result : Unit}
    (emitted : Succeeds (site.bindOutputArray index window) before result after) :
    after = (before.1,
      { before.2 with scope := before.2.scope.bindArray (site.port index) window }) := by
  simp only [bindOutputArray, succeeds_bind_iff, Emit.succeeds_check_iff] at emitted
  obtain ⟨port, before, ⟨_, rfl⟩, rest⟩ := emitted
  split at rest
  · exact absurd rest (by simp)
  · simp only [succeeds_bind_iff, Lower.succeeds_scope_iff, Lower.succeeds_setScope_iff] at rest
    obtain ⟨_, _, required, _, _, ⟨rfl, rfl⟩, rfl⟩ := rest
    obtain ⟨_, rfl⟩ := of_requireInline required
    rfl

/-- Letting an output be another name for elements emits no code. -/
theorem of_bindOutputAlias {elements : Elements} {result : Unit}
    (emitted : Succeeds (site.bindOutputAlias index elements) before result after) :
    ∃ locations, before.2.scope.locateAll elements = .ok locations ∧
      after = (before.1, { before.2 with
        scope := before.2.scope.bind (site.port index) (.scattered locations) }) := by
  simp only [bindOutputAlias, succeeds_bind_iff, Emit.succeeds_check_iff] at emitted
  obtain ⟨port, before, ⟨_, rfl⟩, rest⟩ := emitted
  split at rest
  · exact absurd rest (by simp)
  · simp only [succeeds_bind_iff, Lower.succeeds_scope_iff, Lower.succeeds_setScope_iff,
      Emit.succeeds_check_iff] at rest
    obtain ⟨_, _, required, _, _, ⟨rfl, rfl⟩, _, _, ⟨bound, rfl⟩, rfl⟩ := rest
    obtain ⟨_, rfl⟩ := of_requireInline required
    simp only [Scope.bindAlias, bind_eq_ok_iff, pure_eq_ok_iff] at bound
    obtain ⟨locations, located, rfl⟩ := bound
    exact ⟨locations, located, rfl⟩

end Site

end Dataflow
