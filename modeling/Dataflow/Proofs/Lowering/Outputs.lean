import Dataflow.Proofs.Lowering.Nodes

/-!
# Copying the requested elements

At the end of the entry routine, the requested elements are copied to the output parameters: in
a loop, where they are one window already, or one by one.  No place of the scope lies in an
output parameter, so the copies do not disturb each other.
-/

namespace Dataflow

section Copying

variable {options : CompilerOptions} {before after : Builder × Lowering} {done : Unit}

/-- A loop that copies a window. -/
theorem of_copyLoop {source target : ArrayRef} {count : Nat}
    (emitted : Succeeds
      (Emit.loop 0 count fun index => do
        let value ← Emit.load source (.value index)
        Emit.store target (.value index) value) before done after) :
    after.2 = before.2 ∧ after.1.arrays = before.1.arrays ∧
      ∃ code, before.1.Grows code after.1 ∧
        ∀ {activation : Activation} {machine : Machine} {readable : Nat → Prop} {slot : Nat}
          {values : Nat → Scalar}, after.1.Ready activation.views machine →
          (∀ view, activation.views[target.array]? = some view → view.slot = slot) →
          ¬readable slot → target.length = count →
          (∀ element < count, (values element).type = target.type) →
          source.Shows activation.views machine.heap readable count values →
          activation.Reaches code before.1.valueTypes.size (· ≠ slot) machine fun later =>
            Filled activation.views later.heap slot target count values := by
  obtain ⟨inner, own, ran, rfl⟩ := Emit.of_loop emitted
  simp only [succeeds_bind_iff] at ran
  obtain ⟨_, _, loaded, stored⟩ := ran
  obtain ⟨_, sourcePlaced, rfl, rfl⟩ := Emit.of_load loaded
  obtain rfl := Builder.position_of_value sourcePlaced
  obtain ⟨_, targetPlaced, checked, same⟩ := Emit.of_store stored
  obtain rfl := Builder.position_of_value targetPlaced
  obtain ⟨rfl, rfl⟩ := Prod.mk.inj same
  have grows := (Builder.Grows.define (before.1.withValue .index).openBlock source.type
    (.load source.array (.indexed before.1.valueTypes.size source.offset))).trans
      (Builder.Grows.push _ (.store target.array
        (.indexed before.1.valueTypes.size target.offset)
        (before.1.withValue .index).openBlock.valueTypes.size))
  obtain ⟨body, blockGrows⟩ := grows.block
  have counted := Builder.Grows.withValue before.1 .index
  refine ⟨rfl, by simp [Builder.withValue], _, (counted.trans blockGrows).trans (.push _ _), ?_⟩
  intro activation machine readable slot values ready placed unread length typed shows
  rw [body]
  have keeps : ∀ other, readable other → other ≠ slot := by
    rintro other read rfl
    exact unread read
  have registers : before.1.valueTypes.size + 1 < machine.registers.size := by
    simpa [Builder.withValue] using ready.values
  refine Activation.reaches_loop (fun count later =>
    Filled activation.views later.heap slot target count values) (Nat.le_refl _)
    (Nat.lt_of_lt_of_le (by omega) registers) filled_zero ?_
  intro index current entered below frame filled entering counter
  have points : ∀ window : ArrayRef, entered.Points (window.offset + index)
      (.indexed before.1.valueTypes.size window.offset) :=
    fun window => ⟨index, counter, Nat.add_comm _ _⟩
  refine (reaches_copy_next (.indexed before.1.valueTypes.size source.offset)
    (.indexed before.1.valueTypes.size target.offset)
    ((ready.frame frame).of_eq (by simp) (by simp)) checked placed (typed index below)
    (length ▸ below) ((shows index below).frame frame keeps) (points source) (points target)
    (by simp [Builder.withValue]) (Builder.value_lt_define _ _ _) (filled.frame entering trivial)).mono
    (by simp [Builder.withValue]) (fun _ different => different) fun _ _ next => next

/-- Copying elements fills the target with their values. -/
theorem of_copyOutput {elements : Elements} {target : ArrayRef}
    (emitted : Succeeds (copyOutput options elements target) before done after)
    (length : target.length = elements.length) :
    after.2 = before.2 ∧ after.1.arrays = before.1.arrays ∧
      ∃ code, before.1.Grows code after.1 ∧
        ∀ {activation : Activation} {machine : Machine} {readable : Nat → Prop} {slot : Nat}
          {values : Nat → Scalar}, after.1.Ready activation.views machine →
          (∀ view, activation.views[target.array]? = some view → view.slot = slot) →
          ¬readable slot →
          (∀ index coordinate, elements[index]? = some coordinate →
            before.2.scope.Places activation.views machine.heap readable coordinate (values index) ∧
              (values index).type = target.type) →
          activation.Reaches code before.1.valueTypes.size (· ≠ slot) machine fun later =>
            Filled activation.views later.heap slot target elements.length values := by
  simp only [copyOutput, succeeds_bind_iff, Lower.succeeds_scope_iff, Emit.succeeds_check_iff]
    at emitted
  obtain ⟨_, _, ⟨rfl, rfl⟩, covered, before, ⟨covers, rfl⟩, rest⟩ := emitted
  split at rest
  · obtain ⟨own, arrays, code, grows, reaches⟩ := of_copyLoop rest
    obtain ⟨_, _, shows⟩ := Scope.shows_of_contiguous covers
    refine ⟨own, arrays, code, grows, ?_⟩
    intro activation machine readable slot values ready placed unread places
    refine reaches ready placed unread length (fun element below => ?_)
      (shows fun index coordinate found => (places index coordinate found).1)
    exact (places element _ (List.getElem?_eq_getElem below)).2
  · obtain ⟨own, arrays, code, grows, reaches⟩ := Scope.of_copyElements rest
    refine ⟨own, arrays, code, grows, ?_⟩
    intro activation machine readable slot values ready placed unread places
    have filled := reaches ready placed unread (by simpa using places) filled_zero
    rwa [Nat.zero_add] at filled

/-- The window of a whole output parameter. -/
def outputWindow (index : Nat) (parameter : Parameter) : ArrayRef :=
  ⟨index, parameter.type, 0, parameter.length⟩

/-- Output parameters from a position on show buffers. -/
def ShowsOutputs (views : Array View) (heap : Array Buffer) (index : Nat)
    (parameters : List Parameter) (values : List Buffer) : Prop :=
  ∀ position parameter buffer, parameters[position]? = some parameter →
    values[position]? = some buffer →
      (outputWindow (index + position) parameter).ShowsBuffer views heap (· = index + position) buffer

/-- The output parameters get the values of the requested elements, one after another. -/
theorem of_copyOutputs {index : Nat} {requests : List (Parameter × Elements)}
    (emitted : Succeeds (copyOutputs options index requests) before done after)
    (lengths : ∀ request ∈ requests, request.1.length = request.2.length) :
    after.2 = before.2 ∧ after.1.arrays = before.1.arrays ∧
      ∃ code, before.1.Grows code after.1 ∧
        ∀ {activation : Activation} {machine : Machine} {model : Model} {final : Builder}
          {reserved : Nat → Prop} {declared : Nat} {rest : List Instruction}
          {expected : List Buffer}, after.1.Grows rest final → Plain activation.views →
          (∀ slot, reserved slot → slot < declared) →
          (∀ slot, index ≤ slot → slot < index + requests.length → reserved slot) →
          Carries model final reserved activation.views declared before.2.scope machine →
          List.Forall₂ (fun request values => model.gather request.2 request.1.type = .ok values)
            requests expected →
          activation.Reaches code before.1.valueTypes.size
            (fun slot => slot < index ∨ index + requests.length ≤ slot) machine fun later =>
              ShowsOutputs activation.views later.heap index (requests.map Prod.fst) expected := by
  induction requests generalizing before index with
  | nil =>
      obtain ⟨_, rfl⟩ := succeeds_pure_iff.mp emitted
      refine ⟨rfl, rfl, [], .refl _, fun _ _ _ _ _ _ => .nil ?_⟩
      intro position parameter buffer found
      simp at found
  | cons request requests ih =>
      obtain ⟨parameter, elements⟩ := request
      simp only [copyOutputs, succeeds_bind_iff] at emitted
      obtain ⟨_, between, copied, others⟩ := emitted
      obtain ⟨lengthHere, lengthsRest⟩ := List.forall_mem_cons.mp lengths
      obtain ⟨own, arrays, code, grows, reaches⟩ := of_copyOutput copied lengthHere
      obtain ⟨otherOwn, otherArrays, more, otherGrows, otherReaches⟩ := ih others lengthsRest
      refine ⟨otherOwn.trans own, otherArrays.trans arrays, code ++ more, grows.trans otherGrows, ?_⟩
      intro activation machine model final reserved declared rest expected finalGrows plain below held
        carries gathered
      obtain ⟨values, expected, here, later, rfl⟩ := List.forall₂_cons_left_iff.mp gathered
      have supplies : before.2.scope.Supplies activation.views machine.heap
          (Declared reserved declared) ⟨"output", parameter.type, elements⟩ values :=
        carries.supplies here
      have size : values.size = elements.length := supplies.feeds.2
      have last : reserved index := held index (Nat.le_refl _) (by simp)
      have placed : ∀ view, activation.views[(outputWindow index parameter).array]? = some view →
          view.slot = index := fun view viewed => (plain _ view viewed).1
      have places : ∀ (position : Nat) (coordinate : Coordinate),
          elements[position]? = some coordinate →
            before.2.scope.Places activation.views machine.heap (Declared reserved declared) coordinate
                (values.item position) ∧ (values.item position).type = parameter.type := by
        intro position coordinate found
        obtain ⟨bound, _⟩ := List.getElem?_eq_some_iff.mp found
        rw [← size] at bound
        exact ⟨supplies.places position coordinate _ found (Buffer.get?_eq_item bound),
          (Buffer.type_item bound).trans supplies.feeds.1⟩
      have first : activation.Reaches code before.1.valueTypes.size
          (fun slot => slot < index ∨ index + (requests.length + 1) ≤ slot) machine fun later =>
            (outputWindow index parameter).ShowsBuffer activation.views later.heap (· = index)
              values := by
        refine (reaches ((carries.ready.of_grows finalGrows).of_grows otherGrows) placed
          (fun declared => declared.2 last) places).mono (Nat.le_refl _) (by omega) ?_
        intro later _ filled
        rw [← size] at filled
        exact filled.showsBuffer supplies.feeds.1.symm (lengthHere.trans size.symm)
      refine first.append fun middle frame shows => ?_
      have carried : Carries model final reserved activation.views declared between.2.scope middle := by
        rw [own]
        refine carries.of_reserved frame (fun slot free => ?_) below
        by_contra outside
        exact free (held slot (by omega) (by simp only [List.length_cons]; omega))
      refine (otherReaches finalGrows plain below
        (fun slot above inside => held slot (by omega) (by simp only [List.length_cons]; omega))
        carried later).mono grows.values_le (by intro slot; omega) ?_
      intro final lastFrame others position found buffer foundAt bufferAt
      cases position with
      | zero =>
          obtain rfl := Option.some.inj foundAt
          obtain rfl := Option.some.inj bufferAt
          exact shows.frame lastFrame fun slot same => .inl (same ▸ Nat.lt_succ_self _)
      | succ position =>
          have shown := others position found buffer (by simpa using foundAt) (by simpa using bufferAt)
          rwa [show index + 1 + position = index + (position + 1) by omega] at shown

end Copying

end Dataflow
