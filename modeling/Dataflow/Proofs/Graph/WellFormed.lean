import Dataflow.Proofs.Graph.Coherence

/-!
# Well-formed models

A model is well formed when it is coherent, its ids increase along the creation order
and stay below the next id, every input reads elements of earlier nodes that have its
type, and every output port has a buffer of its type and size.  Each edit either fails
and leaves the model as it was, or it does what its inversion lemma says, and that
keeps the model well formed.
-/

namespace Dataflow

/-- A buffer has the type and the size of a port. -/
def Buffer.Fits (buffer : Buffer) (port : OutputPort) : Prop :=
  buffer.type = port.type ∧ buffer.size = port.size

/-- Writing to a port leaves buffers that fit the ports. -/
theorem fits_of_setOutput {outputs written : List Buffer} {ports : List OutputPort} {port : Nat}
    {values : Buffer} (fits : List.Forall₂ Buffer.Fits outputs ports)
    (writes : setOutput outputs port values = .ok written) :
    List.Forall₂ Buffer.Fits written ports := by
  unfold setOutput at writes
  cases found : outputs[port]? with
  | none => simp [found] at writes
  | some slot =>
      simp only [found] at writes
      split at writes
      · contradiction
      · rename_i sameType
        split at writes
        · contradiction
        · rename_i sameSize
          obtain rfl := Except.ok.inj writes
          rw [List.forall₂_iff_get] at fits ⊢
          refine ⟨by simpa using fits.1, fun index before after => ?_⟩
          simp only [List.get_eq_getElem, List.getElem_set]
          have old := fits.2 index (by simpa using before) after
          split
          · rename_i here
            subst here
            obtain ⟨_, slotEq⟩ := List.getElem?_eq_some_iff.mp found
            simp only [List.get_eq_getElem, slotEq] at old
            exact ⟨(not_not.mp sameType).symm.trans old.1, (not_not.mp sameSize).symm.trans old.2⟩
          · exact old

namespace Model

/-- A coordinate is an element of a port of an earlier node, and the port has a
type. -/
def Provides (model : Model) (id : NodeId) (type : ScalarType) (coordinate : Coordinate) : Prop :=
  coordinate.node < id ∧
    ∃ source ∈ model.entries, source.id = coordinate.node ∧
      ∃ port, source.node.outputs[coordinate.port]? = some port ∧
        coordinate.element < port.size ∧ port.type = type

/-- The invariant of models. -/
structure WellFormed (model : Model) : Prop where
  coherent : model.Coherent
  ids_increasing : model.ids.Pairwise (· < ·)
  ids_below : ∀ id ∈ model.ids, id < model.nextId
  provided : ∀ entry ∈ model.entries, ∀ input ∈ entry.node.inputs,
    ∀ coordinate ∈ input.elements, model.Provides entry.id input.type coordinate
  buffered : ∀ entry ∈ model.entries, List.Forall₂ Buffer.Fits entry.outputs entry.node.outputs

/-- The check of a coordinate decides whether the model provides it. -/
theorem Coherent.checkCoordinate_eq_ok_iff {model : Model} (coherent : model.Coherent)
    {id : NodeId} {type : ScalarType} {coordinate : Coordinate} :
    model.checkCoordinate id type coordinate = .ok () ↔ model.Provides id type coordinate := by
  unfold checkCoordinate Provides
  by_cases earlier : id ≤ coordinate.node
  · simp [earlier]
  · simp only [earlier, if_false, Nat.lt_of_not_le earlier, true_and]
    cases found : model.node? coordinate.node with
    | none =>
        have absent : ∀ entry ∈ model.entries, entry.id ≠ coordinate.node := by
          intro entry mem same
          have present := coherent.node?_eq_some_iff.mpr ⟨entry, mem, same, rfl⟩
          simp [found] at present
        simp only [throw_ne_ok, false_iff, not_exists, not_and]
        exact fun entry mem same => absurd same (absent entry mem)
    | some node =>
        obtain ⟨source, mem, same, rfl⟩ := coherent.node?_eq_some_iff.mp found
        have only : ∀ entry ∈ model.entries, entry.id = coordinate.node → entry = source :=
          fun entry entryMem equal =>
            coherent.entry_unique entryMem mem (equal.trans same.symm)
        have narrow : ∀ holds : Entry → Prop,
            (∃ entry ∈ model.entries, entry.id = coordinate.node ∧ holds entry) ↔ holds source := by
          intro holds
          constructor
          · rintro ⟨entry, entryMem, equal, held⟩
            exact only entry entryMem equal ▸ held
          · exact fun held => ⟨source, mem, same, held⟩
        rw [narrow fun entry => ∃ port, entry.node.outputs[coordinate.port]? = some port ∧
          coordinate.element < port.size ∧ port.type = type]
        cases ported : source.node.outputs[coordinate.port]? with
        | none => simp [ported]
        | some port =>
            by_cases inside : port.size ≤ coordinate.element <;>
              by_cases typed : port.type = type <;>
              simp [ported, inside, typed, Nat.not_lt_of_le, Nat.lt_of_not_le]

theorem Coherent.checkInputs_eq_ok_iff {model : Model} (coherent : model.Coherent) {id : NodeId}
    {node : Node} :
    model.checkInputs id node = .ok () ↔
      ∀ input ∈ node.inputs, ∀ coordinate ∈ input.elements,
        model.Provides id input.type coordinate := by
  simp only [checkInputs, List.forM_eq_forM, forM_eq_ok_iff, coherent.checkCoordinate_eq_ok_iff]

/-! ## What edits do -/

section Edits

variable {model after : Model} {id : NodeId}

/-- The entry of a node that was just added. -/
def freshEntry (id : NodeId) (node : Node) : Entry :=
  ⟨id, node, node.outputs.map fun port => Buffer.zeros port.type port.size⟩

/-- An insertion that does not fail appends the node. -/
theorem outcome_insert (model : Model) (id : NodeId) (node : Node) :
    (∃ error, outcome (Edit.insert id node) model = (.error error, model)) ∨
      model.nextId ≤ id ∧ node.outputs.length ≤ maxOutputPorts ∧
        model.checkInputs id node = .ok () ∧
        outcome (Edit.insert id node) model =
          (.ok (), { model.extend (freshEntry id node) with nextId := id + 1 }) := by
  by_cases old : id < model.nextId
  · exact .inl ⟨.nonMonotonicId id, by simp [Edit.insert, outcome_bind, old]⟩
  by_cases many : maxOutputPorts < node.outputs.length
  · exact .inl ⟨.tooManyOutputPorts node.outputs.length,
      by simp [Edit.insert, outcome_bind, old, many]⟩
  cases checked : model.checkInputs id node with
  | error error =>
      exact .inl ⟨error, by simp [Edit.insert, outcome_bind, old, many, checked, Edit.check]⟩
  | ok _ =>
      refine .inr ⟨Nat.le_of_not_lt old, Nat.le_of_not_lt many, rfl, ?_⟩
      simp [Edit.insert, outcome_bind, old, many, checked, Edit.check, outcome_append, freshEntry]

/-- A removal that does not fail takes out a node that is not read. -/
theorem outcome_remove (coherent : model.Coherent) (id : NodeId) :
    (∃ error, outcome (Edit.remove id) model = (.error error, model)) ∨
      ∃ key entry, model.arena.get? key = some entry ∧ entry.id = id ∧
        model.dependents id = [] ∧
        outcome (Edit.remove id) model = (.ok entry.node, model.without id key) := by
  cases keyed : model.key? id with
  | none => exact .inl ⟨.unknownNode id, by simp [Edit.remove, outcome_bind, keyed]⟩
  | some key =>
      obtain ⟨entry, found, same⟩ := coherent.key?_eq_some_iff.mp keyed
      cases read : model.dependents id with
      | cons first rest =>
          exact .inl ⟨.dependencyViolation id (first :: rest),
            by simp [Edit.remove, outcome_bind, keyed, read]⟩
      | nil =>
          refine .inr ⟨key, entry, found, same, rfl, ?_⟩
          simp [Edit.remove, outcome_bind, outcome_map, keyed, read, found, without]

/-- Setting an input, if that does not fail, replaces the buffers of its entry. -/
theorem outcome_setInput (model : Model) (id : NodeId) (values : Buffer) :
    (∃ error, outcome (Edit.setInput id values) model = (.error error, model)) ∨
      ∃ entry outputs, model.entry id = .ok entry ∧ entry.node.capabilities.input ∧
        setOutput entry.outputs 0 values = .ok outputs ∧
        outcome (Edit.setInput id values) model =
          (.ok (), model.modifyEntry id fun entry => { entry with outputs }) := by
  cases found : model.entry id with
  | error error =>
      exact .inl ⟨error, by simp [Edit.setInput, outcome_bind, found, Edit.check]⟩
  | ok entry =>
      cases input : entry.node.capabilities.input with
      | false =>
          exact .inl ⟨.notAnInput id,
            by simp [Edit.setInput, outcome_bind, found, Edit.check, input]⟩
      | true =>
          cases writes : setOutput entry.outputs 0 values with
          | error error =>
              exact .inl ⟨.node id entry.node.typeName error,
                by simp [Edit.setInput, outcome_bind, found, Edit.check, input, writes]⟩
          | ok outputs =>
              refine .inr ⟨entry, outputs, rfl, input, writes, ?_⟩
              simp [Edit.setInput, outcome_bind, found, Edit.check, input, writes]

theorem edit_eq_ok_iff {α : Type} {action : Edit α} {result : α} :
    model.edit action = .ok (result, after) ↔ Succeeds action model result after := by
  unfold edit Succeeds outcome
  split <;> simp [*, Prod.ext_iff]

theorem insert_eq_ok_iff {node : Node} :
    model.insert id node = .ok after ↔
      model.nextId ≤ id ∧ node.outputs.length ≤ maxOutputPorts ∧
        model.checkInputs id node = .ok () ∧
        after = { model.extend (freshEntry id node) with nextId := id + 1 } := by
  simp only [insert, bind_eq_ok_iff, pure_eq_ok_iff, Prod.exists, edit_eq_ok_iff, Succeeds]
  rcases outcome_insert model id node with ⟨error, failed⟩ | ⟨later, few, checked, done⟩
  · simp only [failed, Prod.mk.injEq, reduceCtorEq, false_and, exists_false, false_iff]
    rintro ⟨later, few, checked, _⟩
    simp [Edit.insert, outcome_bind, Nat.not_lt.mpr later, Nat.not_lt.mpr few, checked,
      Edit.check, outcome_append] at failed
  · simp [done, later, few, checked, eq_comm]

theorem add_eq_ok_iff {node : Node} :
    model.add node = .ok (id, after) ↔ id = model.nextId ∧ model.insert id node = .ok after := by
  simp only [add, edit_eq_ok_iff, Edit.add, insert, succeeds_bind_iff, succeeds_get_iff,
    succeeds_pure_iff, bind_eq_ok_iff, pure_eq_ok_iff, Prod.exists]
  constructor
  · rintro ⟨_, _, ⟨rfl, rfl⟩, ⟨⟩, _, inserted, rfl, rfl⟩
    exact ⟨rfl, (), _, inserted, rfl⟩
  · rintro ⟨rfl, ⟨⟩, _, inserted, rfl⟩
    exact ⟨model, model, ⟨rfl, rfl⟩, (), _, inserted, rfl, rfl⟩

theorem setInput_eq_ok_iff {values : Buffer} :
    model.setInput id values = .ok after ↔
      ∃ entry outputs, model.entry id = .ok entry ∧ entry.node.capabilities.input ∧
        setOutput entry.outputs 0 values = .ok outputs ∧
        after = model.modifyEntry id fun entry => { entry with outputs } := by
  simp only [setInput, bind_eq_ok_iff, pure_eq_ok_iff, Prod.exists, edit_eq_ok_iff, Succeeds]
  rcases outcome_setInput model id values with
    ⟨error, failed⟩ | ⟨entry, outputs, found, input, writes, done⟩
  · simp only [failed, Prod.mk.injEq, reduceCtorEq, false_and, exists_false, false_iff]
    rintro ⟨entry, outputs, found, input, writes, _⟩
    simp [Edit.setInput, outcome_bind, found, Edit.check, input, writes] at failed
  · simp only [done, found, Prod.mk.injEq, Except.ok.injEq, true_and]
    constructor
    · rintro ⟨_, _, rfl, rfl⟩
      exact ⟨entry, outputs, rfl, input, writes, rfl⟩
    · rintro ⟨_, others, rfl, _, otherWrites, rfl⟩
      obtain rfl := Except.ok.inj (writes.symm.trans otherWrites)
      exact ⟨(), _, rfl, rfl⟩

end Edits

end Model

end Dataflow
