import Dataflow.Proofs.Graph.Ordering

/-!
# Operations keep models well formed

Adding a node appends an entry that the checks have accepted.  Taking out a node strands
no reference, because only nodes without dependents are taken out.  Setting inputs and
computing replace buffers by others that fit the same ports.
-/

namespace Dataflow

namespace Model

variable {model : Model}

theorem wellFormed_empty : empty.WellFormed :=
  ⟨ordered_empty.coherent, ordered_empty.ids_increasing, ordered_empty.ids_below,
    fun entry mem => by simp at mem, fun entry mem => by simp at mem⟩

/-- Only the entries matter to what a model provides. -/
theorem Provides.mono {other : Model} {id : NodeId} {type : ScalarType} {coordinate : Coordinate}
    (provides : model.Provides id type coordinate)
    (kept : ∀ source ∈ model.entries, source.id = coordinate.node →
      ∃ image ∈ other.entries, image.id = source.id ∧ image.node.outputs = source.node.outputs) :
    other.Provides id type coordinate := by
  obtain ⟨earlier, source, mem, same, port, ported, inside, typed⟩ := provides
  obtain ⟨image, imageMem, imageId, outputs⟩ := kept source mem same
  exact ⟨earlier, image, imageMem, imageId.trans same, port, outputs ▸ ported, inside, typed⟩

/-! ## Adding nodes -/

theorem fits_freshEntry (id : NodeId) (node : Node) :
    List.Forall₂ Buffer.Fits (freshEntry id node).outputs (freshEntry id node).node.outputs := by
  simp only [freshEntry, List.forall₂_map_left_iff, List.forall₂_same]
  exact fun port _ => ⟨Buffer.type_zeros _ _, Buffer.size_zeros _ _⟩

/-- An insertion appends an entry with zeros in its buffers. -/
theorem Coherent.entries_of_insert (coherent : model.Coherent) {id : NodeId} {node : Node}
    {after : Model} (inserted : model.insert id node = .ok after) :
    after.entries = model.entries ++ [freshEntry id node] := by
  obtain ⟨_, _, _, rfl⟩ := insert_eq_ok_iff.mp inserted
  rw [entries_with_nextId, coherent.entries_extend]

/-- A checked node can be appended under an id that was not used before. -/
theorem WellFormed.append (wellFormed : model.WellFormed) {id : NodeId} {node : Node}
    (later : model.nextId ≤ id) (checked : model.checkInputs id node = .ok ()) :
    { model.extend (freshEntry id node) with nextId := id + 1 }.WellFormed := by
  have entries : { model.extend (freshEntry id node) with nextId := id + 1 }.entries =
      model.entries ++ [freshEntry id node] := wellFormed.coherent.entries_extend
  have ordered : { model.extend (freshEntry id node) with nextId := id + 1 }.Ordered :=
    wellFormed.ordered.append later
  refine
    { coherent := ordered.coherent
      ids_increasing := ordered.ids_increasing
      ids_below := ordered.ids_below
      provided := ?_, buffered := ?_ }
  · rw [entries]
    intro entry mem input inputMem coordinate coordinateMem
    have provides : model.Provides entry.id input.type coordinate := by
      rcases List.mem_append.mp mem with old | new
      · exact wellFormed.provided entry old input inputMem coordinate coordinateMem
      · obtain rfl := List.mem_singleton.mp new
        exact wellFormed.coherent.checkInputs_eq_ok_iff.mp checked input inputMem coordinate
          coordinateMem
    refine provides.mono fun source sourceMem _ => ⟨source, ?_, rfl, rfl⟩
    rw [entries]
    exact List.mem_append_left _ sourceMem
  · rw [entries]
    intro entry mem
    rcases List.mem_append.mp mem with old | new
    · exact wellFormed.buffered entry old
    · obtain rfl := List.mem_singleton.mp new
      exact fits_freshEntry id node

theorem WellFormed.insert (wellFormed : model.WellFormed) {id : NodeId} {node : Node}
    {after : Model} (inserted : model.insert id node = .ok after) : after.WellFormed := by
  obtain ⟨later, _, checked, rfl⟩ := insert_eq_ok_iff.mp inserted
  exact wellFormed.append later checked

/-! ## Taking out nodes -/

/-- Nobody reads a node without dependents. -/
theorem not_read_of_dependents_eq_nil {id : NodeId} (free : model.dependents id = [])
    {entry : Entry} (mem : entry ∈ model.entries) {input : InputPort}
    (inputMem : input ∈ entry.node.inputs) {coordinate : Coordinate}
    (coordinateMem : coordinate ∈ input.elements) : coordinate.node ≠ id := by
  intro reading
  simp only [dependents, List.map_eq_nil_iff, List.filter_eq_nil_iff] at free
  apply free entry mem
  simp only [reads, List.any_eq_true, decide_eq_true_eq]
  exact ⟨input, inputMem, coordinate, coordinateMem, reading⟩

/-- A node without dependents can be taken out. -/
theorem WellFormed.takeOut (wellFormed : model.WellFormed) {key : NodeKey} {entry : Entry}
    (found : model.arena.get? key = some entry) (free : model.dependents entry.id = []) :
    (model.without entry.id key).WellFormed := by
  have entries := wellFormed.coherent.entries_without found
  have kept : ∀ other ∈ (model.without entry.id key).entries, other ∈ model.entries := by
    rw [entries]
    exact fun other mem => (List.mem_filter.mp mem).1
  have ordered := wellFormed.ordered.without found
  refine
    { coherent := ordered.coherent
      ids_increasing := ordered.ids_increasing
      ids_below := ordered.ids_below
      provided := ?_
      buffered := fun other mem => wellFormed.buffered other (kept other mem) }
  intro other mem input inputMem coordinate coordinateMem
  have provides := wellFormed.provided other (kept other mem) input inputMem coordinate coordinateMem
  refine provides.mono fun source sourceMem same => ⟨source, ?_, rfl, rfl⟩
  have unread := not_read_of_dependents_eq_nil free (kept other mem) inputMem coordinateMem
  rw [entries, List.mem_filter]
  exact ⟨sourceMem, by simpa [same] using unread⟩

/-! ## Changing buffers -/

/-- Replacing the buffers of an entry. -/
def withOutputs (model : Model) (id : NodeId) (outputs : List Buffer) : Model :=
  model.modifyEntry id fun entry => { entry with outputs }

section WithOutputs

variable {id : NodeId} {outputs : List Buffer}

theorem Coherent.entries_withOutputs (coherent : model.Coherent) :
    (model.withOutputs id outputs).entries =
      model.entries.map fun entry => if entry.id = id then { entry with outputs } else entry :=
  coherent.entries_modifyEntry

theorem Coherent.mem_entries_withOutputs (coherent : model.Coherent) {entry : Entry} :
    entry ∈ (model.withOutputs id outputs).entries ↔
      ∃ old ∈ model.entries, entry = if old.id = id then { old with outputs } else old := by
  simp only [coherent.entries_withOutputs, List.mem_map, eq_comm]

end WithOutputs

/-- An entry can be changed, as long as it keeps its id and its ports, and its buffers fit. -/
theorem WellFormed.modifyEntry (wellFormed : model.WellFormed) {id : NodeId} {change : Entry → Entry}
    (ids : ∀ entry, (change entry).id = entry.id)
    (inputs : ∀ entry ∈ model.entries, entry.id = id →
      (change entry).node.inputs = entry.node.inputs)
    (outputs : ∀ entry ∈ model.entries, entry.id = id →
      (change entry).node.outputs = entry.node.outputs)
    (fits : ∀ entry ∈ model.entries, entry.id = id →
      List.Forall₂ Buffer.Fits (change entry).outputs entry.node.outputs) :
    (model.modifyEntry id change).WellFormed := by
  have entries : (model.modifyEntry id change).entries =
      model.entries.map fun entry => if entry.id = id then change entry else entry :=
    wellFormed.coherent.entries_modifyEntry
  have mem_iff : ∀ entry, entry ∈ (model.modifyEntry id change).entries ↔
      ∃ old ∈ model.entries, entry = if old.id = id then change old else old := by
    intro entry
    simp only [entries, List.mem_map, eq_comm]
  have ordered : (model.modifyEntry id change).Ordered := wellFormed.ordered.modifyEntry ids
  refine
    { coherent := ordered.coherent
      ids_increasing := ordered.ids_increasing
      ids_below := ordered.ids_below
      provided := ?_, buffered := ?_ }
  · intro entry mem input inputMem coordinate coordinateMem
    obtain ⟨old, oldMem, rfl⟩ := (mem_iff entry).mp mem
    have sameId : (if old.id = id then change old else old).id = old.id := by
      split
      · exact ids old
      · rfl
    have oldInput : input ∈ old.node.inputs := by
      split at inputMem
      · exact inputs old oldMem ‹_› ▸ inputMem
      · exact inputMem
    rw [sameId]
    refine (wellFormed.provided old oldMem input oldInput coordinate coordinateMem).mono
      fun source sourceMem _ => ⟨_, (mem_iff _).mpr ⟨source, sourceMem, rfl⟩, ?_, ?_⟩
    · split
      · exact ids source
      · rfl
    · split
      · exact outputs source sourceMem ‹_›
      · rfl
  · intro entry mem
    obtain ⟨old, oldMem, rfl⟩ := (mem_iff entry).mp mem
    split
    · exact outputs old oldMem ‹_› ▸ fits old oldMem ‹_›
    · exact wellFormed.buffered old oldMem

/-- Buffers can be replaced by others that fit the ports. -/
theorem WellFormed.withOutputs (wellFormed : model.WellFormed) {id : NodeId} {outputs : List Buffer}
    (fits : ∀ entry ∈ model.entries, entry.id = id →
      List.Forall₂ Buffer.Fits outputs entry.node.outputs) :
    (model.withOutputs id outputs).WellFormed :=
  wellFormed.modifyEntry (fun _ => rfl) (fun _ _ _ => rfl) (fun _ _ _ => rfl) fits

theorem WellFormed.setInput (wellFormed : model.WellFormed) {id : NodeId} {entry : Entry}
    {outputs : List Buffer} {values : Buffer} (found : model.entry id = .ok entry)
    (writes : setOutput entry.outputs 0 values = .ok outputs) :
    (model.withOutputs id outputs).WellFormed := by
  obtain ⟨mem, rfl⟩ := wellFormed.coherent.entry_eq_ok_iff.mp found
  refine wellFormed.withOutputs fun other otherMem same => ?_
  obtain rfl := wellFormed.coherent.entry_unique otherMem mem same
  exact fits_of_setOutput (wellFormed.buffered other otherMem) writes

/-! ## Computing -/

/-- A standard operator keeps buffers that fit the ports. -/
theorem fits_evaluateStandard {operator : Operator} {inputs outputs : List Buffer}
    {ports : List OutputPort} (fits : List.Forall₂ Buffer.Fits outputs ports) :
    List.Forall₂ Buffer.Fits (operator.evaluateStandard inputs outputs).outputs ports := by
  unfold Operator.evaluateStandard
  split
  · exact fits
  · exact fits
  · split
    · exact fits
    · exact fits_of_setOutput fits ‹_›

/-- A procedure keeps buffers that fit the ports, whichever of its writes fail. -/
theorem fits_procedure {procedure : Procedure} {outputs : List Buffer} {ports : List OutputPort}
    (fits : List.Forall₂ Buffer.Fits outputs ports) :
    List.Forall₂ Buffer.Fits (procedure.evaluate outputs).outputs ports := by
  induction procedure generalizing outputs with
  | finish result => exact fits
  | write port values next ih =>
      simp only [Procedure.evaluate]
      split
      · exact ih _ (fits_of_setOutput fits ‹_›)
      · exact ih _ fits

/-- A step of a custom computation keeps buffers that fit the ports. -/
theorem fits_step {step : ComputeStep} {inputs outputs : List Buffer} {ports : List OutputPort}
    (fits : List.Forall₂ Buffer.Fits outputs ports) :
    List.Forall₂ Buffer.Fits (step.evaluate inputs outputs).outputs ports := by
  cases step with
  | observe port =>
      simp only [ComputeStep.evaluate]
      split <;> exact fits
  | set port values =>
      simp only [ComputeStep.evaluate]
      split
      · exact fits_of_setOutput fits ‹_›
      · exact fits
  | copy source target type =>
      simp only [ComputeStep.evaluate]
      split
      · rename_i written
        obtain ⟨values, _, writes⟩ := bind_eq_ok_iff.mp written
        exact fits_of_setOutput fits writes
      · exact fits
  | perform procedure => exact fits_procedure fits

theorem fits_evaluateSteps {inputs : List Buffer} {steps : List ComputeStep}
    {outputs : List Buffer} {ports : List OutputPort}
    (fits : List.Forall₂ Buffer.Fits outputs ports) :
    List.Forall₂ Buffer.Fits (evaluateSteps inputs steps outputs).outputs ports := by
  induction steps generalizing outputs with
  | nil => exact fits
  | cons step rest ih =>
      simp only [evaluateSteps]
      split
      · exact fits_step fits
      · exact ih (fits_step fits)

theorem fits_evaluate {operator : Operator} {inputs outputs : List Buffer}
    {ports : List OutputPort} (fits : List.Forall₂ Buffer.Fits outputs ports) :
    List.Forall₂ Buffer.Fits (operator.evaluate inputs outputs).outputs ports := by
  cases operator with
  | custom scripted => exact fits_evaluateSteps fits
  | _ => exact fits_evaluateStandard fits

/-- Computing a node keeps a model well formed, also when the node fails. -/
theorem WellFormed.computeNode (wellFormed : model.WellFormed) (id : NodeId) :
    (model.computeNode id).model.WellFormed ∧ (model.computeNode id).model.nextId = model.nextId := by
  unfold Model.computeNode
  split
  · exact ⟨wellFormed, rfl⟩
  · rename_i entry found
    split
    · exact ⟨wellFormed, rfl⟩
    · obtain ⟨mem, rfl⟩ := wellFormed.coherent.entry_eq_ok_iff.mp found
      refine ⟨wellFormed.withOutputs fun other otherMem same => ?_, nextId_modifyEntry⟩
      obtain rfl := wellFormed.coherent.entry_unique otherMem mem same
      exact fits_evaluate (wellFormed.buffered other otherMem)

theorem WellFormed.computeNodes (ids : List NodeId) (wellFormed : model.WellFormed) :
    (Model.computeNodes ids model).model.WellFormed ∧
      (Model.computeNodes ids model).model.nextId = model.nextId := by
  induction ids generalizing model with
  | nil => exact ⟨wellFormed, rfl⟩
  | cons id rest ih =>
      obtain ⟨first, nextId⟩ := wellFormed.computeNode id
      simp only [Model.computeNodes]
      split
      · exact ⟨first, nextId⟩
      · exact ⟨(ih first).1, (ih first).2.trans nextId⟩

theorem WellFormed.compute (wellFormed : model.WellFormed) :
    model.compute.model.WellFormed ∧ model.compute.model.nextId = model.nextId :=
  wellFormed.computeNodes model.ids

/-! ## Copies -/

theorem WellFormed.ids_nodup (wellFormed : model.WellFormed) : model.ids.Nodup :=
  wellFormed.ordered.ids_nodup

theorem WellFormed.clone (wellFormed : model.WellFormed) : model.clone.WellFormed := by
  have entries := wellFormed.ordered.entries_clone.2
  have ordered := wellFormed.ordered.clone
  refine
    { coherent := ordered.coherent
      ids_increasing := ordered.ids_increasing
      ids_below := ordered.ids_below
      provided := ?_
      buffered := entries ▸ wellFormed.buffered }
  rw [entries]
  intro entry mem input inputMem coordinate coordinateMem
  exact (wellFormed.provided entry mem input inputMem coordinate coordinateMem).mono
    fun source sourceMem _ => ⟨source, entries ▸ sourceMem, rfl, rfl⟩

end Model

end Dataflow
