import Dataflow.Proofs.Graph.Settled

/-!
# Loading inputs

Writing the buffers of input nodes changes neither the nodes of a model nor their ids.  So what
depends on the nodes alone, such as the types of elements, is the same before and after.
-/

namespace Dataflow

namespace Model

variable {model other : Model}

/-! ## Nodes without buffers -/

/-- The nodes with their ids, without buffers. -/
def skeleton (model : Model) : List (NodeId × Node) :=
  model.entries.map fun entry => (entry.id, entry.node)

theorem ids_eq_skeleton (model : Model) : model.ids = model.skeleton.map Prod.fst := by
  simp [ids, skeleton]

theorem mem_skeleton_iff {id : NodeId} {node : Node} :
    (id, node) ∈ model.skeleton ↔ ∃ entry ∈ model.entries, entry.id = id ∧ entry.node = node := by
  simp [skeleton]

/-- An id has one node. -/
theorem Coherent.skeleton_unique (coherent : model.Coherent) {id : NodeId} {node twin : Node}
    (mem : (id, node) ∈ model.skeleton) (twinMem : (id, twin) ∈ model.skeleton) : node = twin := by
  obtain ⟨entry, entryMem, entryId, rfl⟩ := mem_skeleton_iff.mp mem
  obtain ⟨other, otherMem, otherId, rfl⟩ := mem_skeleton_iff.mp twinMem
  rw [coherent.entry_unique entryMem otherMem (entryId.trans otherId.symm)]

/-- Models with the same skeleton have entries for the same nodes. -/
theorem exists_of_skeleton_eq (same : other.skeleton = model.skeleton) {entry : Entry}
    (mem : entry ∈ model.entries) :
    ∃ twin ∈ other.entries, twin.id = entry.id ∧ twin.node = entry.node :=
  mem_skeleton_iff.mp (same ▸ mem_skeleton_iff.mpr ⟨entry, mem, rfl, rfl⟩)

theorem Standard.of_skeleton_eq (standard : model.Standard) (same : other.skeleton = model.skeleton) :
    other.Standard := by
  intro entry mem
  obtain ⟨twin, twinMem, _, node⟩ := exists_of_skeleton_eq same.symm mem
  exact node ▸ standard twin twinMem

theorem skeleton_eq_of_refreshed {before after : List Entry}
    (refreshed : List.Forall₂ Refreshed before after) :
    after.map (fun entry => (entry.id, entry.node)) =
      before.map fun entry => (entry.id, entry.node) := by
  induction refreshed with
  | nil => rfl
  | cons first _ ih => simp [first.id_eq, first.node_eq, ih]

theorem Coherent.skeleton_withOutputs (coherent : model.Coherent) {id : NodeId}
    {outputs : List Buffer} : (model.withOutputs id outputs).skeleton = model.skeleton := by
  simp only [skeleton, coherent.entries_withOutputs, List.map_map]
  refine List.map_congr_left fun entry _ => ?_
  simp only [Function.comp_apply]
  split <;> rfl

/-! ## Types -/

theorem Coherent.outputValues_eq_ok_iff (coherent : model.Coherent) {port : OutputRef}
    {values : Buffer} :
    model.outputValues port = .ok values ↔
      ∃ entry ∈ model.entries, entry.id = port.node ∧ entry.outputs[port.port]? = some values := by
  simp only [outputValues, bind_eq_ok_iff, coherent.entry_eq_ok_iff]
  constructor
  · rintro ⟨entry, ⟨mem, same⟩, read⟩
    refine ⟨entry, mem, same, ?_⟩
    cases found : entry.outputs[port.port]? <;> simp_all
  · rintro ⟨entry, mem, same, read⟩
    exact ⟨entry, ⟨mem, same⟩, by simp [read]⟩

/-- The buffers of a port have the same type and size in models with the same skeleton. -/
theorem WellFormed.exists_outputValues (wellFormed : model.WellFormed)
    (otherWellFormed : other.WellFormed) (same : other.skeleton = model.skeleton) {port : OutputRef}
    {values : Buffer} (read : model.outputValues port = .ok values) :
    ∃ others, other.outputValues port = .ok others ∧ others.type = values.type ∧
      others.size = values.size := by
  obtain ⟨entry, mem, id, found⟩ := wellFormed.coherent.outputValues_eq_ok_iff.mp read
  obtain ⟨twin, twinMem, twinId, node⟩ := exists_of_skeleton_eq same mem
  obtain ⟨output, ported, typed, sized⟩ := exists_getElem?_left (wellFormed.buffered entry mem) found
  obtain ⟨others, twinFound, twinType, twinSize⟩ :=
    exists_getElem?_right (otherWellFormed.buffered twin twinMem) (node ▸ ported)
  exact ⟨others, otherWellFormed.coherent.outputValues_eq_ok_iff.mpr
      ⟨twin, twinMem, twinId.trans id, twinFound⟩,
    twinType.trans typed.symm, twinSize.trans sized.symm⟩

theorem value_eq_ok_iff {coordinate : Coordinate} {scalar : Scalar} :
    model.value coordinate = .ok scalar ↔
      ∃ values, model.outputValues coordinate.output = .ok values ∧
        values.get? coordinate.element = some scalar := by
  simp only [value, bind_eq_ok_iff]
  refine exists_congr fun values => and_congr_right fun _ => ?_
  cases values.get? coordinate.element <;> simp

theorem WellFormed.exists_value_of_skeleton_eq (wellFormed : model.WellFormed)
    (otherWellFormed : other.WellFormed) (same : other.skeleton = model.skeleton)
    {coordinate : Coordinate} {scalar : Scalar} (read : model.value coordinate = .ok scalar) :
    ∃ value, other.value coordinate = .ok value ∧ value.type = scalar.type := by
  obtain ⟨values, found, got⟩ := value_eq_ok_iff.mp read
  obtain ⟨others, otherFound, typed, sized⟩ := wellFormed.exists_outputValues otherWellFormed same found
  cases otherGot : others.get? coordinate.element with
  | none =>
      rw [Buffer.get?_eq_none_iff, sized, ← Buffer.get?_eq_none_iff, got] at otherGot
      contradiction
  | some value =>
      refine ⟨value, value_eq_ok_iff.mpr ⟨others, otherFound, otherGot⟩, ?_⟩
      rw [Buffer.type_of_get?_eq_some otherGot, typed, Buffer.type_of_get?_eq_some got]

/-- The type of elements depends on the nodes only. -/
theorem WellFormed.elementType_eq (wellFormed : model.WellFormed)
    (otherWellFormed : other.WellFormed) (same : other.skeleton = model.skeleton)
    {elements : Elements} {type : ScalarType} (typed : model.elementType elements = .ok type) :
    other.elementType elements = .ok type := by
  cases elements with
  | nil => exact typed
  | cons first rest =>
      simp only [elementType, bind_eq_ok_iff, pure_eq_ok_iff] at typed ⊢
      obtain ⟨values, found, rfl⟩ := typed
      obtain ⟨others, otherFound, sameType, _⟩ :=
        wellFormed.exists_outputValues otherWellFormed same found
      exact ⟨others, otherFound, sameType⟩

/-! ## Writing inputs -/

theorem WellFormed.inputNodes_nodup (wellFormed : model.WellFormed) : model.inputNodes.Nodup :=
  List.Nodup.sublist (List.filter_sublist.map Entry.id) wellFormed.ids_nodup

/-- Values for an input node of the model. -/
def Takes (model : Model) (input : NodeId × Buffer) : Prop :=
  (input.1, Node.input input.2.type input.2.size) ∈ model.skeleton

theorem WellFormed.setInput_eq (wellFormed : model.WellFormed) {id : NodeId} {values : Buffer}
    (takes : model.Takes (id, values)) :
    model.setInput id values = .ok (model.withOutputs id [values]) ∧
      (model.withOutputs id [values]).WellFormed := by
  obtain ⟨entry, mem, same, node⟩ := mem_skeleton_iff.mp takes
  have fits := wellFormed.buffered entry mem
  rw [node] at fits
  obtain ⟨slot, rest, ⟨typed, sized⟩, restFits, outputs⟩ := List.forall₂_cons_right_iff.mp fits
  obtain rfl := List.forall₂_nil_right_iff.mp restFits
  simp only [type_vector, size_vector] at typed sized
  have found : model.entry id = .ok entry := wellFormed.coherent.entry_eq_ok_iff.mpr ⟨mem, same⟩
  have writes : setOutput entry.outputs 0 values = .ok [values] := by
    simp [outputs, setOutput, typed, sized]
  exact ⟨setInput_eq_ok_iff.mpr ⟨entry, [values], found, by rw [node]; rfl, writes, rfl⟩,
    wellFormed.setInput found writes⟩

/-- A model in which some inputs of another one have been written. -/
structure Loads (model : Model) (inputs : List (NodeId × Buffer)) (loaded : Model) : Prop where
  wellFormed : loaded.WellFormed
  skeleton_eq : loaded.skeleton = model.skeleton
  written : ∀ input ∈ inputs, ∃ entry ∈ loaded.entries, entry.id = input.1 ∧ entry.outputs = [input.2]
  others : ∀ entry ∈ model.entries, entry.id ∉ inputs.map Prod.fst → entry ∈ loaded.entries

/-- Values that input nodes take can be written.  The induction keeps what is written already,
since each node is written once. -/
theorem WellFormed.exists_setInputs (wellFormed : model.WellFormed) {inputs : List (NodeId × Buffer)}
    (takes : ∀ input ∈ inputs, model.Takes input) (once : (inputs.map Prod.fst).Nodup) :
    ∃ loaded, model.setInputs inputs = .ok loaded ∧ model.Loads inputs loaded := by
  induction inputs generalizing model with
  | nil => exact ⟨model, rfl, wellFormed, rfl, by simp, fun _ mem _ => mem⟩
  | cons input rest ih =>
      obtain ⟨id, values⟩ := input
      obtain ⟨fresh, once⟩ := List.nodup_cons.mp once
      have first : model.Takes (id, values) := takes _ List.mem_cons_self
      obtain ⟨set, nextWellFormed⟩ := wellFormed.setInput_eq first
      have same : (model.withOutputs id [values]).skeleton = model.skeleton :=
        wellFormed.coherent.skeleton_withOutputs
      obtain ⟨loaded, rests, loads⟩ := ih nextWellFormed
        (fun other mem => by
          rw [Takes, same]
          exact takes other (List.mem_cons_of_mem _ mem)) once
      refine ⟨loaded, ?_, loads.wellFormed, loads.skeleton_eq.trans same, ?_, ?_⟩
      · simp only [setInputs, List.foldlM_cons, set]
        exact rests
      · intro other mem
        rcases List.mem_cons.mp mem with rfl | later
        · obtain ⟨entry, entryMem, rfl, _⟩ := mem_skeleton_iff.mp first
          refine ⟨{ entry with outputs := [values] }, loads.others _ ?_ fresh, rfl, rfl⟩
          exact wellFormed.coherent.mem_entries_withOutputs.mpr ⟨entry, entryMem, by simp⟩
        · exact loads.written other later
      · intro entry mem absent
        rw [List.map_cons, List.mem_cons, not_or] at absent
        refine loads.others entry ?_ absent.2
        exact wellFormed.coherent.mem_entries_withOutputs.mpr
          ⟨entry, mem, by simp [absent.1]⟩

end Model

end Dataflow
