import Dataflow.Proofs.Graph.Loading

/-!
# Growing models

Whether a model accepts a node depends on the nodes it has, not on what they hold.  A node
whose inputs read elements that the model offers can be added, and what was offered before is
still offered then.
-/

namespace Dataflow

/-- A standard node has few output ports. -/
theorem Node.Standard.length_outputs {node : Node} (standard : node.Standard) :
    node.outputs.length ≤ maxOutputPorts := by
  rcases standard.outputs_eq with ⟨port, single⟩
  rw [single, List.length_singleton]
  decide

/-- A coordinate is an element of a port of one of some nodes, and the port has a type. -/
def Offered (nodes : List (NodeId × Node)) (type : ScalarType) (coordinate : Coordinate) : Prop :=
  ∃ node, (coordinate.node, node) ∈ nodes ∧
    ∃ port, node.outputs[coordinate.port]? = some port ∧ coordinate.element < port.size ∧
      port.type = type

/-- The nodes of a list read nothing but elements of those before them. -/
def Closed (nodes : List (NodeId × Node)) : Prop :=
  ∀ left pair right, nodes = left ++ pair :: right → ∀ input ∈ pair.2.inputs,
    ∀ coordinate ∈ input.elements, Offered left input.type coordinate

theorem Offered.mono {nodes others : List (NodeId × Node)} {type : ScalarType}
    {coordinate : Coordinate} (offered : Offered nodes type coordinate)
    (kept : ∀ node, (coordinate.node, node) ∈ nodes → (coordinate.node, node) ∈ others) :
    Offered others type coordinate := by
  rcases offered with ⟨node, mem, port⟩
  exact ⟨node, kept node mem, port⟩

theorem Closed.offered {nodes : List (NodeId × Node)} (closed : Closed nodes) {pair : NodeId × Node}
    (mem : pair ∈ nodes) {input : InputPort} (inputMem : input ∈ pair.2.inputs)
    {coordinate : Coordinate} (coordinateMem : coordinate ∈ input.elements) :
    Offered nodes input.type coordinate := by
  obtain ⟨left, right, split⟩ := List.append_of_mem mem
  exact (closed left pair right split input inputMem coordinate coordinateMem).mono
    fun _ earlier => split ▸ List.mem_append_left _ earlier

/-- A part of closed nodes is closed when it has all nodes that its nodes read. -/
theorem Closed.filter {nodes : List (NodeId × Node)} (closed : Closed nodes) (keep : NodeId → Bool)
    (downward : ∀ pair ∈ nodes, keep pair.1 = true → ∀ input ∈ pair.2.inputs,
      ∀ coordinate ∈ input.elements, keep coordinate.node = true) :
    Closed (nodes.filter fun pair => keep pair.1) := by
  intro left pair right split input inputMem coordinate coordinateMem
  obtain ⟨front, back, rfl, rfl, later⟩ := List.filter_eq_append_iff.mp split
  obtain ⟨skipped, rest, rfl, absent, kept, rfl⟩ := List.filter_eq_cons_iff.mp later
  have needed := downward pair (by simp) kept input inputMem coordinate coordinateMem
  have offered := closed (front ++ skipped) pair rest (by simp) input inputMem coordinate coordinateMem
  refine offered.mono fun node mem => List.mem_filter.mpr ⟨?_, needed⟩
  refine (List.mem_append.mp mem).resolve_right fun dropped => ?_
  exact absent _ dropped needed

namespace Model

variable {model after : Model} {id : NodeId} {node : Node} {type : ScalarType}
  {coordinate : Coordinate}

/-- A coordinate is an element of a port of the model that has a type. -/
def Offers (model : Model) (type : ScalarType) (coordinate : Coordinate) : Prop :=
  Offered model.skeleton type coordinate

theorem Offers.mono (offers : model.Offers type coordinate)
    (kept : ∀ pair ∈ model.skeleton, pair ∈ after.skeleton) : after.Offers type coordinate :=
  Offered.mono offers fun _ => kept _

/-- What a node reads is offered by the model, and it belongs to an earlier node. -/
theorem Provides.offers (provides : model.Provides id type coordinate) :
    coordinate.node < id ∧ model.Offers type coordinate := by
  rcases provides with ⟨earlier, source, mem, same, port⟩
  exact ⟨earlier, source.node, mem_skeleton_iff.mpr ⟨source, mem, same, rfl⟩, port⟩

/-- Every element that a model offers can be read by the node that comes next. -/
theorem WellFormed.provides_of_offers (wellFormed : model.WellFormed)
    (offers : model.Offers type coordinate) (later : model.nextId ≤ id) :
    model.Provides id type coordinate := by
  rcases offers with ⟨node, pairMem, port⟩
  rcases mem_skeleton_iff.mp pairMem with ⟨source, mem, same, rfl⟩
  have earlier : coordinate.node < model.nextId :=
    wellFormed.ids_below _ (mem_ids_iff.mpr ⟨source, mem, same⟩)
  exact ⟨Nat.lt_of_lt_of_le earlier later, source, mem, same, port⟩

/-- The type of elements is that of the first one. -/
theorem WellFormed.elementType_of_offers (wellFormed : model.WellFormed)
    (offers : model.Offers type coordinate) (rest : Elements) :
    model.elementType (coordinate :: rest) = .ok type := by
  rcases offers with ⟨node, pairMem, port, ported, _, rfl⟩
  rcases mem_skeleton_iff.mp pairMem with ⟨entry, mem, same, rfl⟩
  obtain ⟨values, found, typed, _⟩ := exists_getElem?_right (wellFormed.buffered entry mem) ported
  have read : model.outputValues coordinate.output = .ok values :=
    wellFormed.coherent.outputValues_eq_ok_iff.mpr ⟨entry, mem, same, found⟩
  simp [elementType, read, typed]

theorem Coherent.skeleton_of_insert (coherent : model.Coherent)
    (inserted : model.insert id node = .ok after) :
    after.skeleton = model.skeleton ++ [(id, node)] := by
  simp only [skeleton, coherent.entries_of_insert inserted, List.map_append]
  rfl

/-- A node that reads what the model offers can be inserted under a later id. -/
theorem WellFormed.exists_insert (wellFormed : model.WellFormed) (later : model.nextId ≤ id)
    (few : node.outputs.length ≤ maxOutputPorts)
    (offered : ∀ input ∈ node.inputs, ∀ coordinate ∈ input.elements,
      model.Offers input.type coordinate) :
    ∃ after, model.insert id node = .ok after ∧ after.WellFormed ∧ after.nextId = id + 1 ∧
      after.skeleton = model.skeleton ++ [(id, node)] := by
  have checked : model.checkInputs id node = .ok () :=
    wellFormed.coherent.checkInputs_eq_ok_iff.mpr fun input inputMem coordinate coordinateMem =>
      wellFormed.provides_of_offers (offered input inputMem coordinate coordinateMem) later
  have inserted := insert_eq_ok_iff.mpr ⟨later, few, checked, rfl⟩
  exact ⟨_, inserted, wellFormed.insert inserted, rfl,
    wellFormed.coherent.skeleton_of_insert inserted⟩

/-- A node that reads what the model offers can be added. -/
theorem WellFormed.exists_add (wellFormed : model.WellFormed)
    (few : node.outputs.length ≤ maxOutputPorts)
    (offered : ∀ input ∈ node.inputs, ∀ coordinate ∈ input.elements,
      model.Offers input.type coordinate) :
    ∃ after, model.add node = .ok (model.nextId, after) ∧ after.WellFormed ∧
      after.nextId = model.nextId + 1 ∧
      after.skeleton = model.skeleton ++ [(model.nextId, node)] := by
  rcases wellFormed.exists_insert (Nat.le_refl _) few offered with ⟨after, inserted, grown⟩
  exact ⟨after, add_eq_ok_iff.mpr ⟨rfl, inserted⟩, grown⟩

/-- The nodes of a well-formed model read earlier nodes. -/
theorem WellFormed.closed (wellFormed : model.WellFormed) : Closed model.skeleton := by
  intro left pair right split input inputMem coordinate coordinateMem
  obtain ⟨entry, mem, rfl⟩ : ∃ entry ∈ model.entries, (entry.id, entry.node) = pair := by
    have pairMem : pair ∈ model.skeleton := split ▸ by simp
    simpa [skeleton] using pairMem
  obtain ⟨earlier, node, sourceMem, port⟩ :=
    (wellFormed.provided entry mem input inputMem coordinate coordinateMem).offers
  refine ⟨node, ?_, port⟩
  have increasing := wellFormed.ids_increasing
  rw [ids_eq_skeleton, split, List.map_append, List.map_cons, List.pairwise_append,
    List.pairwise_cons] at increasing
  rw [split, List.mem_append, List.mem_cons] at sourceMem
  rcases sourceMem with before | same | later
  · exact before
  · exact absurd (congrArg Prod.fst same) (Nat.ne_of_lt earlier)
  · have larger := increasing.2.1.1 _ (List.mem_map_of_mem later)
    exact absurd (earlier.trans larger) (Nat.lt_irrefl _)

theorem standard_iff_skeleton : model.Standard ↔ ∀ pair ∈ model.skeleton, pair.2.Standard := by
  simp [Standard, skeleton]

end Model

end Dataflow
