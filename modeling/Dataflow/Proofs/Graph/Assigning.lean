import Dataflow.Proofs.Graph.Growing

/-!
# Assigning all inputs

A buffer for each input node determines what a well-formed model of standard nodes computes.  The
buffers can be written, the computation settles the model, and afterwards the input nodes hold
the buffers and every other node what its operator computes.
-/

namespace Dataflow

/-- The input nodes among some nodes. -/
def inputIds (nodes : List (NodeId × Node)) : List NodeId :=
  (nodes.filter (·.2.capabilities.input)).map Prod.fst

theorem Model.inputIds_skeleton (model : Model) : inputIds model.skeleton = model.inputNodes := by
  simp only [inputIds, skeleton, inputNodes, List.filter_map, List.map_map]
  rfl

@[simp]
theorem inputIds_append (left right : List (NodeId × Node)) :
    inputIds (left ++ right) = inputIds left ++ inputIds right := by
  simp [inputIds]

namespace Model

variable {model : Model}

/-! ## Settled entries -/

/-- An entry holds what its operator computes from its inputs. -/
theorem Settled.outputs_eq (settled : model.Settled) {entry : Entry} (mem : entry ∈ model.entries)
    {inputs : List Buffer} {values : Buffer} (gathered : model.gatherInputs entry.node = .ok inputs)
    (computed : entry.node.operator.value inputs = .ok (some values)) : entry.outputs = [values] := by
  obtain ⟨read, result, readEq, resultEq, holds⟩ := settled entry mem
  obtain rfl := Except.ok.inj (gathered.symm.trans readEq)
  obtain rfl := Except.ok.inj (computed.symm.trans resultEq)
  exact holds values rfl

/-- Settled models hold the same in a node of both, when it has the same inputs in both and, if it
is an input itself, was given the same. -/
theorem Settled.eq_of_gatherInputs_eq {other : Model} (settled : model.Settled)
    (otherSettled : other.Settled) {entry twin : Entry} (mem : entry ∈ model.entries)
    (twinMem : twin ∈ other.entries) (standard : entry.node.Standard)
    (refreshed : Refreshed entry twin)
    (same : other.gatherInputs entry.node = model.gatherInputs entry.node) : twin = entry := by
  obtain ⟨sameId, sameNode, kept⟩ := refreshed
  obtain ⟨inputs, result, gathered, computed, holds⟩ := settled entry mem
  obtain ⟨_, evaluated, isInput, _⟩ := standard.exists_value (feeds_of_gatherInputs gathered)
  rw [Except.ok.inj (evaluated.symm.trans computed)] at isInput
  have outputs : twin.outputs = entry.outputs := by
    cases result with
    | none => exact kept (isInput.mpr rfl)
    | some values =>
        rw [holds values rfl]
        refine otherSettled.outputs_eq twinMem ?_ (sameNode ▸ computed)
        rw [sameNode, same, gathered]
  obtain ⟨id, node, buffers⟩ := twin
  simp only at sameId sameNode outputs
  rw [sameId, sameNode, outputs]

theorem Coherent.outputValues_of_mem (coherent : model.Coherent) {entry : Entry}
    (mem : entry ∈ model.entries) {values : Buffer} (holds : entry.outputs = [values]) :
    model.outputValues ⟨entry.id, 0⟩ = .ok values :=
  coherent.outputValues_eq_ok_iff.mpr ⟨entry, mem, rfl, by simp [holds]⟩

/-- A standard node has one buffer. -/
theorem WellFormed.exists_outputs_eq (wellFormed : model.WellFormed) (standard : model.Standard)
    {entry : Entry} (mem : entry ∈ model.entries) : ∃ values, entry.outputs = [values] := by
  obtain ⟨port, single⟩ := (standard entry mem).outputs_eq
  have fits := wellFormed.buffered entry mem
  rw [single] at fits
  obtain ⟨values, _, _, rest, all⟩ := List.forall₂_cons_right_iff.mp fits
  obtain rfl := List.forall₂_nil_right_iff.mp rest
  exact ⟨values, all⟩

/-- Gathering all elements of a port gives its buffer. -/
theorem gather_elements {port : OutputRef} {values : Buffer}
    (read : model.outputValues port = .ok values) :
    model.gather (port.elements values.size) values.type = .ok values := by
  rw [gather_eq_ok_iff, OutputRef.elements, List.forall₂_map_left_iff, List.forall₂_iff_get]
  refine ⟨rfl, by simp, fun index inRange inValues => ?_⟩
  refine value_eq_ok_iff.mpr ⟨values, read, ?_⟩
  simp [OutputRef.element, ← Buffer.getElem?_toList]

/-- What the sinks among some nodes hand to their callbacks for the values of a model. -/
def delivered (model : Model) (nodes : List (NodeId × Node)) : List Notice :=
  nodes.flatMap fun pair => model.deliveries ⟨pair.1, pair.2, []⟩

theorem delivered_skeleton (model : Model) :
    model.delivered model.skeleton = model.entries.flatMap model.deliveries := by
  rw [delivered, skeleton, List.flatMap_map]
  rfl

/-! ## Assignments -/

/-- Some buffers fit the input nodes, in their order. -/
def Accepts (model : Model) (values : List Buffer) : Prop :=
  List.Forall₂ (fun id buffer => model.Takes (id, buffer)) model.inputNodes values

/-- A settled model with the nodes of another one, whose input nodes hold some buffers. -/
structure Assigned (model : Model) (values : List Buffer) (computed : Model) : Prop where
  wellFormed : computed.WellFormed
  settled : computed.Settled
  skeleton_eq : computed.skeleton = model.skeleton
  inputs : List.Forall₂ (fun id buffer => computed.outputValues ⟨id, 0⟩ = .ok buffer)
    model.inputNodes values

/-- Every element that the model offers has a value of its type. -/
theorem Assigned.exists_value {values : List Buffer} {computed : Model}
    (assigned : model.Assigned values computed) {type : ScalarType} {coordinate : Coordinate}
    (offered : model.Offers type coordinate) :
    ∃ scalar, computed.value coordinate = .ok scalar ∧ scalar.type = type :=
  assigned.wellFormed.exists_value <| assigned.wellFormed.provides_of_offers
    (offered.mono fun _ mem => assigned.skeleton_eq ▸ mem) (Nat.le_refl _)

/-- The computation of a model after buffers were written to all input nodes, in their order. -/
def run (model : Model) (values : List Buffer) : Except ModelError Computation := do
  return (← model.setInputs (model.inputNodes.zip values)).compute

/-- What some input nodes take can be written, and then the model can be computed.  The computation
settles it, and these input nodes hold what was written. -/
theorem WellFormed.exists_computed (wellFormed : model.WellFormed) (standard : model.Standard)
    {inputs : List (NodeId × Buffer)} (takes : ∀ input ∈ inputs, model.Takes input)
    (once : (inputs.map Prod.fst).Nodup) :
    ∃ loaded, model.setInputs inputs = .ok loaded ∧ loaded.compute.result = .ok () ∧
      loaded.compute.model.WellFormed ∧ loaded.compute.model.Settled ∧
      loaded.compute.model.skeleton = model.skeleton ∧
      (∀ input ∈ inputs, loaded.compute.model.outputValues ⟨input.1, 0⟩ = .ok input.2) ∧
      loaded.compute.notices = loaded.compute.model.delivered model.skeleton := by
  obtain ⟨loaded, set, loads⟩ := wellFormed.exists_setInputs takes once
  obtain ⟨succeeds, computed, settled, refreshed, notices⟩ :=
    loads.wellFormed.compute_standard (standard.of_skeleton_eq loads.skeleton_eq)
  have same : loaded.compute.model.skeleton = model.skeleton :=
    (skeleton_eq_of_refreshed refreshed).trans loads.skeleton_eq
  refine ⟨loaded, set, succeeds, computed, settled, same, fun input mem => ?_, ?_⟩
  · obtain ⟨entry, entryMem, id, holds⟩ := loads.written input mem
    obtain ⟨after, afterMem, fresh⟩ := exists_of_mem_left refreshed entryMem
    have listed := takes input mem
    rw [Takes, ← loads.skeleton_eq, mem_skeleton_iff] at listed
    obtain ⟨other, otherMem, otherId, isInput⟩ := listed
    obtain rfl := loads.wellFormed.coherent.entry_unique otherMem entryMem (otherId.trans id.symm)
    have kept := fresh.kept (by rw [isInput]; rfl)
    have read := computed.coherent.outputValues_of_mem afterMem (kept.trans holds)
    rwa [fresh.id_eq, id] at read
  · rw [notices, ← same, delivered_skeleton]

/-- Buffers that fit the input nodes can be written, and then the model can be computed. -/
theorem WellFormed.exists_run (wellFormed : model.WellFormed) (standard : model.Standard)
    {values : List Buffer} (accepts : model.Accepts values) :
    ∃ computation, model.run values = .ok computation ∧ computation.result = .ok () ∧
      model.Assigned values computation.model ∧
      computation.notices = computation.model.delivered model.skeleton := by
  obtain ⟨length, takes⟩ := List.forall₂_iff_zip.mp accepts
  have once : ((model.inputNodes.zip values).map Prod.fst).Nodup := by
    rw [List.map_fst_zip (Nat.le_of_eq length)]
    exact wellFormed.inputNodes_nodup
  obtain ⟨loaded, set, succeeds, computed, settled, same, written, notices⟩ :=
    wellFormed.exists_computed standard (fun _ mem => takes mem) once
  exact ⟨loaded.compute, by simp [run, set], succeeds, ⟨computed, settled, same,
    List.forall₂_iff_zip.mpr ⟨length, fun mem => written _ mem⟩⟩, notices⟩

end Model

end Dataflow
