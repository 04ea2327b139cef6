import Dataflow.Proofs.Graph.Closures
import Dataflow.Proofs.Pass.Renumbering

/-!
# Copies of submodels

A submodel is copied in two steps.  The sort says which nodes some elements need, and the pass copies
those in creation order.  What the needed nodes read is needed too, so the copy renumbers them among
themselves, and it computes for the elements what the whole model computes.  The first element that
is not there decides the failure of a copy.
-/

namespace Dataflow

open Pass Model

variable {number : NodeId → NodeId} {nodes : List (NodeId × Node)} {type : ScalarType}
  {coordinate : Coordinate} {elements : Elements} {source : Model} {last : Transformer}

/-! ## Values of copies -/

section Values

theorem inputIds_renumbered (number : NodeId → NodeId) (nodes : List (NodeId × Node)) :
    inputIds (renumbered number nodes) = (inputIds nodes).map number := by
  simp only [inputIds, renumbered, List.filter_map, List.map_map]
  rfl

/-- Copies are one way to replace nodes. -/
theorem Copied.replaces (copied : Copied number nodes last)
    (standard : ∀ pair ∈ nodes, pair.2.Standard) (once : (nodes.map Prod.fst).Nodup)
    (closed : Closed nodes) : Replaces nodes last.portMap last.target where
  wellFormed := copied.wellFormed
  keys := by
    rw [copied.portMap, PortMap.keys_renumbering, List.map_eq_flatMap]
    refine List.flatMap_congr fun pair mem => ?_
    obtain ⟨port, single⟩ := (standard pair mem).outputs_eq
    simp [single]
  replaced := by
    refine ⟨nodes.map fun pair => [(number pair.1, pair.2.renumber number)], ?_, ?_⟩
    · rw [copied.skeleton, renumbered, ← List.flatMap_def, List.map_eq_flatMap]
    · rw [List.forall₂_map_right_iff, List.forall₂_same, copied.portMap]
      intro pair mem
      obtain ⟨port, single⟩ := (standard pair mem).outputs_eq
      refine .copy ?_ single (PortMap.get?_renumbering once mem (by simp [single]))
      rw [List.forall₂_map_right_iff, List.forall₂_same]
      intro elements wired
      rw [← (standard pair mem).elements_inputs] at wired
      obtain ⟨input, inputMem, rfl⟩ := List.mem_map.mp wired
      exact PortMap.translate_renumbering once fun coordinate coordinateMem =>
        ⟨input.type, closed.offered mem inputMem coordinateMem⟩

/-- An input of a copy takes what the input that it stands for takes. -/
theorem Copied.node_of_takes (copied : Copied number nodes last) {pair : NodeId × Node}
    (mem : pair ∈ nodes) (standard : pair.2.Standard) (input : pair.2.capabilities.input = true)
    {values : Buffer} (takes : last.target.Takes (number pair.1, values)) :
    pair.2 = Node.input values.type values.size := by
  obtain ⟨type, size, node⟩ := standard.input_of_capabilities input
  have listed : (number pair.1, pair.2.renumber number) ∈ last.target.skeleton := by
    rw [copied.skeleton]
    exact List.mem_map_of_mem mem
  have same := copied.wellFormed.coherent.skeleton_unique listed takes
  rw [node] at same ⊢
  exact same

/-- The inputs that copies stand for take what the copies take. -/
theorem Copied.takes (copied : Copied number nodes last)
    (standard : ∀ pair ∈ nodes, pair.2.Standard) (within : ∀ pair ∈ nodes, pair ∈ source.skeleton)
    {values : List Buffer} (accepts : last.target.Accepts values) :
    List.Forall₂ (fun id buffer => source.Takes (id, buffer)) (inputIds nodes) values := by
  rw [Accepts, ← inputIds_skeleton, copied.skeleton, inputIds_renumbered,
    List.forall₂_map_left_iff] at accepts
  refine ((List.forall₂_and_left _ _).mpr ⟨fun _ mem => mem, accepts⟩).imp fun id buffer both => ?_
  obtain ⟨mem, takes⟩ := both
  obtain ⟨pair, pairMem, rfl⟩ := List.mem_map.mp mem
  obtain ⟨nodeMem, input⟩ := List.mem_filter.mp pairMem
  have node := copied.node_of_takes nodeMem (standard pair nodeMem) input takes
  rw [Takes, ← node]
  exact within pair nodeMem

/-- Copies compute what the nodes of the source compute, when the same values are written to the
inputs that were copied. -/
theorem Copied.computes (copied : Copied number nodes last) (wellFormed : source.WellFormed)
    (standard : source.Standard) (sub : nodes.Sublist source.skeleton) (closed : Closed nodes)
    {values : List Buffer} (accepts : last.target.Accepts values) :
    ∃ loaded copy, source.setInputs ((inputIds nodes).zip values) = .ok loaded ∧
      last.target.setInputs (last.target.inputNodes.zip values) = .ok copy ∧
      ∀ type elements, (∀ coordinate ∈ elements, Offered nodes type coordinate) →
        ∃ buffer, loaded.computeOutput elements = .ok buffer ∧
          copy.computeOutput (elements.map (·.renumber number)) = .ok buffer := by
  have within : ∀ pair ∈ nodes, pair ∈ source.skeleton := fun pair mem => sub.subset mem
  have nodesStandard : ∀ pair ∈ nodes, pair.2.Standard :=
    fun pair mem => standard_iff_skeleton.mp standard pair (within pair mem)
  have once : (nodes.map Prod.fst).Nodup := by
    have all := wellFormed.ids_nodup
    rw [ids_eq_skeleton] at all
    exact all.sublist (sub.map Prod.fst)
  have copyStandard := standard_of_renumbered copied.skeleton nodesStandard
  obtain ⟨length, takes⟩ := List.forall₂_iff_zip.mp (copied.takes nodesStandard within accepts)
  have inputsOnce : (((inputIds nodes).zip values).map Prod.fst).Nodup := by
    rw [List.map_fst_zip (Nat.le_of_eq length)]
    exact once.sublist (List.filter_sublist.map Prod.fst)
  obtain ⟨loaded, set, succeeds, computed, settled, same, written, _⟩ :=
    wellFormed.exists_computed standard (fun _ mem => takes mem) inputsOnce
  obtain ⟨run, ran, copySucceeds, assigned, _⟩ :=
    copied.wellFormed.exists_run copyStandard accepts
  obtain ⟨copy, copySet, rfl⟩ : ∃ copy, last.target.setInputs (last.target.inputNodes.zip values) =
      .ok copy ∧ copy.compute = run := by
    simpa [Model.run] using ran
  have inputs := forall₂_trans (List.forall₂_iff_zip.mpr ⟨length, fun mem => written _ mem⟩)
    assigned.inputs.flip
  have pairs : Replaces.Pairs nodes last.target loaded.compute.model copy.compute.model :=
    { sourceWellFormed := computed, sourceSettled := settled
      targetWellFormed := assigned.wellFormed, targetSettled := assigned.settled
      within := fun pair mem => same ▸ within pair mem
      skeleton_eq := assigned.skeleton_eq
      inputs := by
        rw [inputIds_skeleton]
        refine inputs.imp fun id image both => ?_
        obtain ⟨buffer, read, imageRead⟩ := both
        exact imageRead.trans read.symm }
  have replaces := copied.replaces nodesStandard once closed
  refine ⟨loaded, copy, set, copySet, fun type elements offered => ?_⟩
  have sourceOffers : ∀ coordinate ∈ elements, loaded.compute.model.Offers type coordinate :=
    fun coordinate mem => (offered coordinate mem).mono fun node nodeMem => same ▸ within _ nodeMem
  have copyOffers : ∀ coordinate ∈ elements,
      copy.compute.model.Offers type (coordinate.renumber number) := by
    intro coordinate mem
    rw [Offers, assigned.skeleton_eq, copied.skeleton]
    exact offered_renumbered (offered coordinate mem)
  have translated : last.portMap.translate elements = .ok (elements.map (·.renumber number)) :=
    copied.portMap ▸ PortMap.translate_renumbering once fun coordinate mem =>
      ⟨type, offered coordinate mem⟩
  obtain ⟨buffer, gathered⟩ := exists_gather fun coordinate mem =>
    computed.exists_value (computed.provides_of_offers (sourceOffers coordinate mem) (Nat.le_refl _))
  have reflects : ∀ coordinate ∈ elements,
      ReflectsAt last.portMap loaded.compute.model copy.compute.model coordinate := by
    intro coordinate mem
    obtain ⟨node, nodeMem, _⟩ := offered coordinate mem
    exact replaces.reflects nodesStandard closed pairs nodeMem rfl
  have copyGathered := gather_of_reflects reflects translated gathered
  cases elements with
  | nil => exact ⟨.empty .f64, by simp [computeOutput, succeeds, collect, elementType, gather],
      by simp [computeOutput, copySucceeds, collect, elementType, gather]⟩
  | cons first rest =>
      have typed := computed.elementType_of_offers (sourceOffers first List.mem_cons_self) rest
      have copyTyped := assigned.wellFormed.elementType_of_offers
        (copyOffers first List.mem_cons_self) (rest.map (·.renumber number))
      refine ⟨buffer, ?_, ?_⟩
      · simp [computeOutput, succeeds, collect, typed, gathered]
      · simp only [List.map_cons] at copyGathered ⊢
        simp [computeOutput, copySucceeds, collect, copyTyped, copyGathered]

end Values

namespace Model

variable {outputs : List Elements} {needed : List NodeId} {before : Transformer}

/-! ## Needed nodes -/

/-- An element of a port of the model. -/
def HasElement (model : Model) (coordinate : Coordinate) : Prop :=
  ∃ type, model.Offers type coordinate

/-- The nodes that some element lists read from. -/
def roots (outputs : List Elements) : List NodeId :=
  outputs.flatMap Elements.sourceNodes

/-- The nodes of a model with ids from a list, in creation order. -/
def part (model : Model) (needed : List NodeId) : List (NodeId × Node) :=
  model.skeleton.filter fun pair => decide (pair.1 ∈ needed)

theorem mem_roots_iff {id : NodeId} :
    id ∈ roots outputs ↔ ∃ coordinate ∈ outputs.flatten, coordinate.node = id := by
  simp only [roots, List.mem_flatMap, Elements.mem_sourceNodes_iff, List.mem_flatten]
  constructor
  · rintro ⟨elements, mem, coordinate, coordinateMem, same⟩
    exact ⟨coordinate, ⟨elements, mem, coordinateMem⟩, same⟩
  · rintro ⟨coordinate, ⟨elements, mem, coordinateMem⟩, same⟩
    exact ⟨elements, mem, coordinate, coordinateMem, same⟩

theorem map_fst_part (source : Model) (needed : List NodeId) :
    (source.part needed).map Prod.fst = source.ids.filter (· ∈ needed) := by
  rw [ids_eq_skeleton, List.filter_map]
  rfl

theorem part_sublist : (source.part needed).Sublist source.skeleton :=
  List.filter_sublist

theorem WellFormed.nodup_part (wellFormed : source.WellFormed) :
    ((source.part needed).map Prod.fst).Nodup := by
  rw [map_fst_part]
  exact wellFormed.ids_nodup.filter _

/-- The nodes that the sort lists are closed: what they read is listed too. -/
theorem WellFormed.closed_part (wellFormed : source.WellFormed) {roots : List NodeId}
    (sorted : source.submodelOrder roots = .ok needed) : Closed (source.part needed) := by
  refine wellFormed.closed.filter (fun id => decide (id ∈ needed)) ?_
  intro pair mem keep input inputMem coordinate coordinateMem
  obtain ⟨entry, entryMem, rfl⟩ := List.mem_map.mp mem
  have coherent := wellFormed.coherent
  have reaches := (coherent.mem_submodelOrder_iff sorted).mp (of_decide_eq_true keep)
  refine decide_eq_true ((coherent.mem_submodelOrder_iff sorted).mpr (reaches.step ?_))
  exact coherent.mem_dependencies_iff.mpr
    ⟨entry, entryMem, rfl, input, inputMem, coordinate, coordinateMem, rfl⟩

/-- When all elements are there, exactly the nodes that they need are copied. -/
theorem WellFormed.mem_part_iff (wellFormed : source.WellFormed)
    (sorted : source.submodelOrder (roots outputs) = .ok needed)
    (known : ∀ coordinate ∈ outputs.flatten, source.HasElement coordinate) {id : NodeId} :
    id ∈ (source.part needed).map Prod.fst ↔ Reaches source.dependencies (roots outputs) id := by
  rw [map_fst_part, List.mem_filter, decide_eq_true_iff,
    wellFormed.coherent.mem_submodelOrder_iff sorted, and_iff_right_iff_imp]
  refine wellFormed.mem_ids_of_reaches fun root mem => ?_
  obtain ⟨coordinate, coordinateMem, rfl⟩ := mem_roots_iff.mp mem
  obtain ⟨_, node, nodeMem, _⟩ := known coordinate coordinateMem
  rw [ids_eq_skeleton]
  exact List.mem_map_of_mem nodeMem

/-- A requested element that is there is an element of a copied node. -/
theorem Offers.of_needed (offers : source.Offers type coordinate) (mem : coordinate.node ∈ needed) :
    Offered (source.part needed) type coordinate :=
  Offered.mono offers fun _ listed => List.mem_filter.mpr ⟨listed, decide_eq_true mem⟩

/-! ## The copy -/

/-- The pass copies the needed nodes, and then its port map translates the element lists. -/
theorem outcome_copySubmodel (sorted : source.submodelOrder (roots outputs) = .ok needed)
    (before : Transformer) :
    outcome (copySubmodel source outputs) before =
      match outcome (transformNodes source (source.ids.filter (· ∈ needed)) copying) before with
      | (.error error, after) => (.error error, after)
      | (.ok (copy, _), after) => ((copy, ·) <$> outputs.mapM after.portMap.translate, after) := by
  have looked : source.submodelOrder (outputs.flatMap Elements.sourceNodes) = .ok needed := sorted
  simp only [copySubmodel, looked, outcome_bind, outcome_lift, outcome_translateAll]
  rcases outcome (transformNodes source (source.ids.filter (· ∈ needed)) copying) before with
    ⟨_ | _, after⟩
  · rfl
  · dsimp only
    cases outputs.mapM after.portMap.translate <;> rfl

/-- Copying the needed nodes succeeds. -/
theorem WellFormed.exists_outcome (wellFormed : source.WellFormed) (standard : source.Standard)
    (outputs : List Elements) (before : Transformer) :
    ∃ needed last, source.submodelOrder (roots outputs) = .ok needed ∧
      Copied (position (source.part needed)) (source.part needed) last ∧
      outcome (copySubmodel source outputs) before =
        ((last.target, ·) <$> outputs.mapM last.portMap.translate, { last with target := .empty }) := by
  obtain ⟨needed, sorted⟩ := wellFormed.exists_submodelOrder (roots outputs)
  have within : ∀ pair ∈ source.part needed, pair ∈ source.skeleton :=
    fun pair mem => part_sublist.subset mem
  obtain ⟨refined, last, passed, copied⟩ := exists_copied wellFormed.coherent within
    (fun pair mem => standard_iff_skeleton.mp standard pair (within pair mem)) wellFormed.nodup_part
    (wellFormed.closed_part sorted) before
  rw [map_fst_part] at passed
  exact ⟨needed, last, sorted, copied, by rw [outcome_copySubmodel sorted, passed]⟩

/-- An element of a needed node that is not there is refused: by its port, if the port is not there
either. -/
theorem WellFormed.translateCoordinate_eq_error (wellFormed : source.WellFormed)
    (number : NodeId → NodeId) (mem : coordinate.node ∈ needed)
    (absent : ¬source.HasElement coordinate) :
    (PortMap.renumbering number (source.part needed)).translateCoordinate coordinate =
      .error (if coordinate.output ∈ source.outputRefs then .coordinateOutOfRange coordinate
        else .unmappedPort coordinate.output) := by
  split
  · rename_i listed
    obtain ⟨entry, entryMem, ported⟩ := List.mem_flatMap.mp listed
    obtain ⟨index, inRange, same⟩ := List.mem_map.mp ported
    obtain ⟨id, position, element⟩ := coordinate
    obtain ⟨rfl, rfl⟩ : entry.id = id ∧ index = position := OutputRef.mk.inj same
    have inside : index < entry.node.outputs.length := List.mem_range.mp inRange
    have nodeMem : (entry.id, entry.node) ∈ source.skeleton := List.mem_map_of_mem entryMem
    have beyond : ¬element < entry.node.outputs[index].size := fun below =>
      absent ⟨_, entry.node, nodeMem, _, List.getElem?_eq_getElem inside, below, rfl⟩
    have found : (PortMap.renumbering number (source.part needed)).get? ⟨entry.id, index⟩ = some _ :=
      PortMap.get?_renumbering wellFormed.nodup_part
        (List.mem_filter.mpr ⟨nodeMem, decide_eq_true mem⟩) (List.getElem?_eq_getElem inside)
    rw [PortMap.translateCoordinate_of_get?_eq_some found]
    simp [OutputRef.elements, beyond]
  · rename_i unlisted
    apply PortMap.translateCoordinate_of_get?_eq_none
    rw [PortMap.get?_eq_none_iff, PortMap.keys_renumbering]
    refine fun keyed => unlisted ?_
    obtain ⟨pair, pairMem, portMem⟩ := List.mem_flatMap.mp keyed
    rw [← outputRefs_eq_keys source number, PortMap.keys_renumbering]
    exact List.mem_flatMap.mpr ⟨pair, part_sublist.subset pairMem, portMem⟩

/-- The copy of the nodes that some element lists need, with the translated lists: the nodes are
those that the lists reach, in creation order and numbered from zero on, and the copy computes for
the translated lists what the model computes for the lists, whatever is written to its inputs. -/
structure Submodel (source : Model) (outputs : List Elements) (nodes : List (NodeId × Node))
    (copy : Model) (translated : List Elements) : Prop where
  wellFormed : copy.WellFormed
  ordered : nodes.Sublist source.skeleton
  needed : ∀ id, id ∈ nodes.map Prod.fst ↔ Reaches source.dependencies (roots outputs) id
  ids_eq : copy.ids = List.range nodes.length
  skeleton_eq : copy.skeleton = renumbered (position nodes) nodes
  translated_eq :
    translated = outputs.map fun elements => elements.map (·.renumber (position nodes))
  computes : ∀ values, copy.Accepts values →
    ∃ loaded copyLoaded, source.setInputs ((inputIds nodes).zip values) = .ok loaded ∧
      copy.setInputs (copy.inputNodes.zip values) = .ok copyLoaded ∧
      ∀ type, ∀ elements ∈ outputs, (∀ coordinate ∈ elements, source.Offers type coordinate) →
        ∃ buffer, loaded.computeOutput elements = .ok buffer ∧
          copyLoaded.computeOutput (elements.map (·.renumber (position nodes))) = .ok buffer

/-- Copying a submodel of a well-formed model of standard nodes.  If all elements of some lists are
there, the copy succeeds, and it is the submodel of the nodes that they need.  Otherwise the first
element that is not there decides the failure, by its port if the port is not there either. -/
theorem copySubmodel_copies (wellFormed : source.WellFormed) (standard : source.Standard)
    (outputs : List Elements) (before : Transformer) :
    ((∀ coordinate ∈ outputs.flatten, source.HasElement coordinate) →
      ∃ needed copy translated after, source.submodelOrder (roots outputs) = .ok needed ∧
        Succeeds (copySubmodel source outputs) before (copy, translated) after ∧
          source.Submodel outputs (source.part needed) copy translated) ∧
      ∀ left coordinate right, outputs.flatten = left ++ coordinate :: right →
        (∀ earlier ∈ left, source.HasElement earlier) → ¬source.HasElement coordinate →
          ∃ after, outcome (copySubmodel source outputs) before =
            (.error (if coordinate.output ∈ source.outputRefs then .coordinateOutOfRange coordinate
              else .unmappedPort coordinate.output), after) := by
  obtain ⟨needed, last, sorted, copied, result⟩ := wellFormed.exists_outcome standard outputs before
  have once : ((source.part needed).map Prod.fst).Nodup := wellFormed.nodup_part
  have isNeeded : ∀ coordinate ∈ outputs.flatten, coordinate.node ∈ needed := fun coordinate mem =>
    (wellFormed.coherent.mem_submodelOrder_iff sorted).mpr
      (reaches_of_mem (mem_roots_iff.mpr ⟨coordinate, mem, rfl⟩))
  constructor
  · intro known
    have translated : outputs.mapM last.portMap.translate = .ok (outputs.map fun elements =>
        elements.map (·.renumber (position (source.part needed)))) := by
      rw [mapM_eq_ok_iff, List.forall₂_map_right_iff, List.forall₂_same, copied.portMap]
      refine fun elements mem => PortMap.translate_renumbering once fun coordinate coordinateMem => ?_
      have requested := List.mem_flatten.mpr ⟨elements, mem, coordinateMem⟩
      obtain ⟨type, offers⟩ := known coordinate requested
      exact ⟨type, offers.of_needed (isNeeded coordinate requested)⟩
    refine ⟨needed, last.target, _, _, sorted, by rw [Succeeds, result, translated]; rfl, ?_⟩
    refine
      { wellFormed := copied.wellFormed, ordered := part_sublist
        needed := fun _ => wellFormed.mem_part_iff sorted known
        ids_eq := copied.ids_eq_range once, skeleton_eq := copied.skeleton
        translated_eq := rfl, computes := fun values accepts => ?_ }
    obtain ⟨loaded, copyLoaded, set, copySet, computes⟩ := copied.computes wellFormed standard
      part_sublist (wellFormed.closed_part sorted) accepts
    refine ⟨loaded, copyLoaded, set, copySet, fun type elements mem offers => ?_⟩
    refine computes type elements fun coordinate coordinateMem => ?_
    exact (offers coordinate coordinateMem).of_needed
      (isNeeded coordinate (List.mem_flatten.mpr ⟨elements, mem, coordinateMem⟩))
  · intro left coordinate right split known absent
    have passes : ∀ earlier ∈ left, ∃ image, last.portMap.translateCoordinate earlier = .ok image := by
      intro earlier mem
      obtain ⟨type, offers⟩ := known earlier mem
      rw [copied.portMap]
      exact ⟨_, PortMap.translateCoordinate_renumbering once
        (offers.of_needed (isNeeded earlier (split ▸ List.mem_append_left _ mem)))⟩
    have fails := wellFormed.translateCoordinate_eq_error (position (source.part needed))
      (isNeeded coordinate (split ▸ by simp)) absent
    rw [← copied.portMap] at fails
    have refused : outputs.mapM last.portMap.translate = .error _ :=
      mapM_lists_eq_error split passes fails
    exact ⟨{ last with target := .empty }, by rw [result, refused]; rfl⟩

/-- The sum of the announcer is copied with its input and computes the same there, and an element
that it does not have is refused. -/
theorem copySubmodel_copies_announcer :
    (∃ copy after loaded copyLoaded buffer,
      Succeeds (copySubmodel announcer [[⟨3, 0, 0⟩]]) (.start hasCode) (copy, [[⟨1, 0, 0⟩]]) after ∧
      copy.ids = [0, 1] ∧ announcer.setInputs [(0, .f64 #[1])] = .ok loaded ∧
      copy.setInputs [(0, .f64 #[1])] = .ok copyLoaded ∧
      loaded.computeOutput [⟨3, 0, 0⟩] = .ok buffer ∧
      copyLoaded.computeOutput [⟨1, 0, 0⟩] = .ok buffer) ∧
    ∃ after, outcome (copySubmodel announcer [[⟨3, 0, 0⟩], [⟨3, 0, 5⟩]]) (.start hasCode) =
      (.error (.coordinateOutOfRange ⟨3, 0, 5⟩), after) := by
  have standard : announcer.Standard := fun entry mem =>
    (sound_announcer.made entry mem).standard (by revert entry; decide)
  have offers : announcer.Offers .f64 ⟨3, 0, 0⟩ :=
    ⟨_, .tail _ (.tail _ (.head _)), _, rfl, Nat.zero_lt_one, rfl⟩
  constructor
  · obtain ⟨copies, _⟩ := copySubmodel_copies sound_announcer.wellFormed standard [[⟨3, 0, 0⟩]]
      (.start hasCode)
    obtain ⟨needed, copy, translated, after, sorted, copied, submodel⟩ :=
      copies (by simpa using ⟨.f64, offers⟩)
    obtain rfl := Except.ok.inj (submodelOrder_announcer.symm.trans sorted)
    obtain rfl := submodel.translated_eq
    have accepts : copy.Accepts [.f64 #[1]] := by
      rw [Accepts, ← inputIds_skeleton]
      simp only [Takes, submodel.skeleton_eq]
      exact .cons (.head _) .nil
    obtain ⟨loaded, copyLoaded, set, copySet, computes⟩ := submodel.computes _ accepts
    obtain ⟨buffer, computed, copyComputed⟩ :=
      computes .f64 [⟨3, 0, 0⟩] (.head _) (by simpa using offers)
    rw [← inputIds_skeleton, submodel.skeleton_eq] at copySet
    exact ⟨copy, after, loaded, copyLoaded, buffer, copied, submodel.ids_eq, set, copySet, computed,
      copyComputed⟩
  · obtain ⟨_, refuses⟩ := copySubmodel_copies sound_announcer.wellFormed standard
      [[⟨3, 0, 0⟩], [⟨3, 0, 5⟩]] (.start hasCode)
    have absent : ¬announcer.HasElement ⟨3, 0, 5⟩ := by
      rintro ⟨type, node, mem, port, ported, inside, _⟩
      obtain rfl := sound_announcer.wellFormed.coherent.skeleton_unique mem
        (.tail _ (.tail _ (.head _)))
      obtain rfl := Option.some.inj ported
      exact absurd inside (by decide)
    exact refuses [⟨3, 0, 0⟩] ⟨3, 0, 5⟩ [] rfl (by simpa using ⟨.f64, offers⟩) absent

end Model

end Dataflow
