import Dataflow.Proofs.Pass.Meaning

/-!
# Refinement keeps the meaning of a model

A model represents another one through a port map when both compute the same from the same
inputs: the same value for a coordinate and its image, and the same deliveries.  A pass makes a
model that represents its source, and representations compose like their port maps.  So the
result of any number of passes represents the model that refinement started from.
-/

namespace Dataflow

open Pass

/-- The input nodes of two models have the same types and sizes, and the one is mapped to the
other. -/
def StandsForInput (map : PortMap) (source target : Model) (id image : NodeId) : Prop :=
  ∃ type size, (id, Node.input type size) ∈ source.skeleton ∧
    (image, Node.input type size) ∈ target.skeleton ∧
    map.get? ⟨id, 0⟩ = some ((⟨image, 0⟩ : OutputRef).elements size)

/-- A model computes what another one computes, at the places where a port map says. -/
structure Represents (map : PortMap) (source target : Model) : Prop where
  wellFormed : target.WellFormed
  standard : target.Standard
  /-- What stands for a port exists. -/
  images : ∀ entry ∈ map.entries, ∀ image ∈ entry.2, ∃ type, target.Offers type image
  /-- Every element has an image of its type. -/
  translates : ∀ type coordinate, source.Offers type coordinate →
    ∃ image, map.translateCoordinate coordinate = .ok image ∧ target.Offers type image
  inputs : List.Forall₂ (StandsForInput map source target) source.inputNodes target.inputNodes
  means : ∀ {values : List Buffer} {first second : Model}, source.Accepts values →
    source.Assigned values first → target.Assigned values second →
      (∀ coordinate, first.ReflectsAt map second coordinate) ∧
        second.delivered target.skeleton = first.delivered source.skeleton

namespace Represents

variable {map : PortMap} {source target : Model} {values : List Buffer}

/-- Buffers that fit the inputs of a model fit those of a model that represents it. -/
theorem accepts (represents : Represents map source target) (sourceWellFormed : source.WellFormed)
    (accepts : source.Accepts values) : target.Accepts values := by
  refine (forall₂_trans represents.inputs.flip accepts).imp ?_
  rintro image buffer ⟨id, ⟨type, size, own, image, _⟩, takes⟩
  obtain ⟨rfl, rfl⟩ : buffer.type = type ∧ buffer.size = size := by
    simpa [Node.input] using sourceWellFormed.coherent.skeleton_unique takes own
  exact image

end Represents

/-! ## One pass -/

section OnePass

variable {map : PortMap} {pair : NodeId × Node} {batch : List (NodeId × Node)}
  {nodes : List (NodeId × Node)} {source target : Model}

/-- The nodes of a batch come from the builders of standard nodes. -/
theorem Substitutes.standard (substitutes : Substitutes map pair batch)
    (standard : pair.2.Standard) : ∀ twin ∈ batch, twin.2.Standard := by
  cases substitutes with
  | @copy id target node wiring port translated single mapped =>
      have sameLengths : wiring.map List.length = node.wiring.map List.length := by
        rw [← List.forall₂_eq_eq_eq, List.forall₂_map_left_iff, List.forall₂_map_right_iff]
        exact translated.flip.imp fun _ _ => length_of_translate
      have rewired : ({ node with wiring } : Node).Made := Node.Made.rewire (.inl standard) sameLengths
      simpa using rewired.standard standard.isSome_kind?
  | @coordinatewise id constant result type op values input images translated mapped =>
      have same : input.length = values.size := by cases standard; assumption
      have counted := length_elements ⟨constant, 0⟩ values.size
      have combined := Node.Standard.arithmetic type op.binaryOp
        ((⟨constant, 0⟩ : OutputRef).elements values.size) images
        (counted.trans (same.symm.trans (length_of_translate translated).symm))
      rw [counted] at combined
      simpa [standard_constant] using combined
  | @hamming id constant result type input images translated mapped =>
      have sized := length_of_translate translated
      have combined := Node.Standard.arithmetic type .multiply images
        ((⟨constant, 0⟩ : OutputRef).elements input.length)
        (sized.trans (length_elements ⟨constant, 0⟩ input.length).symm)
      rw [sized] at combined
      simpa [standard_constant] using combined

/-- Inputs are replaced by inputs that stand for them. -/
theorem Substitutes.standsForInput (substitutes : Substitutes map pair batch)
    (standard : pair.2.Standard) (mem : pair ∈ source.skeleton)
    (kept : ∀ twin ∈ batch, twin ∈ target.skeleton) :
    List.Forall₂ (StandsForInput map source target) (inputIds [pair]) (inputIds batch) := by
  rcases substitutes.inputIds_eq with ⟨twin, rfl, input, own, images⟩ | ⟨_, own, images⟩
  · rw [own, images]
    refine .cons ?_ .nil
    obtain ⟨type, size, isInput⟩ := standard.input_of_capabilities input
    obtain ⟨id, node⟩ := pair
    simp only at isInput
    subst isInput
    cases substitutes with
    | copy translated single mapped =>
        obtain rfl := List.forall₂_nil_left_iff.mp translated
        obtain rfl := List.singleton_inj.mp single
        exact ⟨type, size, mem, kept _ List.mem_cons_self, by simpa using mapped⟩
  · rw [own, images]
    exact .nil

theorem forall₂_inputIds {related : NodeId → NodeId → Prop}
    {batches : List (List (NodeId × Node))}
    (pointwise : List.Forall₂
      (fun pair batch => List.Forall₂ related (inputIds [pair]) (inputIds batch)) nodes batches) :
    List.Forall₂ related (inputIds nodes) (inputIds batches.flatten) := by
  induction pointwise with
  | nil => exact .nil
  | cons first _ ih =>
      rw [← List.singleton_append, inputIds_append, List.flatten_cons, inputIds_append]
      exact List.rel_append first ih

theorem Replaces.nodup_keys (replaces : Replaces nodes map target)
    (once : (nodes.map Prod.fst).Nodup) : (map.entries.map Prod.fst).Nodup := by
  refine List.Nodup.of_map OutputRef.node ?_
  rw [replaces.keys, List.map_map]
  exact once

/-- Everything that stands for a port exists in the target. -/
theorem Replaces.offers_images (replaces : Replaces nodes map target)
    (standard : ∀ pair ∈ nodes, pair.2.Standard) (once : (nodes.map Prod.fst).Nodup) :
    ∀ entry ∈ map.entries, ∀ image ∈ entry.2, ∃ type, target.Offers type image := by
  intro entry entryMem image imageMem
  obtain ⟨batches, skeleton, pointwise⟩ := replaces.replaced
  have keyMem : entry.1 ∈ nodes.map fun pair => (⟨pair.1, 0⟩ : OutputRef) :=
    replaces.keys ▸ List.mem_map_of_mem entryMem
  obtain ⟨pair, pairMem, key⟩ := List.mem_map.mp keyMem
  obtain ⟨batch, batchMem, substitutes⟩ := exists_of_mem_left pointwise pairMem
  obtain ⟨twin, twinMem, port, twinPort, _, single, sameSize, _, mapped⟩ :=
    substitutes.stands (standard pair pairMem)
  have found : map.get? ⟨pair.1, 0⟩ = some entry.2 :=
    PortMap.get?_of_mem (replaces.nodup_keys once) (key ▸ entryMem)
  rw [Option.some.inj (found.symm.trans mapped)] at imageMem
  obtain ⟨index, inside, rfl⟩ := List.mem_map.mp imageMem
  refine ⟨twinPort.type, twin.2, ?_, twinPort, by simp [OutputRef.element, single], ?_, rfl⟩
  · rw [skeleton]
    exact List.mem_flatten.mpr ⟨batch, batchMem, twinMem⟩
  · rw [sameSize]
    exact List.mem_range.mp inside

/-- The target of a pass over a whole model represents it. -/
theorem Replaces.represents (replaces : Replaces source.skeleton map target)
    (wellFormed : source.WellFormed) (standard : source.Standard) : Represents map source target := by
  have nodesStandard := Model.standard_iff_skeleton.mp standard
  have once : (source.skeleton.map Prod.fst).Nodup :=
    source.ids_eq_skeleton ▸ wellFormed.ids_nodup
  obtain ⟨batches, skeleton, pointwise⟩ := replaces.replaced
  have each := (List.forall₂_and_left source.skeleton batches).mpr ⟨fun _ mem => mem, pointwise⟩
  have kept : ∀ batch ∈ batches, ∀ twin ∈ batch, twin ∈ target.skeleton := fun batch mem twin own =>
    skeleton ▸ List.mem_flatten.mpr ⟨batch, mem, own⟩
  refine ⟨replaces.wellFormed, ?_, replaces.offers_images nodesStandard once,
    fun _ _ => replaces.exists_image nodesStandard, ?_, ?_⟩
  · rw [Model.standard_iff_skeleton, skeleton]
    intro twin mem
    obtain ⟨batch, batchMem, own⟩ := List.mem_flatten.mp mem
    obtain ⟨pair, pairMem, substitutes⟩ := exists_of_mem_right pointwise batchMem
    exact substitutes.standard (nodesStandard pair pairMem) twin own
  · rw [← Model.inputIds_skeleton, ← Model.inputIds_skeleton, skeleton]
    have flipped := (List.forall₂_and_left batches source.skeleton).mpr ⟨kept, each.flip⟩
    exact forall₂_inputIds (flipped.flip.imp fun pair batch step =>
      step.2.2.standsForInput (nodesStandard pair step.2.1) step.2.1 step.1)
  · intro values first second _ firstAssigned secondAssigned
    have pairs : Replaces.Pairs source.skeleton target first second :=
      { sourceWellFormed := firstAssigned.wellFormed
        sourceSettled := firstAssigned.settled
        targetWellFormed := secondAssigned.wellFormed
        targetSettled := secondAssigned.settled
        within := fun pair mem => firstAssigned.skeleton_eq ▸ mem
        skeleton_eq := secondAssigned.skeleton_eq
        inputs := by
          rw [Model.inputIds_skeleton, Model.inputIds_skeleton]
          refine (forall₂_trans firstAssigned.inputs secondAssigned.inputs.flip).imp ?_
          rintro id image ⟨buffer, own, images⟩
          exact images.trans own.symm }
    refine ⟨fun coordinate scalar read => ?_, replaces.delivered_eq nodesStandard wellFormed.closed
      pairs⟩
    obtain ⟨entry, mem, same, _⟩ := firstAssigned.wellFormed.coherent.value_eq_ok_iff.mp read
    have pairMem : (entry.id, entry.node) ∈ source.skeleton :=
      firstAssigned.skeleton_eq ▸ Model.mem_skeleton_iff.mpr ⟨entry, mem, rfl, rfl⟩
    exact replaces.reflects nodesStandard wellFormed.closed pairs pairMem same.symm scalar read

end OnePass

/-! ## Several passes -/

section Passes

variable {firstMap secondMap : PortMap} {source middle target : Model}

/-- Representations compose like their port maps. -/
theorem Represents.trans (first : Represents firstMap source middle)
    (second : Represents secondMap middle target) (sourceWellFormed : source.WellFormed) :
    ∃ composed, firstMap.compose secondMap = .ok composed ∧ Represents composed source target := by
  obtain ⟨composed, composition⟩ : ∃ composed, firstMap.compose secondMap = .ok composed := by
    refine PortMap.exists_compose fun entry mem coordinate coordinateMem => ?_
    obtain ⟨type, offered⟩ := first.images entry mem coordinate coordinateMem
    obtain ⟨image, found, _⟩ := second.translates type coordinate offered
    exact ⟨image, found⟩
  have through : ∀ {coordinate between image : Coordinate},
      firstMap.translateCoordinate coordinate = .ok between →
      secondMap.translateCoordinate between = .ok image →
      composed.translateCoordinate coordinate = .ok image := by
    intro coordinate between image one two
    rw [PortMap.translateCoordinate_compose composition, one]
    exact two
  refine ⟨composed, composition, second.wellFormed, second.standard, ?_, ?_, ?_, ?_⟩
  · intro entry mem image imageMem
    obtain ⟨start, startMem, _, translated⟩ :=
      exists_of_mem_right (PortMap.compose_eq_ok_iff.mp composition) mem
    obtain ⟨between, betweenMem, step⟩ :=
      exists_of_mem_right (PortMap.translate_eq_ok_iff.mp translated) imageMem
    obtain ⟨type, offered⟩ := first.images start startMem between betweenMem
    obtain ⟨found, foundStep, foundOffered⟩ := second.translates type between offered
    obtain rfl := Except.ok.inj (foundStep.symm.trans step)
    exact ⟨type, foundOffered⟩
  · intro type coordinate offered
    obtain ⟨between, one, betweenOffered⟩ := first.translates type coordinate offered
    obtain ⟨image, two, imageOffered⟩ := second.translates type between betweenOffered
    exact ⟨image, through one two, imageOffered⟩
  · refine (forall₂_trans first.inputs second.inputs).imp ?_
    rintro id image ⟨between, ⟨type, size, own, listed, mapped⟩, otherType, otherSize, again, twin,
      mappedAgain⟩
    obtain ⟨rfl, rfl⟩ : type = otherType ∧ size = otherSize := by
      simpa [Node.input] using first.wellFormed.coherent.skeleton_unique listed again
    refine ⟨type, size, own, twin, ?_⟩
    have composedTo := PortMap.get?_of_compose composition ⟨id, 0⟩
    rw [mapped] at composedTo
    obtain ⟨images, translated, found⟩ := composedTo
    have whole := PortMap.translate_elements mappedAgain
    rw [length_elements] at whole
    rw [found, Except.ok.inj (translated.symm.trans whole)]
  · intro values start stop accepts startAssigned stopAssigned
    obtain ⟨computation, _, _, middleAssigned, _⟩ :=
      first.wellFormed.exists_run first.standard (first.accepts sourceWellFormed accepts)
    obtain ⟨oneReflects, oneDelivers⟩ := first.means accepts startAssigned middleAssigned
    obtain ⟨twoReflects, twoDelivers⟩ :=
      second.means (first.accepts sourceWellFormed accepts) middleAssigned stopAssigned
    refine ⟨fun coordinate scalar read => ?_, twoDelivers.trans oneDelivers⟩
    obtain ⟨between, one, betweenRead⟩ := oneReflects coordinate scalar read
    obtain ⟨image, two, imageRead⟩ := twoReflects between scalar betweenRead
    exact ⟨image, through one two, imageRead⟩

end Passes

/-! ## Refinement -/

section Refinement

variable {source : Model}

/-- A pass over a whole model makes a model that represents it. -/
theorem exists_represents (wellFormed : source.WellFormed) (standard : source.Standard)
    {callback : Node → Pass Bool} (replacing : Replacing callback) (before : Transformer) :
    ∃ target refined after,
      Succeeds (transformModel source callback) before (target, refined) after ∧
      Represents after.portMap source target := by
  obtain ⟨target, refined, after, succeeded, replaces, _⟩ :=
    exists_transformNodes wellFormed.coherent replacing (fun _ mem => mem)
      (Model.standard_iff_skeleton.mp standard) (source.ids_eq_skeleton ▸ wellFormed.ids_nodup)
      wellFormed.closed before
  rw [← source.ids_eq_skeleton] at succeeded
  exact ⟨target, refined, after, succeeded, replaces.represents wellFormed standard⟩

/-- The induction is on the number of passes that are left; the invariant is that the model so far
represents the source through the total port map. -/
theorem exists_refineMore (wellFormed : source.WellFormed) (limit : Nat) {model : Model}
    {total : PortMap} (represents : Represents total source model) (iterations : Nat)
    (before : Transformer) :
    ∃ refined after, Succeeds (refineMore limit model total iterations) before refined after ∧
      Represents refined.portMap source refined.model := by
  induction limit generalizing model total iterations before with
  | zero => exact ⟨_, before, succeeds_pure_iff.mpr ⟨rfl, rfl⟩, represents⟩
  | succ limit ih =>
      obtain ⟨next, changed, middle, passed, nextRepresents⟩ :=
        exists_represents represents.wellFormed represents.standard replacing_refining before
      obtain ⟨composed, composition, composedRepresents⟩ :=
        represents.trans nextRepresents wellFormed
      have stepped : ∀ {refined : Refined} {after : Transformer},
          Succeeds (if changed = 0 then pure ⟨next, iterations + 1, true, composed⟩
            else refineMore limit next composed (iterations + 1)) middle refined after →
          Succeeds (refineMore (limit + 1) model total iterations) before refined after := by
        intro refined after rest
        simp only [refineMore, succeeds_bind_iff]
        exact ⟨_, middle, passed, _, _, succeeds_get_iff.mpr ⟨rfl, rfl⟩, _, _,
          succeeds_lift_iff.mpr ⟨composition, rfl⟩, rest⟩
      by_cases unchanged : changed = 0
      · refine ⟨⟨next, iterations + 1, true, composed⟩, middle, stepped ?_, composedRepresents⟩
        rw [if_pos unchanged]
        exact succeeds_pure_iff.mpr ⟨rfl, rfl⟩
      · obtain ⟨refined, after, rest, lastRepresents⟩ := ih composedRepresents (iterations + 1) middle
        exact ⟨refined, after, stepped (by rwa [if_neg unchanged]), lastRepresents⟩

/-- The end of a refinement keeps the model and the port map. -/
theorem exists_conclude (last : Refined) (before : Transformer) :
    ∃ refined after, Succeeds (conclude last) before refined after ∧
      refined.model = last.model ∧ refined.portMap = last.portMap := by
  simp only [conclude, succeeds_bind_iff, succeeds_get_iff, succeeds_set_iff, succeeds_pure_iff]
  exact ⟨_, _, ⟨before, before, ⟨rfl, rfl⟩, ⟨⟩, _, rfl, rfl, rfl⟩, rfl, rfl⟩

/-- Refinement succeeds, and its result represents the source. -/
theorem exists_refineModel (wellFormed : source.WellFormed) (standard : source.Standard)
    (options : RefineOptions) (before : Transformer) :
    ∃ refined after, Succeeds (refineModel source options) before refined after ∧
      Represents refined.portMap source refined.model := by
  obtain ⟨_ | limit⟩ := options
  · obtain ⟨model, changed, after, copied, represents⟩ :=
      exists_represents wellFormed standard replacing_copying before
    refine ⟨⟨model, 0, model.entries.all (after.compilable ·.node), after.portMap⟩, after, ?_,
      represents⟩
    simp only [refineModel, copyModel, fullyCompilable, succeeds_bind_iff, succeeds_get_iff,
      succeeds_pure_iff]
    exact ⟨model, after, ⟨_, _, copied, rfl, rfl⟩, _, _, ⟨_, _, ⟨rfl, rfl⟩, rfl, rfl⟩, _, _,
      ⟨rfl, rfl⟩, rfl, rfl⟩
  · obtain ⟨model, changed, middle, passed, represents⟩ :=
      exists_represents wellFormed standard replacing_refining before
    obtain ⟨last, stop, finished, lastRepresents⟩ : ∃ last stop,
        Succeeds (if changed = 0 then pure ⟨model, 1, true, middle.portMap⟩
          else refineMore limit model middle.portMap 1) middle last stop ∧
        Represents last.portMap source last.model := by
      by_cases unchanged : changed = 0
      · refine ⟨⟨model, 1, true, middle.portMap⟩, middle, ?_, represents⟩
        rw [if_pos unchanged]
        exact succeeds_pure_iff.mpr ⟨rfl, rfl⟩
      · rw [if_neg unchanged]
        exact exists_refineMore wellFormed limit represents 1 middle
    obtain ⟨refined, after, concluded, sameModel, sameMap⟩ := exists_conclude last stop
    refine ⟨refined, after, ?_, sameModel ▸ sameMap ▸ lastRepresents⟩
    rw [refineModel_eq]
    simp only [succeeds_bind_iff]
    exact ⟨_, middle, passed, middle, middle, succeeds_get_iff.mpr ⟨rfl, rfl⟩, last, stop, finished,
      concluded⟩

/-- Refinement keeps the meaning of a model.  For every well-formed model of standard nodes, every
answer to which nodes count as compilable and every limit, refinement succeeds.  Its port map takes
the input nodes of the source, in order, to those of the result.  When the same buffers are written
to the input nodes of both, both computations succeed and hand the same values to the same
callbacks in the same order, and every element of every port of the source has the value of the
element that stands for it. -/
theorem refined_computes_the_same (wellFormed : source.WellFormed) (standard : source.Standard)
    (options : RefineOptions) (before : Transformer) :
    ∃ refined after, Succeeds (refineModel source options) before refined after ∧
      refined.model.WellFormed ∧ refined.model.Standard ∧
      List.Forall₂ (StandsForInput refined.portMap source refined.model)
        source.inputNodes refined.model.inputNodes ∧
      ∀ values, source.Accepts values → ∃ first second,
        source.run values = .ok first ∧ refined.model.run values = .ok second ∧
        first.result = .ok () ∧ second.result = .ok () ∧ second.notices = first.notices ∧
        ∀ type coordinate, source.Offers type coordinate → ∃ image scalar,
          refined.portMap.translateCoordinate coordinate = .ok image ∧
          first.model.value coordinate = .ok scalar ∧ second.model.value image = .ok scalar := by
  obtain ⟨refined, after, succeeded, represents⟩ :=
    exists_refineModel wellFormed standard options before
  refine ⟨refined, after, succeeded, represents.wellFormed, represents.standard, represents.inputs,
    fun values accepts => ?_⟩
  obtain ⟨first, firstRun, firstDone, firstAssigned, firstNotices⟩ :=
    wellFormed.exists_run standard accepts
  obtain ⟨second, secondRun, secondDone, secondAssigned, secondNotices⟩ :=
    represents.wellFormed.exists_run represents.standard (represents.accepts wellFormed accepts)
  obtain ⟨reflects, delivers⟩ := represents.means accepts firstAssigned secondAssigned
  refine ⟨first, second, firstRun, secondRun, firstDone, secondDone, ?_, ?_⟩
  · rw [firstNotices, secondNotices, delivers]
  · intro type coordinate offered
    obtain ⟨scalar, read, _⟩ := firstAssigned.exists_value offered
    obtain ⟨image, translated, imageRead⟩ := reflects coordinate scalar read
    exact ⟨image, scalar, translated, read, imageRead⟩

/-- A model that adds one to its input and hands the result to a sink.  A node was removed. -/
def announcer : Model where
  arena := ⟨#[
    some ⟨0, .input .f64 1, [.f64 #[0]]⟩,
    some ⟨1, .constant (.bool #[true]), [.bool #[false]]⟩,
    none,
    some ⟨3, ⟨.coordinatewise .f64 .shift #[1], [[⟨0, 0, 0⟩]]⟩, [.f64 #[0]]⟩,
    some ⟨4, ⟨.sink .f64 "heard" 1 true, [[⟨3, 0, 0⟩], [⟨1, 0, 0⟩]]⟩, [.f64 #[0]]⟩]⟩
  order := [0, 1, 3, 4]
  keys := [(4, 4), (3, 3), (1, 1), (0, 0)]
  nextId := 5

theorem sound_announcer : announcer.Sound := by
  have first : Model.Sound _ :=
    Model.sound_empty.add (.inl (.input .f64 1)) (rfl : _ = Except.ok (0, _))
  have second : Model.Sound _ :=
    first.add (.inl (standard_constant (.bool #[true]))) (rfl : _ = Except.ok (1, _))
  have third : Model.Sound _ := second.add (.inl (.input .bool 1)) (rfl : _ = Except.ok (2, _))
  have gap : Model.Sound _ := third.remove (rfl : Model.remove _ 2 = .ok (.input .bool 1, _))
  have fourth : Model.Sound _ := gap.add
    (.inl (.coordinatewise .f64 .shift #[1] [⟨0, 0, 0⟩] rfl)) (rfl : _ = Except.ok (3, _))
  exact fourth.add
    (.inl (.sink .f64 "heard" true [⟨3, 0, 0⟩] [⟨1, 0, 0⟩] rfl)) (rfl : _ = Except.ok (4, _))

theorem standard_announcer : announcer.Standard :=
  fun entry mem => (sound_announcer.made entry mem).standard (by revert entry; decide)

/-- The refined announcer hands the sum to its callback too. -/
theorem refined_announcer_computes_the_same :
    ∃ refined after first second image scalar,
      Succeeds (refineModel announcer ⟨3⟩) (.start hasCode) refined after ∧
      announcer.run [.f64 #[1]] = .ok first ∧ refined.model.run [.f64 #[1]] = .ok second ∧
      second.notices = first.notices ∧
      refined.portMap.translateCoordinate ⟨3, 0, 0⟩ = .ok image ∧
      first.model.value ⟨3, 0, 0⟩ = .ok scalar ∧ second.model.value image = .ok scalar := by
  have standard : announcer.Standard := fun entry mem =>
    (sound_announcer.made entry mem).standard (by revert entry; decide)
  have accepts : announcer.Accepts [.f64 #[1]] := .cons (.head _) .nil
  obtain ⟨refined, after, succeeded, _, _, _, computes⟩ :=
    refined_computes_the_same sound_announcer.wellFormed standard ⟨3⟩ (.start hasCode)
  obtain ⟨first, second, firstRun, secondRun, _, _, notices, values⟩ := computes _ accepts
  obtain ⟨image, scalar, translated, read, imageRead⟩ :=
    values .f64 ⟨3, 0, 0⟩ ⟨_, .tail _ (.tail _ (.head _)), _, rfl, Nat.zero_lt_one, rfl⟩
  exact ⟨refined, after, first, second, image, scalar, succeeded, firstRun, secondRun, notices,
    translated, read, imageRead⟩

end Refinement

end Dataflow
