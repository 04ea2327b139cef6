import Dataflow.Proofs.Graph.Assigning
import Dataflow.Proofs.Pass.PortMaps
import Dataflow.Proofs.Pass.Soundness

/-!
# What a pass does to standard nodes

A pass visits the nodes of its source one by one.  Each of them it replaces by a batch of target
nodes: by a copy with translated wiring, or by a constant and a node that combines it with the
translated input.  The last node of the batch stands for the source node.  What later nodes
read is then mapped to elements of the target that have the same types, so no step fails.
-/

namespace Dataflow

open Pass

/-! ## Batches -/

/-- The nodes of the target that replace a node of the source, as a port map says. -/
inductive Substitutes (map : PortMap) : NodeId × Node → List (NodeId × Node) → Prop
  | copy {id target : NodeId} {node : Node} {wiring : List Elements} {port : OutputPort}
      (translated : List.Forall₂ (fun elements images => map.translate elements = .ok images)
        node.wiring wiring)
      (single : node.outputs = [port])
      (mapped : map.get? ⟨id, 0⟩ = some ((⟨target, 0⟩ : OutputRef).elements port.size)) :
      Substitutes map (id, node) [(target, { node with wiring })]
  | coordinatewise {id constant result : NodeId} {type : RealType} {op : CoordinateOp}
      {values : Array type.Carrier} {input images : Elements}
      (translated : map.translate input = .ok images)
      (mapped : map.get? ⟨id, 0⟩ = some ((⟨result, 0⟩ : OutputRef).elements values.size)) :
      Substitutes map (id, ⟨.coordinatewise type op values, [input]⟩)
        [(constant, Node.constant (.ofReals type values)),
          (result, ⟨.arithmetic type op.binaryOp values.size,
            [(⟨constant, 0⟩ : OutputRef).elements values.size, images]⟩)]
  | hamming {id constant result : NodeId} {type : RealType} {input images : Elements}
      (translated : map.translate input = .ok images)
      (mapped : map.get? ⟨id, 0⟩ = some ((⟨result, 0⟩ : OutputRef).elements input.length)) :
      Substitutes map (id, ⟨.hamming type input.length, [input]⟩)
        [(constant, Node.constant (.ofReals type (hammingWindow type input.length))),
          (result, ⟨.arithmetic type .multiply input.length,
            [images, (⟨constant, 0⟩ : OutputRef).elements input.length]⟩)]

namespace Substitutes

variable {map after : PortMap} {pair : NodeId × Node} {batch : List (NodeId × Node)}

theorem mono (substitutes : Substitutes map pair batch) (extends_ : after.Extends map) :
    Substitutes after pair batch := by
  cases substitutes with
  | copy translated single mapped =>
      exact .copy (translated.imp fun _ _ => extends_.translate) single (extends_ _ _ mapped)
  | coordinatewise translated mapped =>
      exact .coordinatewise (extends_.translate translated) (extends_ _ _ mapped)
  | hamming translated mapped =>
      exact .hamming (extends_.translate translated) (extends_ _ _ mapped)

/-- The last node of a batch stands for the source node: it has one port of the same type and
size, and the map sends the one to the other. -/
theorem stands (substitutes : Substitutes map pair batch) (standard : pair.2.Standard) :
    ∃ target ∈ batch, ∃ port image, pair.2.outputs = [port] ∧ target.2.outputs = [image] ∧
      image.size = port.size ∧ image.type = port.type ∧
      map.get? ⟨pair.1, 0⟩ = some ((⟨target.1, 0⟩ : OutputRef).elements port.size) := by
  cases substitutes with
  | copy translated single mapped =>
      exact ⟨_, List.mem_singleton_self _, _, _, single, single, rfl, rfl, mapped⟩
  | coordinatewise translated mapped =>
      refine ⟨_, List.mem_cons_of_mem _ (List.mem_singleton_self _), _, _, rfl, rfl, rfl, rfl, ?_⟩
      simpa using mapped
  | hamming translated mapped =>
      refine ⟨_, List.mem_cons_of_mem _ (List.mem_singleton_self _), _, _, rfl, rfl, rfl, rfl, ?_⟩
      simpa using mapped

/-- The elements of the source node are mapped to elements that the target offers. -/
theorem exists_image {target : Model} (substitutes : Substitutes map pair batch)
    (standard : pair.2.Standard) (kept : ∀ twin ∈ batch, twin ∈ target.skeleton)
    {coordinate : Coordinate} (own : coordinate.node = pair.1) {port : OutputPort}
    (ported : pair.2.outputs[coordinate.port]? = some port)
    (inside : coordinate.element < port.size) :
    ∃ image, map.translateCoordinate coordinate = .ok image ∧ target.Offers port.type image := by
  obtain ⟨twin, twinMem, only, image, single, twinSingle, sameSize, sameType, mapped⟩ :=
    substitutes.stands standard
  obtain ⟨node, position, element⟩ := coordinate
  simp only at own ported inside
  subst own
  rw [single, List.getElem?_singleton] at ported
  split at ported
  · rename_i first
    subst first
    obtain rfl := Option.some.inj ported
    refine ⟨⟨twin.1, 0, element⟩, ?_, twin.2, kept twin twinMem, image, ?_, ?_, sameType⟩
    · rw [PortMap.translateCoordinate_eq_ok_iff]
      refine ⟨_, mapped, ?_⟩
      simp [OutputRef.elements, OutputRef.element, inside]
    · simp [twinSingle]
    · simpa [sameSize] using inside
  · contradiction

end Substitutes

/-! ## The actions of a callback -/

section Actions

variable {transformer : Transformer} {elements images : Elements}

theorem succeeds_lift_iff {α : Type} {outcome : Except ModelError α} {result : α}
    {before after : Transformer} :
    Succeeds (lift outcome) before result after ↔ outcome = .ok result ∧ after = before := by
  cases outcome with
  | error error => simp [lift]
  | ok value => simp [lift, eq_comm]

theorem outcome_lift {α : Type} (result : Except ModelError α) (before : Transformer) :
    outcome (lift result) before = (result, before) := by
  cases result <;> rfl

theorem outcome_translate (elements : Elements) (transformer : Transformer) :
    outcome (Pass.translate elements) transformer =
      (transformer.portMap.translate elements, transformer) := by
  simp only [Pass.translate, outcome_bind, outcome_get, outcome_lift]

/-- Translating several lists gives what the port map gives for them and changes nothing. -/
theorem outcome_translateAll (lists : List Elements) (transformer : Transformer) :
    outcome (lists.mapM Pass.translate) transformer =
      (lists.mapM transformer.portMap.translate, transformer) := by
  induction lists with
  | nil => rfl
  | cons first rest ih =>
      simp only [List.mapM_cons, outcome_bind, outcome_translate]
      cases transformer.portMap.translate first with
      | error error => rfl
      | ok images =>
          simp only [ih]
          cases rest.mapM transformer.portMap.translate <;> rfl

theorem succeeds_translate (translated : transformer.portMap.translate elements = .ok images) :
    Succeeds (Pass.translate elements) transformer images transformer := by
  rw [Succeeds, outcome_translate, translated]

theorem succeeds_translateAll {wiring translated : List Elements}
    (pointwise : List.Forall₂
      (fun elements images => transformer.portMap.translate elements = .ok images)
      wiring translated) :
    Succeeds (wiring.mapM Pass.translate) transformer translated transformer := by
  rw [Succeeds, outcome_translateAll, mapM_eq_ok_iff.mpr pointwise]

theorem succeeds_mapOutput {current : CurrentNode} {port : Nat}
    (isCurrent : transformer.current = some current)
    (sized : current.outputSizes[port]? = some elements.length)
    (fresh : transformer.portMap.get? ⟨current.id, port⟩ = none) :
    Succeeds (mapOutput port elements) transformer ()
      { transformer with
        portMap := ⟨transformer.portMap.entries ++ [(⟨current.id, port⟩, elements)]⟩ } := by
  have inserted := PortMap.insert_eq_ok_iff.mpr
    (⟨fresh, rfl⟩ : _ ∧ _ = (⟨_ ++ [(⟨current.id, port⟩, elements)]⟩ : PortMap))
  have getsCurrent : Succeeds currentNode transformer current transformer := by
    simp only [currentNode, succeeds_bind_iff, succeeds_get_iff]
    exact ⟨_, _, ⟨rfl, rfl⟩, by simp [isCurrent]⟩
  simp only [mapOutput, succeeds_bind_iff]
  refine ⟨current, transformer, getsCurrent, ?_⟩
  simp only [sized, ne_eq, not_true_eq_false, if_false, succeeds_bind_iff,
    succeeds_get_iff, succeeds_lift_iff, succeeds_modify_iff]
  exact ⟨_, _, ⟨rfl, rfl⟩, _, _, ⟨inserted, rfl⟩, rfl⟩

/-- Adding a standard node that reads what the target offers. -/
theorem exists_addNode (transformer : Transformer) {node : Node}
    (wellFormed : transformer.target.WellFormed)
    (standard : node.Standard)
    (offered : ∀ input ∈ node.inputs, ∀ coordinate ∈ input.elements,
      transformer.target.Offers input.type coordinate) :
    ∃ target, Succeeds (addNode node) transformer transformer.target.nextId
        { transformer with target } ∧
      target.WellFormed ∧ target.nextId = transformer.target.nextId + 1 ∧
      target.skeleton = transformer.target.skeleton ++ [(transformer.target.nextId, node)] := by
  obtain ⟨target, added, grown⟩ := wellFormed.exists_add standard.length_outputs offered
  refine ⟨target, ?_, grown⟩
  simp only [addNode, succeeds_bind_iff, succeeds_get_iff, succeeds_lift_iff, succeeds_modify_iff,
    succeeds_pure_iff]
  exact ⟨_, _, ⟨rfl, rfl⟩, (_, target), _, ⟨added, rfl⟩, ⟨⟩, _, rfl, rfl, rfl⟩

end Actions

/-! ## Rewiring -/

/-- A node that reads other elements has the same input ports otherwise. -/
theorem Node.inputs_rewire {node : Node} {wiring : List Elements}
    {related : Elements → Elements → Prop} (pointwise : List.Forall₂ related node.wiring wiring) :
    List.Forall₂ (fun input image => image.type = input.type ∧ related input.elements image.elements)
      node.inputs ({ node with wiring } : Node).inputs := by
  simp only [Node.inputs, pointwise.length_eq]
  generalize node.operator.inputNames wiring.length = names
  generalize node.wiring = before at pointwise
  induction pointwise generalizing names with
  | nil => simp
  | cons first _ ih =>
      rcases names with _ | ⟨name, names⟩
      · simp
      · exact .cons ⟨rfl, first⟩ (ih names)

/-! ## Callbacks -/

/-- A callback is called for a node: the target is well formed, the node is not mapped yet, and
what it reads is mapped to elements of the target that have the right types. -/
structure Awaits (transformer : Transformer) (id : NodeId) (node : Node) : Prop where
  wellFormed : transformer.target.WellFormed
  current : transformer.current = some ⟨id, node.outputs.map OutputPort.size⟩
  unmapped : transformer.portMap.get? ⟨id, 0⟩ = none
  reads : ∀ input ∈ node.inputs, ∀ coordinate ∈ input.elements,
    ∃ image, transformer.portMap.translateCoordinate coordinate = .ok image ∧
      transformer.target.Offers input.type image

/-- A callback has replaced a node by a batch and has mapped its port. -/
structure Replaced (before : Transformer) (id : NodeId) (node : Node) (after : Transformer) :
    Prop where
  compilable_eq : after.compilable = before.compilable
  wellFormed : after.target.WellFormed
  mapped : ∃ elements, after.portMap = ⟨before.portMap.entries ++ [(⟨id, 0⟩, elements)]⟩
  replaced : ∃ batch, after.target.skeleton = before.target.skeleton ++ batch ∧
    Substitutes after.portMap (id, node) batch

section Callbacks

variable {before : Transformer} {id : NodeId} {node : Node}

/-- What a port reads can be translated, and the target offers the translation. -/
theorem Awaits.exists_translation (awaits : Awaits before id node) (input : InputPort)
    (mem : input ∈ node.inputs) :
    ∃ images, before.portMap.translate input.elements = .ok images ∧
      ∀ image ∈ images, before.target.Offers input.type image := by
  obtain ⟨images, translated⟩ : ∃ images, before.portMap.translate input.elements = .ok images :=
    exists_mapM_eq_ok fun coordinate coordinateMem =>
      have ⟨image, found, _⟩ := awaits.reads input mem coordinate coordinateMem
      ⟨image, found⟩
  refine ⟨images, translated, fun image imageMem => ?_⟩
  obtain ⟨coordinate, coordinateMem, step⟩ :=
    exists_of_mem_right (PortMap.translate_eq_ok_iff.mp translated) imageMem
  obtain ⟨other, found, offered⟩ := awaits.reads input mem coordinate coordinateMem
  obtain rfl := Except.ok.inj (found.symm.trans step)
  exact offered

/-- The wiring of a standard node can be translated, and the target accepts the rewired node. -/
theorem Awaits.exists_wiring (awaits : Awaits before id node) (standard : node.Standard) :
    ∃ wiring, List.Forall₂ (fun elements images => before.portMap.translate elements = .ok images)
        node.wiring wiring ∧
      ({ node with wiring } : Node).Standard ∧
      ∀ input ∈ ({ node with wiring } : Node).inputs, ∀ coordinate ∈ input.elements,
        before.target.Offers input.type coordinate := by
  obtain ⟨wiring, translated⟩ : ∃ wiring, node.wiring.mapM before.portMap.translate = .ok wiring := by
    rw [← standard.elements_inputs]
    refine exists_mapM_eq_ok fun elements mem => ?_
    obtain ⟨input, inputMem, rfl⟩ := List.mem_map.mp mem
    obtain ⟨images, found, _⟩ := awaits.exists_translation input inputMem
    exact ⟨images, found⟩
  have pointwise := mapM_eq_ok_iff.mp translated
  have sameLengths : wiring.map List.length = node.wiring.map List.length := by
    rw [← List.forall₂_eq_eq_eq, List.forall₂_map_left_iff, List.forall₂_map_right_iff]
    exact pointwise.flip.imp fun _ _ => length_of_translate
  have rewired : ({ node with wiring } : Node).Made := Node.Made.rewire (.inl standard) sameLengths
  refine ⟨wiring, pointwise, rewired.standard standard.isSome_kind?, fun image imageMem => ?_⟩
  obtain ⟨input, inputMem, sameType, found⟩ :=
    exists_of_mem_right (Node.inputs_rewire pointwise) imageMem
  obtain ⟨images, translation, offered⟩ := awaits.exists_translation input inputMem
  obtain rfl := Except.ok.inj (translation.symm.trans found)
  exact sameType ▸ offered

/-- The port of the node can be mapped, whatever was added to the target before. -/
theorem Awaits.succeeds_mapOutput (awaits : Awaits before id node) {port : OutputPort}
    (single : node.outputs = [port]) {elements : Elements} (sized : elements.length = port.size)
    (target : Model) :
    Succeeds (mapOutput 0 elements) { before with target } ()
      { before with
        target
        portMap := ⟨before.portMap.entries ++ [(⟨id, 0⟩, elements)]⟩ } := by
  have isCurrent : ({ before with target } : Transformer).current =
      some ⟨id, node.outputs.map OutputPort.size⟩ := awaits.current
  exact Dataflow.succeeds_mapOutput isCurrent (by simp [single, sized]) awaits.unmapped

/-- The map after a node has been mapped keeps what was there, and sends the node to its
elements. -/
theorem Awaits.mapped (awaits : Awaits before id node) (elements : Elements) :
    PortMap.Extends ⟨before.portMap.entries ++ [(⟨id, 0⟩, elements)]⟩ before.portMap ∧
      (⟨before.portMap.entries ++ [(⟨id, 0⟩, elements)]⟩ : PortMap).get? ⟨id, 0⟩ =
        some elements := by
  refine ⟨PortMap.extends_append _ _ _, ?_⟩
  have unmapped : (⟨before.portMap.entries⟩ : PortMap).get? ⟨id, 0⟩ = none := awaits.unmapped
  simp [PortMap.get?_append, unmapped]

@[simp]
theorem length_elements (output : OutputRef) (count : Nat) :
    (output.elements count).length = count := by
  simp [OutputRef.elements]

/-- Copying adds the node under the next id, with translated wiring, and maps its port one to one. -/
theorem exists_copy (awaits : Awaits before id node) (standard : node.Standard) :
    ∃ port wiring target, node.outputs = [port] ∧
      List.Forall₂ (fun elements images => before.portMap.translate elements = .ok images)
        node.wiring wiring ∧
      target.WellFormed ∧ target.nextId = before.target.nextId + 1 ∧
      target.skeleton = before.target.skeleton ++ [(before.target.nextId, { node with wiring })] ∧
      Succeeds (copying node) before false
        { before with
          target
          portMap := ⟨before.portMap.entries ++
            [(⟨id, 0⟩, (⟨before.target.nextId, 0⟩ : OutputRef).elements port.size)]⟩ } := by
  obtain ⟨port, single⟩ := standard.outputs_eq
  obtain ⟨wiring, translated, rewired, offered⟩ := awaits.exists_wiring standard
  obtain ⟨target, added, wellFormed, nextId, skeleton⟩ :=
    exists_addNode before awaits.wellFormed rewired offered
  have mapped := awaits.succeeds_mapOutput single (length_elements ⟨before.target.nextId, 0⟩ _) target
  refine ⟨port, wiring, target, single, translated, wellFormed, nextId, skeleton, ?_⟩
  simp only [copying, copyNode, succeeds_bind_iff, succeeds_pure_iff]
  refine ⟨_, _, ⟨wiring, _, succeeds_translateAll translated, _, _, added, ⟨⟩, _, ?_, rfl, rfl⟩,
    trivial, rfl⟩
  simp only [single, List.map_cons, List.map_nil, mapOutputs, succeeds_bind_iff, succeeds_pure_iff]
  exact ⟨⟨⟩, _, mapped, trivial, rfl⟩

/-- Copying replaces a standard node. -/
theorem exists_copying (awaits : Awaits before id node) (standard : node.Standard) :
    ∃ after, Succeeds (copying node) before false after ∧ Replaced before id node after := by
  obtain ⟨port, wiring, target, single, translated, wellFormed, _, skeleton, copied⟩ :=
    exists_copy awaits standard
  obtain ⟨extends_, found⟩ :=
    awaits.mapped ((⟨before.target.nextId, 0⟩ : OutputRef).elements port.size)
  exact ⟨_, copied, rfl, wellFormed, ⟨_, rfl⟩, _, skeleton,
    .copy (translated.imp fun _ _ => extends_.translate) single found⟩

/-- A refinement adds the constant and the node that reads it and the translated input. -/
theorem exists_refineWithConstant (awaits : Awaits before id node) {port : OutputPort}
    (single : node.outputs = [port]) {type : RealType} {values : Array type.Carrier}
    (sized : values.size = port.size) {input images : Elements}
    (translated : before.portMap.translate input = .ok images)
    (offered : ∀ image ∈ images, before.target.Offers type image)
    (combine : Elements → Elements → Except NodeError Node) {result : Node}
    (combined : combine ((⟨before.target.nextId, 0⟩ : OutputRef).elements values.size) images =
      .ok result)
    (standard : result.Standard)
    (reads : ∀ port ∈ result.inputs, port.type = type ∧ (port.elements = images ∨
      port.elements = (⟨before.target.nextId, 0⟩ : OutputRef).elements values.size)) :
    ∃ resultId target, target.WellFormed ∧
      target.skeleton = before.target.skeleton ++
        [(before.target.nextId, Node.constant (.ofReals type values)), (resultId, result)] ∧
      Succeeds (refineWithConstant type values input combine) before true
        { before with
          target
          portMap := ⟨before.portMap.entries ++
            [(⟨id, 0⟩, (⟨resultId, 0⟩ : OutputRef).elements values.size)]⟩ } := by
  obtain ⟨middle, addedConstant, middleWellFormed, _, middleSkeleton⟩ :=
    exists_addNode before awaits.wellFormed
      (standard_constant (.ofReals type values)) (by simp [Node.constant, Node.inputs,
        Operator.inputNames])
  have constantOffered : ∀ coordinate ∈
      (⟨before.target.nextId, 0⟩ : OutputRef).elements values.size,
      middle.Offers type coordinate := by
    intro coordinate mem
    obtain ⟨index, inside, rfl⟩ := List.mem_map.mp mem
    refine ⟨_, by rw [middleSkeleton]; exact List.mem_append_right _ (List.mem_singleton_self _),
      _, rfl, ?_, Buffer.type_ofReals _ _⟩
    have count : (Shape.vector (Buffer.ofReals type values).size).elementCount = values.size := by
      simp
    exact (List.mem_range.mp inside).trans_eq count.symm
  have stillOffered : ∀ port ∈ result.inputs, ∀ coordinate ∈ port.elements,
      middle.Offers port.type coordinate := by
    intro port mem coordinate coordinateMem
    obtain ⟨sameType, fromInput | fromConstant⟩ := reads port mem
    · refine sameType ▸ (offered coordinate (fromInput ▸ coordinateMem)).mono fun pair pairMem => ?_
      exact middleSkeleton ▸ List.mem_append_left _ pairMem
    · exact sameType ▸ constantOffered coordinate (fromConstant ▸ coordinateMem)
  obtain ⟨target, addedResult, wellFormed, _, skeleton⟩ :=
    exists_addNode { before with target := middle } middleWellFormed standard
      stillOffered
  refine ⟨middle.nextId, target, wellFormed, ?_, ?_⟩
  · rw [skeleton, middleSkeleton, List.append_assoc]
    rfl
  · simp only [refineWithConstant, succeeds_bind_iff, succeeds_pure_iff, succeeds_lift_iff, built,
      mapError_eq_ok_iff]
    refine ⟨images, _, succeeds_translate translated, _, _, addedConstant, result, _,
      ⟨combined, rfl⟩, _, _, addedResult, ⟨⟩, _, ?_, trivial, rfl⟩
    exact awaits.succeeds_mapOutput single ((length_elements _ _).trans sized) target

/-- A node that refines into arithmetic on a constant and its input is replaced. -/
theorem exists_refine (awaits : Awaits before id node) (standard : node.Standard) :
    ∃ changed after, Succeeds node.refine before changed after ∧
      if changed then Replaced before id node after else after = before := by
  have reads : ∀ {type : RealType} {op : BinaryOp} {size : Nat} {left right : Elements},
      ∀ port ∈ (⟨.arithmetic type op size, [left, right]⟩ : Node).inputs,
        port.type = type ∧ (port.elements = left ∨ port.elements = right) := by
    simp [Node.inputs, Operator.inputNames]
  cases standard with
  | coordinatewise type op values input same =>
      obtain ⟨images, translated, offered⟩ :=
        awaits.exists_translation ⟨"input", type, input⟩ (List.mem_singleton_self _)
      have sized : images.length = values.size := (length_of_translate translated).trans same
      have counted := length_elements ⟨before.target.nextId, 0⟩ values.size
      obtain ⟨resultId, target, wellFormed, skeleton, refined⟩ :=
        exists_refineWithConstant awaits rfl (size_vector _ _ _).symm translated offered
          (Node.arithmetic type op.binaryOp) (arithmetic_eq_ok_iff.mpr ⟨counted.trans sized.symm, rfl⟩)
          (.arithmetic type op.binaryOp _ _ (counted.trans sized.symm))
          (fun port mem => ⟨(reads port mem).1, (reads port mem).2.symm⟩)
      obtain ⟨extends_, found⟩ := awaits.mapped ((⟨resultId, 0⟩ : OutputRef).elements values.size)
      rw [counted] at skeleton
      exact ⟨true, _, refined, rfl, wellFormed, ⟨_, rfl⟩, _, skeleton,
        .coordinatewise (extends_.translate translated) found⟩
  | hamming type input =>
      obtain ⟨images, translated, offered⟩ :=
        awaits.exists_translation ⟨"input", type, input⟩ (List.mem_singleton_self _)
      have sized : images.length = input.length := length_of_translate translated
      have window := size_hammingWindow type input.length
      have balanced : images.length =
          ((⟨before.target.nextId, 0⟩ : OutputRef).elements (hammingWindow type input.length).size).length := by
        rw [length_elements, window, sized]
      obtain ⟨resultId, target, wellFormed, skeleton, refined⟩ :=
        exists_refineWithConstant awaits rfl (window.trans (size_vector _ _ _).symm) translated
          offered (fun constant input => Node.arithmetic type .multiply input constant)
          (arithmetic_eq_ok_iff.mpr ⟨balanced, rfl⟩) (.arithmetic type .multiply _ _ balanced)
          (fun port mem => ⟨(reads port mem).1, (reads port mem).2⟩)
      rw [window] at skeleton refined
      obtain ⟨extends_, found⟩ := awaits.mapped ((⟨resultId, 0⟩ : OutputRef).elements input.length)
      rw [sized] at skeleton
      exact ⟨true, _, refined, rfl, wellFormed, ⟨_, rfl⟩, _, skeleton,
        .hamming (extends_.translate translated) found⟩
  | _ => exact ⟨false, before, succeeds_pure_iff.mpr ⟨rfl, rfl⟩, rfl⟩

/-- The callback of a refinement replaces a standard node, by other nodes or by a copy. -/
theorem exists_refining (awaits : Awaits before id node) (standard : node.Standard) :
    ∃ changed after, Succeeds (refining node) before changed after ∧
      Replaced before id node after := by
  obtain ⟨copied, succeeds, replaced⟩ := exists_copying awaits standard
  obtain ⟨changed, after, refines, outcome⟩ := exists_refine awaits standard
  by_cases compilable : before.compilable node = true
  · refine ⟨false, copied, ?_, replaced⟩
    simp only [refining, succeeds_bind_iff, succeeds_get_iff]
    exact ⟨before, before, ⟨rfl, rfl⟩, by simpa [compilable] using succeeds⟩
  · cases changed with
    | true =>
        refine ⟨true, after, ?_, outcome⟩
        simp only [refining, succeeds_bind_iff, succeeds_get_iff]
        refine ⟨before, before, ⟨rfl, rfl⟩, ?_⟩
        simp only [compilable, Bool.not_false, if_true, succeeds_bind_iff]
        exact ⟨true, after, refines, by simp⟩
    | false =>
        obtain rfl : after = before := outcome
        refine ⟨false, copied, ?_, replaced⟩
        simp only [refining, succeeds_bind_iff, succeeds_get_iff]
        refine ⟨after, after, ⟨rfl, rfl⟩, ?_⟩
        simp only [compilable, Bool.not_false, if_true, succeeds_bind_iff]
        exact ⟨false, after, refines, by simpa using succeeds⟩

end Callbacks

/-! ## Passes -/

/-- A pass has replaced some nodes, one after the other, and has mapped their ports. -/
structure Replaces (nodes : List (NodeId × Node)) (map : PortMap) (target : Model) : Prop where
  wellFormed : target.WellFormed
  keys : map.entries.map Prod.fst = nodes.map fun pair => ⟨pair.1, 0⟩
  replaced : ∃ batches, target.skeleton = batches.flatten ∧
    List.Forall₂ (Substitutes map) nodes batches

theorem replaces_nil : Replaces [] .empty .empty :=
  ⟨Model.wellFormed_empty, rfl, [], by simp [Model.skeleton], .nil⟩

/-- What the replaced nodes offer is mapped to what the target offers. -/
theorem Replaces.exists_image {nodes : List (NodeId × Node)} {map : PortMap} {target : Model}
    (replaces : Replaces nodes map target) (standard : ∀ pair ∈ nodes, pair.2.Standard)
    {type : ScalarType} {coordinate : Coordinate} (offered : Offered nodes type coordinate) :
    ∃ image, map.translateCoordinate coordinate = .ok image ∧ target.Offers type image := by
  obtain ⟨node, mem, port, ported, inside, rfl⟩ := offered
  obtain ⟨batches, skeleton, pointwise⟩ := replaces.replaced
  obtain ⟨batch, batchMem, substitutes⟩ := exists_of_mem_left pointwise mem
  refine substitutes.exists_image (standard _ mem) (fun twin twinMem => ?_) rfl ported inside
  exact skeleton ▸ List.mem_flatten.mpr ⟨batch, batchMem, twinMem⟩

/-- A callback that replaces every standard node that it is called for. -/
def Replacing (callback : Node → Pass Bool) : Prop :=
  ∀ {before : Transformer} {id : NodeId} {node : Node}, Awaits before id node → node.Standard →
    ∃ changed after, Succeeds (callback node) before changed after ∧ Replaced before id node after

theorem replacing_copying : Replacing copying :=
  fun awaits standard => ⟨false, exists_copying awaits standard⟩

theorem replacing_refining : Replacing refining :=
  exists_refining

section Visits

variable {source : Model} {callback : Node → Pass Bool} {before after : Transformer} {changed : Bool}
  {done rest nodes : List (NodeId × Node)} {entry : Entry}

/-- A visit succeeds when the callback has mapped the port of the node. -/
theorem succeeds_visit (coherent : source.Coherent) (mem : entry ∈ source.entries) {port : OutputPort}
    (single : entry.node.outputs = [port])
    (called : Succeeds (callback entry.node)
      { before with current := some ⟨entry.id, entry.node.outputs.map OutputPort.size⟩ } changed after)
    (mapped : after.portMap.get? ⟨entry.id, 0⟩ ≠ none) :
    Succeeds (visit source callback entry.id) before changed { after with current := none } := by
  let current : CurrentNode := ⟨entry.id, entry.node.outputs.map OutputPort.size⟩
  have checked : Succeeds (checkMapped current) { after with current := none } ()
      { after with current := none } := by
    simp only [checkMapped, succeeds_bind_iff, succeeds_get_iff]
    refine ⟨_, _, ⟨rfl, rfl⟩, ?_⟩
    simp [current, single, mapped]
  simp only [visit, succeeds_bind_iff, succeeds_lift_iff, succeeds_modify_iff, succeeds_pure_iff]
  exact ⟨entry, before, ⟨coherent.entry_of_mem mem, rfl⟩, ⟨⟩, _, rfl, changed, after,
    called.tryCatch _, ⟨⟩, _, rfl, ⟨⟩, _, checked, rfl, rfl⟩

/-- Visiting a node whose inputs read replaced nodes replaces it too. -/
theorem exists_visit (coherent : source.Coherent) (replacing : Replacing callback)
    (replaces : Replaces done before.portMap before.target)
    (doneStandard : ∀ pair ∈ done, pair.2.Standard) (mem : entry ∈ source.entries)
    (standard : entry.node.Standard) (fresh : entry.id ∉ done.map Prod.fst)
    (reads : ∀ input ∈ entry.node.inputs, ∀ coordinate ∈ input.elements,
      Offered done input.type coordinate) :
    ∃ changed after, Succeeds (visit source callback entry.id) before changed after ∧
      Replaces (done ++ [(entry.id, entry.node)]) after.portMap after.target ∧
      after.compilable = before.compilable := by
  let current : CurrentNode := ⟨entry.id, entry.node.outputs.map OutputPort.size⟩
  have unmapped : before.portMap.get? ⟨entry.id, 0⟩ = none := by
    rw [PortMap.get?_eq_none_iff, replaces.keys]
    intro keyed
    obtain ⟨pair, pairMem, same⟩ := List.mem_map.mp keyed
    exact fresh (List.mem_map.mpr ⟨pair, pairMem, congrArg OutputRef.node same⟩)
  have awaits : Awaits { before with current := some current } entry.id entry.node :=
    ⟨replaces.wellFormed, rfl, unmapped, fun input inputMem coordinate coordinateMem =>
      replaces.exists_image doneStandard (reads input inputMem coordinate coordinateMem)⟩
  obtain ⟨changed, after, called, replaced⟩ := replacing awaits standard
  obtain ⟨elements, mapped⟩ := replaced.mapped
  obtain ⟨batch, grown, substitutes⟩ := replaced.replaced
  obtain ⟨batches, skeleton, pointwise⟩ := replaces.replaced
  obtain ⟨port, single⟩ := standard.outputs_eq
  have extends_ : after.portMap.Extends before.portMap :=
    mapped ▸ PortMap.extends_append before.portMap _ _
  have isMapped : after.portMap.get? ⟨entry.id, 0⟩ ≠ none := by
    rw [mapped, (awaits.mapped elements).2]
    simp
  refine ⟨changed, _, succeeds_visit coherent mem single called isMapped,
    ⟨replaced.wellFormed, ?_, batches ++ [batch], ?_, ?_⟩, replaced.compilable_eq⟩
  · rw [mapped, List.map_append, List.map_append]
    exact congrArg (· ++ _) replaces.keys
  · rw [List.flatten_append, ← skeleton, List.flatten_singleton]
    exact grown
  · refine List.rel_append (pointwise.imp fun _ _ => (·.mono extends_)) ?_
    exact .cons substitutes .nil

/-- Whenever a pass over some nodes comes to the next one, the visit succeeds and keeps an invariant
of the nodes that were visited. -/
def Visiting (source : Model) (callback : Node → Pass Bool) (nodes : List (NodeId × Node))
    (invariant : List (NodeId × Node) → Transformer → Prop) : Prop :=
  ∀ done pair rest, nodes = done ++ pair :: rest → ∀ before, invariant done before →
    ∃ changed after, Succeeds (visit source callback pair.1) before changed after ∧
      invariant (done ++ [pair]) after

/-- The induction is on the nodes that are left. -/
theorem Visiting.exists_visitAll {invariant : List (NodeId × Node) → Transformer → Prop}
    (visiting : Visiting source callback nodes invariant) (done rest : List (NodeId × Node))
    (split : nodes = done ++ rest) (before : Transformer) (count : Nat)
    (holds : invariant done before) :
    ∃ refined after, Succeeds (visitAll source callback (rest.map Prod.fst) count) before refined
        after ∧ invariant nodes after := by
  induction rest generalizing done before count with
  | nil => exact ⟨count, before, by simp [visitAll], by simpa [split] using holds⟩
  | cons pair rest ih =>
      obtain ⟨changed, middle, visited, kept⟩ := visiting done pair rest split before holds
      obtain ⟨refined, after, others, last⟩ := ih (done ++ [pair]) (by simp [split]) middle
        (if changed then count + 1 else count) kept
      refine ⟨refined, after, ?_, last⟩
      simp only [List.map_cons, visitAll, succeeds_bind_iff]
      exact ⟨changed, middle, visited, others⟩

/-- A pass starts with an empty target and an empty port map. -/
theorem Visiting.exists_transformNodes {invariant : List (NodeId × Node) → Transformer → Prop}
    (visiting : Visiting source callback nodes invariant) (before : Transformer)
    (starts : invariant [] { before with target := .empty, portMap := .empty }) :
    ∃ refined last, Succeeds (transformNodes source (nodes.map Prod.fst) callback) before
        (last.target, refined) { last with target := .empty } ∧ invariant nodes last := by
  obtain ⟨refined, last, visited, holds⟩ := visiting.exists_visitAll [] nodes rfl _ 0 starts
  refine ⟨refined, last, ?_, holds⟩
  simp only [transformNodes, succeeds_bind_iff, succeeds_modify_iff, succeeds_get_iff,
    succeeds_pure_iff]
  exact ⟨⟨⟩, _, rfl, refined, last, visited, _, _, ⟨rfl, rfl⟩, ⟨⟩, _, rfl, rfl, rfl⟩

/-- A node that a pass comes to was not visited before. -/
theorem not_mem_done {pair : NodeId × Node} (once : (nodes.map Prod.fst).Nodup)
    (split : nodes = done ++ pair :: rest) : pair.1 ∉ done.map Prod.fst := by
  rw [split, List.map_append, List.nodup_append] at once
  exact fun old => once.2.2 _ old _ List.mem_cons_self rfl

/-- A pass over nodes of a model that read only each other replaces all of them. -/
theorem exists_transformNodes (coherent : source.Coherent) (replacing : Replacing callback)
    (within : ∀ pair ∈ nodes, pair ∈ source.skeleton) (standard : ∀ pair ∈ nodes, pair.2.Standard)
    (once : (nodes.map Prod.fst).Nodup) (closed : Closed nodes) (before : Transformer) :
    ∃ target refined after,
      Succeeds (transformNodes source (nodes.map Prod.fst) callback) before (target, refined)
        after ∧
      Replaces nodes after.portMap target ∧ after.compilable = before.compilable := by
  have visiting : Visiting source callback nodes fun done transformer =>
      Replaces done transformer.portMap transformer.target ∧
        transformer.compilable = before.compilable := by
    intro done pair rest split middle ⟨replaces, sameCompilable⟩
    obtain ⟨entry, mem, rfl⟩ : ∃ entry ∈ source.entries, (entry.id, entry.node) = pair := by
      simpa [Model.skeleton] using within pair (by simp [split])
    obtain ⟨changed, after, visited, grown, still⟩ :=
      exists_visit coherent replacing replaces
        (fun pair mem => standard pair (split ▸ List.mem_append_left _ mem)) mem
        (standard (entry.id, entry.node) (by simp [split])) (not_mem_done once split)
        (closed done _ rest split)
    exact ⟨changed, after, visited, grown, still.trans sameCompilable⟩
  obtain ⟨refined, last, passed, replaces, sameCompilable⟩ :=
    visiting.exists_transformNodes before ⟨replaces_nil, rfl⟩
  exact ⟨last.target, refined, _, passed, replaces, sameCompilable⟩

end Visits

end Dataflow
