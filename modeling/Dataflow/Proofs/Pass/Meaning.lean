import Dataflow.Proofs.Pass.Replacing

/-!
# What a pass keeps

When a model and the target of a pass are settled and their input nodes hold the same values,
then every element has the value of its image under the port map: a copy computes the same from
the same inputs, and a refinement combines its constant with the input just as the node that it
replaces.  The induction is on the nodes that were replaced, since what a node reads is replaced
before it.
-/

namespace Dataflow

namespace Model

variable {model : Model}

/-! ## Reading through a port map -/

/-- The value of a coordinate is the value of its image. -/
def ReflectsAt (map : PortMap) (source target : Model) (coordinate : Coordinate) : Prop :=
  ∀ scalar, source.value coordinate = .ok scalar →
    ∃ image, map.translateCoordinate coordinate = .ok image ∧ target.value image = .ok scalar

section Reading

variable {map : PortMap} {source target : Model} {elements images : Elements} {type : ScalarType}
  {node : Node}

theorem gather_of_reflects
    (reflects : ∀ coordinate ∈ elements, ReflectsAt map source target coordinate)
    (translated : map.translate elements = .ok images) {values : Buffer}
    (gathered : source.gather elements type = .ok values) :
    target.gather images type = .ok values := by
  obtain ⟨typed, pointwise⟩ := gather_eq_ok_iff.mp gathered
  refine gather_eq_ok_iff.mpr ⟨typed, ?_⟩
  have steps := PortMap.translate_eq_ok_iff.mp translated
  generalize values.toList = scalars at pointwise
  clear gathered translated typed
  induction steps generalizing scalars with
  | nil =>
      obtain rfl := List.forall₂_nil_left_iff.mp pointwise
      exact .nil
  | cons step _ ih =>
      obtain ⟨scalar, rest, value, others, rfl⟩ := List.forall₂_cons_left_iff.mp pointwise
      obtain ⟨image, found, read⟩ := reflects _ List.mem_cons_self scalar value
      obtain rfl := Except.ok.inj (found.symm.trans step)
      exact .cons read (ih (fun other mem => reflects other (List.mem_cons_of_mem _ mem)) rest others)

/-- A rewired node has the same inputs as the node it replaces. -/
theorem gatherInputs_of_reflects
    (reflects : ∀ input ∈ node.inputs, ∀ coordinate ∈ input.elements,
      ReflectsAt map source target coordinate) {wiring : List Elements}
    (translated : List.Forall₂ (fun elements images => map.translate elements = .ok images)
      node.wiring wiring) {inputs : List Buffer} (gathered : source.gatherInputs node = .ok inputs) :
    target.gatherInputs { node with wiring } = .ok inputs := by
  rw [gatherInputs_eq_ok_iff] at gathered ⊢
  have rewired := Node.inputs_rewire translated
  generalize ({ node with wiring } : Node).inputs = images at rewired ⊢
  generalize node.inputs = ports at reflects gathered rewired
  induction rewired generalizing inputs with
  | nil => exact List.forall₂_nil_left_iff.mp gathered ▸ .nil
  | cons step _ ih =>
      obtain ⟨values, rest, first, others, rfl⟩ := List.forall₂_cons_left_iff.mp gathered
      obtain ⟨sameType, translation⟩ := step
      refine .cons ?_ (ih (fun input mem => reflects input (List.mem_cons_of_mem _ mem)) others)
      rw [sameType]
      exact gather_of_reflects (reflects _ List.mem_cons_self) translation first

/-- The single input of a node, read as floats. -/
theorem realInput_of_gatherInputs {realType : RealType} {operator : Operator}
    (port : (⟨operator, [elements]⟩ : Node).inputs = [⟨"input", realType, elements⟩])
    {inputs : List Buffer}
    (gathered : source.gatherInputs ⟨operator, [elements]⟩ = .ok inputs) :
    ∃ reals, inputs = [.ofReals realType reals] ∧ reals.size = elements.length ∧
      source.gather elements realType = .ok (.ofReals realType reals) := by
  obtain ⟨reals, _, sized, rfl⟩ :=
    realInput_of_feeds realType (port ▸ feeds_of_gatherInputs gathered) rfl
  rw [gatherInputs_eq_ok_iff, port] at gathered
  exact ⟨reals, rfl, sized, (List.forall₂_cons.mp gathered).1⟩

end Reading

end Model

/-! ## One batch -/

section Batch

open Model

variable {map : PortMap} {source target : Model} {entry : Entry} {batch : List (NodeId × Node)}

theorem value_arithmetic (type : RealType) (op : BinaryOp) (size : Nat)
    (left right : Array type.Carrier) :
    (Operator.arithmetic type op size).value [.ofReals type left, .ofReals type right] =
      .ok (some (.ofReals type (Array.zipWith op.apply left right))) := by
  have leftRead : realInput [.ofReals type left, .ofReals type right] type 0 = .ok left :=
    realInput_eq_ok_iff.mpr rfl
  have rightRead : realInput [.ofReals type left, .ofReals type right] type 1 = .ok right :=
    realInput_eq_ok_iff.mpr rfl
  simp [Operator.value, leftRead, rightRead]

theorem value_coordinatewise (type : RealType) (op : CoordinateOp)
    (values input : Array type.Carrier) :
    (Operator.coordinatewise type op values).value [.ofReals type input] =
      .ok (some (.ofReals type (Array.zipWith op.binaryOp.apply values input))) := by
  have read : realInput [.ofReals type input] type 0 = .ok input := realInput_eq_ok_iff.mpr rfl
  simp [Operator.value, read]

theorem value_hamming (type : RealType) (size : Nat) (input : Array type.Carrier) :
    (Operator.hamming type size).value [.ofReals type input] =
      .ok (some (.ofReals type
        (Array.zipWith BinaryOp.multiply.apply input (hammingWindow type input.size)))) := by
  have read : realInput [.ofReals type input] type 0 = .ok input := realInput_eq_ok_iff.mpr rfl
  simp [Operator.value, read]
  rfl

/-- Arithmetic in a settled model, from the values of its two operands. -/
theorem Model.Settled.outputs_arithmetic (settled : target.Settled) (coherent : target.Coherent)
    {id : NodeId} {type : RealType} {op : BinaryOp} {size : Nat} {left right : Elements}
    {leftReals rightReals : Array type.Carrier}
    (mem : (id, ⟨.arithmetic type op size, [left, right]⟩) ∈ target.skeleton)
    (leftGathered : target.gather left type = .ok (.ofReals type leftReals))
    (rightGathered : target.gather right type = .ok (.ofReals type rightReals)) :
    target.outputValues ⟨id, 0⟩ =
      .ok (.ofReals type (Array.zipWith op.apply leftReals rightReals)) := by
  obtain ⟨entry, entryMem, rfl, node⟩ := mem_skeleton_iff.mp mem
  have gathered : target.gatherInputs entry.node =
      .ok [.ofReals type leftReals, .ofReals type rightReals] := by
    rw [node, gatherInputs_eq_ok_iff]
    exact .cons leftGathered (.cons rightGathered .nil)
  refine coherent.outputValues_of_mem entryMem (settled.outputs_eq entryMem gathered ?_)
  rw [node, value_arithmetic]

/-- A constant in a settled model holds its values. -/
theorem Model.Settled.outputs_constant (settled : target.Settled) (coherent : target.Coherent)
    {id : NodeId} {values : Buffer} (mem : (id, Node.constant values) ∈ target.skeleton) :
    target.outputValues ⟨id, 0⟩ = .ok values := by
  obtain ⟨entry, entryMem, rfl, node⟩ := mem_skeleton_iff.mp mem
  have gathered : target.gatherInputs entry.node = .ok [] := by
    rw [node, gatherInputs_eq_ok_iff]
    exact .nil
  exact coherent.outputValues_of_mem entryMem
    (settled.outputs_eq entryMem gathered (by rw [node]; rfl))

/-- The values of a port of floats, gathered as an operand. -/
theorem Model.gather_reals {type : RealType} {reals : Array type.Carrier} {port : OutputRef}
    (read : target.outputValues port = .ok (.ofReals type reals)) :
    target.gather (port.elements reals.size) type = .ok (.ofReals type reals) := by
  have gathered := gather_elements read
  rwa [Buffer.size_ofReals, Buffer.type_ofReals] at gathered

/-- The last node of a batch holds what the replaced node holds, if what that node reads is
reflected and, for an input, the copy holds the same values. -/
theorem Substitutes.exists_outputs (substitutes : Substitutes map (entry.id, entry.node) batch)
    (sourceWellFormed : source.WellFormed) (sourceSettled : source.Settled)
    (targetWellFormed : target.WellFormed) (targetSettled : target.Settled)
    (mem : entry ∈ source.entries) (standard : entry.node.Standard)
    (kept : ∀ twin ∈ batch, twin ∈ target.skeleton)
    (reflects : ∀ input ∈ entry.node.inputs, ∀ coordinate ∈ input.elements,
      source.ReflectsAt map target coordinate)
    (inputs : entry.node.capabilities.input = true → ∀ twin ∈ batch,
      target.outputValues ⟨twin.1, 0⟩ = source.outputValues ⟨entry.id, 0⟩) :
    ∃ image values, map.get? ⟨entry.id, 0⟩ = some ((⟨image, 0⟩ : OutputRef).elements values.size) ∧
      entry.outputs = [values] ∧ target.outputValues ⟨image, 0⟩ = .ok values := by
  obtain ⟨id, node, outputs⟩ := entry
  have coherent := targetWellFormed.coherent
  obtain ⟨read, gathered⟩ := sourceWellFormed.exists_gatherInputs mem
  simp only at standard reflects inputs gathered
  cases substitutes with
  | @copy _ image _ wiring port translated single mapped =>
      obtain ⟨twin, twinMem, rfl, twinNode⟩ :=
        mem_skeleton_iff.mp (kept _ (List.mem_singleton_self _))
      have fits := sourceWellFormed.buffered _ mem
      rw [single] at fits
      obtain ⟨values, rest, ⟨_, sized⟩, restFits, holds⟩ := List.forall₂_cons_right_iff.mp fits
      obtain rfl := List.forall₂_nil_right_iff.mp restFits
      refine ⟨twin.id, values, sized ▸ mapped, holds, ?_⟩
      obtain ⟨result, computed, isInput, _⟩ := standard.exists_value (feeds_of_gatherInputs gathered)
      cases result with
      | none =>
          rw [inputs (isInput.mpr rfl) _ (List.mem_singleton_self _)]
          exact sourceWellFormed.coherent.outputValues_of_mem mem holds
      | some computedValues =>
          obtain rfl : computedValues = values := by
            simpa using (sourceSettled.outputs_eq mem gathered computed).symm.trans holds
          have twinGathered : target.gatherInputs twin.node = .ok read :=
            twinNode ▸ gatherInputs_of_reflects reflects translated gathered
          exact coherent.outputValues_of_mem twinMem
            (targetSettled.outputs_eq twinMem twinGathered (twinNode ▸ computed))
  | @coordinatewise _ constant image type op values input images translated mapped =>
      obtain ⟨reals, rfl, sized, inputGathered⟩ := realInput_of_gatherInputs rfl gathered
      have same : input.length = values.size := by cases standard; assumption
      have constantHolds := targetSettled.outputs_constant coherent (kept _ List.mem_cons_self)
      have resultHolds := targetSettled.outputs_arithmetic coherent
        (kept _ (List.mem_cons_of_mem _ List.mem_cons_self)) (gather_reals constantHolds)
        (gather_of_reflects (reflects _ List.mem_cons_self) translated inputGathered)
      refine ⟨image, _, ?_, sourceSettled.outputs_eq mem gathered (value_coordinatewise ..),
        resultHolds⟩
      simpa [sized, same] using mapped
  | @hamming _ constant image type input images translated mapped =>
      obtain ⟨reals, rfl, sized, inputGathered⟩ := realInput_of_gatherInputs rfl gathered
      have window := size_hammingWindow type input.length
      have constantHolds := targetSettled.outputs_constant coherent (kept _ List.mem_cons_self)
      have operand := gather_reals constantHolds
      rw [window] at operand
      have resultHolds := targetSettled.outputs_arithmetic coherent
        (kept _ (List.mem_cons_of_mem _ List.mem_cons_self))
        (gather_of_reflects (reflects _ List.mem_cons_self) translated inputGathered) operand
      have holds := sourceSettled.outputs_eq mem gathered (value_hamming ..)
      rw [sized] at holds
      refine ⟨image, _, ?_, holds, resultHolds⟩
      simpa [sized, window] using mapped

/-- The elements of a node with one port are reflected by the port that stands for it. -/
theorem Model.Coherent.reflectsAt (sourceCoherent : source.Coherent) (mem : entry ∈ source.entries)
    {values : Buffer} (holds : entry.outputs = [values]) {image : NodeId}
    (mapped : map.get? ⟨entry.id, 0⟩ = some ((⟨image, 0⟩ : OutputRef).elements values.size))
    (imageHolds : target.outputValues ⟨image, 0⟩ = .ok values) {coordinate : Coordinate}
    (own : coordinate.node = entry.id) : source.ReflectsAt map target coordinate := by
  intro scalar read
  obtain ⟨found, foundMem, same, buffer, bufferRead, got⟩ := Model.Coherent.value_eq_ok_iff sourceCoherent |>.mp read
  obtain rfl := sourceCoherent.entry_unique foundMem mem (same.trans own)
  obtain ⟨node, port, element⟩ := coordinate
  simp only at own bufferRead got
  subst own
  rw [holds, List.getElem?_singleton] at bufferRead
  split at bufferRead
  · rename_i first
    subst first
    obtain rfl := Option.some.inj bufferRead
    refine ⟨⟨image, 0, element⟩, ?_, Model.value_eq_ok_iff.mpr ⟨values, imageHolds, got⟩⟩
    have inside := Buffer.lt_size_of_get?_eq_some got
    refine PortMap.translateCoordinate_eq_ok_iff.mpr ⟨_, mapped, ?_⟩
    simp [OutputRef.elements, OutputRef.element, inside]
  · contradiction

theorem Model.deliveries_eq_nil {model : Model} {entry : Entry}
    (quiet : ∀ inputs, entry.node.operator.deliveries inputs = []) : model.deliveries entry = [] := by
  unfold deliveries
  split
  · exact quiet _
  · rfl

/-- A batch delivers what the replaced node delivers. -/
theorem Substitutes.delivered_eq {pair : NodeId × Node} (substitutes : Substitutes map pair batch)
    (reflects : ∀ input ∈ pair.2.inputs, ∀ coordinate ∈ input.elements,
      source.ReflectsAt map target coordinate)
    {inputs : List Buffer} (gathered : source.gatherInputs pair.2 = .ok inputs) :
    target.delivered batch = source.delivered [pair] := by
  cases substitutes with
  | copy translated single mapped =>
      have twinGathered := gatherInputs_of_reflects reflects translated gathered
      simp [delivered, deliveries, twinGathered, gathered]
  | coordinatewise translated mapped =>
      rw [delivered, delivered, List.flatMap_cons, List.flatMap_singleton, List.flatMap_singleton,
        deliveries_eq_nil fun _ => rfl, deliveries_eq_nil fun _ => rfl, deliveries_eq_nil fun _ => rfl]
      rfl
  | hamming translated mapped =>
      rw [delivered, delivered, List.flatMap_cons, List.flatMap_singleton, List.flatMap_singleton,
        deliveries_eq_nil fun _ => rfl, deliveries_eq_nil fun _ => rfl, deliveries_eq_nil fun _ => rfl]
      rfl

end Batch

/-! ## Inputs -/

section Inputs

variable {map : PortMap} {pair : NodeId × Node} {batch : List (NodeId × Node)}
  {nodes : List (NodeId × Node)} {batches : List (List (NodeId × Node))}

/-- An input is replaced by one input, every other node by nodes that are no inputs. -/
theorem Substitutes.inputIds_eq (substitutes : Substitutes map pair batch) :
    (∃ twin, batch = [twin] ∧ pair.2.capabilities.input = true ∧ inputIds [pair] = [pair.1] ∧
        inputIds batch = [twin.1]) ∨
      pair.2.capabilities.input = false ∧ inputIds [pair] = [] ∧ inputIds batch = [] := by
  cases substitutes with
  | @copy id target node wiring port translated single mapped =>
      cases input : node.capabilities.input with
      | true =>
          have twinInput : ({ node with wiring } : Node).capabilities.input = true := input
          exact .inl ⟨_, rfl, rfl, by simp [inputIds, input], by simp [inputIds, twinInput]⟩
      | false =>
          have twinInput : ({ node with wiring } : Node).capabilities.input = false := input
          exact .inr ⟨rfl, by simp [inputIds, input], by simp [inputIds, twinInput]⟩
  | coordinatewise translated mapped => exact .inr ⟨rfl, rfl, rfl⟩
  | hamming translated mapped => exact .inr ⟨rfl, rfl, rfl⟩

/-- What relates the inputs of two lists of nodes relates the inputs of their batches. -/
theorem forall₂_of_inputIds {related : NodeId → NodeId → Prop}
    (pointwise : List.Forall₂ (Substitutes map) nodes batches)
    (inputs : List.Forall₂ related (inputIds nodes) (inputIds batches.flatten)) :
    List.Forall₂ (fun pair batch => Substitutes map pair batch ∧
      (pair.2.capabilities.input = true → ∀ twin ∈ batch, related pair.1 twin.1)) nodes batches := by
  induction pointwise with
  | nil => exact .nil
  | @cons pair batch nodes batches substitutes _ ih =>
      rw [← List.singleton_append, inputIds_append, List.flatten_cons, inputIds_append] at inputs
      rcases substitutes.inputIds_eq with ⟨twin, rfl, input, own, images⟩ | ⟨inner, own, images⟩
      · rw [own, images] at inputs
        obtain ⟨first, others⟩ := List.forall₂_cons.mp inputs
        refine .cons ⟨substitutes, fun _ other mem => ?_⟩ (ih others)
        exact List.mem_singleton.mp mem ▸ first
      · rw [own, images] at inputs
        exact .cons ⟨substitutes, fun input => by simp [inner] at input⟩ (ih inputs)

end Inputs

/-! ## All batches -/

section Pass

open Model

variable {map : PortMap} {built source target : Model} {nodes : List (NodeId × Node)}

/-- A model of replaced nodes and a model with the nodes of the target, whose inputs hold the
same values. -/
structure Replaces.Pairs (nodes : List (NodeId × Node)) (built source target : Model) : Prop where
  sourceWellFormed : source.WellFormed
  sourceSettled : source.Settled
  targetWellFormed : target.WellFormed
  targetSettled : target.Settled
  within : ∀ pair ∈ nodes, pair ∈ source.skeleton
  skeleton_eq : target.skeleton = built.skeleton
  inputs : List.Forall₂ (fun id image =>
      target.outputValues ⟨image, 0⟩ = source.outputValues ⟨id, 0⟩)
    (inputIds nodes) (inputIds built.skeleton)

/-- Every element of a replaced node has the value of its image. -/
theorem Replaces.reflects (replaces : Replaces nodes map built)
    (standard : ∀ pair ∈ nodes, pair.2.Standard) (closed : Closed nodes)
    (pairs : Pairs nodes built source target) {pair : NodeId × Node} (mem : pair ∈ nodes)
    {coordinate : Coordinate} (own : coordinate.node = pair.1) :
    source.ReflectsAt map target coordinate := by
  obtain ⟨batches, skeleton, pointwise⟩ := replaces.replaced
  have related := forall₂_of_inputIds pointwise (skeleton ▸ pairs.inputs)
  have before : ∀ left right, nodes = left ++ right → ∀ pair ∈ left, ∀ coordinate : Coordinate,
      coordinate.node = pair.1 → source.ReflectsAt map target coordinate := by
    intro left
    induction left using List.reverseRecOn with
    | nil => simp
    | append_singleton left last ih =>
        intro right split pair pairMem coordinate own
        rw [List.append_assoc, List.singleton_append] at split
        rcases List.mem_append.mp pairMem with earlier | isLast
        · exact ih (last :: right) split pair earlier coordinate own
        obtain rfl := List.mem_singleton.mp isLast
        have pairMem : pair ∈ nodes := split ▸ by simp
        obtain ⟨entry, entryMem, rfl⟩ : ∃ entry ∈ source.entries, (entry.id, entry.node) = pair := by
          simpa [Model.skeleton] using pairs.within pair pairMem
        obtain ⟨batch, batchMem, substitutes, inputs⟩ := exists_of_mem_left related pairMem
        obtain ⟨image, values, mapped, holds, imageHolds⟩ :=
          substitutes.exists_outputs pairs.sourceWellFormed pairs.sourceSettled
            pairs.targetWellFormed pairs.targetSettled entryMem (standard _ pairMem)
            (fun twin twinMem => by
              rw [pairs.skeleton_eq, skeleton]
              exact List.mem_flatten.mpr ⟨batch, batchMem, twinMem⟩)
            (fun input inputMem coordinate coordinateMem => by
              obtain ⟨node, nodeMem, _⟩ :=
                closed left _ right split input inputMem coordinate coordinateMem
              exact ih _ split _ nodeMem coordinate rfl)
            inputs
        exact pairs.sourceWellFormed.coherent.reflectsAt entryMem holds mapped imageHolds own
  exact before nodes [] (List.append_nil _).symm pair mem coordinate own

theorem delivered_flatten {batches : List (List (NodeId × Node))}
    (pointwise : List.Forall₂ (fun pair batch => target.delivered batch = source.delivered [pair])
      nodes batches) : target.delivered batches.flatten = source.delivered nodes := by
  induction pointwise with
  | nil => rfl
  | cons first _ ih =>
      rw [List.flatten_cons, ← List.singleton_append]
      simp only [delivered, List.flatMap_append] at first ih ⊢
      rw [first, ih]

/-- The target delivers what the replaced nodes deliver, in the same order. -/
theorem Replaces.delivered_eq (replaces : Replaces nodes map built)
    (standard : ∀ pair ∈ nodes, pair.2.Standard) (closed : Closed nodes)
    (pairs : Pairs nodes built source target) :
    target.delivered built.skeleton = source.delivered nodes := by
  obtain ⟨batches, skeleton, pointwise⟩ := replaces.replaced
  have each : ∀ pair ∈ nodes, ∀ batch, Substitutes map pair batch →
      target.delivered batch = source.delivered [pair] := by
    intro pair mem batch substitutes
    obtain ⟨left, right, split⟩ := List.append_of_mem mem
    obtain ⟨entry, entryMem, rfl⟩ : ∃ entry ∈ source.entries, (entry.id, entry.node) = pair := by
      simpa [Model.skeleton] using pairs.within pair mem
    obtain ⟨inputs, gathered⟩ := pairs.sourceWellFormed.exists_gatherInputs entryMem
    refine substitutes.delivered_eq (fun input inputMem coordinate coordinateMem => ?_) gathered
    obtain ⟨node, nodeMem, _⟩ := closed left _ right split input inputMem coordinate coordinateMem
    exact replaces.reflects standard closed pairs (split ▸ List.mem_append_left _ nodeMem) rfl
  rw [skeleton]
  refine delivered_flatten (((List.forall₂_and_left nodes batches).mpr
    ⟨fun _ mem => mem, pointwise⟩).imp fun pair batch step => ?_)
  exact each pair step.1 batch step.2

end Pass

end Dataflow
