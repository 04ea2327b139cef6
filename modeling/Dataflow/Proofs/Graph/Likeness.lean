import Dataflow.Proofs.Graph.Assigning

/-!
# Models that are alike

Two nodes are alike when they read the same and compute the same values from the same values.
Models of nodes that are alike, with the same buffers written to their inputs, hold the same values
everywhere.
-/

namespace Dataflow

/-! ## The same floats -/

section Floats

variable {type : RealType}

theorem same_ofReals_iff {left right : Array type.Carrier} :
    (Buffer.ofReals type left).Same (.ofReals type right) ↔
      List.Forall₂ type.Same left.toList right.toList := by
  have scalars : ∀ elements : Array type.Carrier,
      (Buffer.ofReals type elements).toList = elements.toList.map type.toScalar := by
    cases type <;> exact fun _ => rfl
  simp [Buffer.Same, scalars, Scalar.same_toScalar_iff]

theorem exists_ofReals_of_same {left : Array type.Carrier} {buffer : Buffer}
    (same : (Buffer.ofReals type left).Same buffer) :
    ∃ right, buffer = .ofReals type right ∧ List.Forall₂ type.Same left.toList right.toList := by
  have typed : buffer.type = type := same.1.symm.trans (Buffer.type_ofReals type left)
  obtain ⟨right, rfl⟩ : ∃ right, buffer = .ofReals type right := by
    cases type <;> cases buffer <;> first | exact ⟨_, rfl⟩ | cases typed
  exact ⟨right, rfl, same_ofReals_iff.mp same⟩

/-- Booleans are the same when they are equal. -/
theorem eq_bool_of_same {left : Array Bool} {buffer : Buffer} (same : (Buffer.bool left).Same buffer) :
    buffer = .bool left := by
  cases buffer with
  | f32 right | f64 right => cases same.1
  | bool right =>
      have pointwise := same.2
      simp only [Buffer.toList, List.forall₂_map_left_iff, List.forall₂_map_right_iff] at pointwise
      have equal : left.toList = right.toList := by
        rw [← List.forall₂_eq_eq_eq]
        apply pointwise.imp
        rintro first second ⟨⟩
        rfl
      rw [Array.toList_inj.mp equal]

theorem foldl_add_same {lefts rights : List type.Carrier}
    (same : List.Forall₂ type.Same lefts rights) {start other : type.Carrier}
    (started : type.Same start other) :
    type.Same (lefts.foldl (· + ·) start) (rights.foldl (· + ·) other) := by
  induction same generalizing start other with
  | nil => exact started
  | cons first _ ih => exact ih (BinaryOp.apply_same .add started first)

/-- Sums of the same floats are the same. -/
theorem sumOf_same {left right : Array type.Carrier}
    (same : List.Forall₂ type.Same left.toList right.toList) :
    type.Same (sumOf type left) (sumOf type right) := by
  simp only [sumOf, ← Array.foldl_toList]
  exact foldl_add_same same (RealType.Same.refl type.zero)

theorem forall₂_zipWith {α β γ α' β' γ' : Type} {first : α → α' → Prop} {second : β → β' → Prop}
    {result : γ → γ' → Prop} {combine : α → β → γ} {combine' : α' → β' → γ'}
    (combined : ∀ {left left' right right'}, first left left' → second right right' →
      result (combine left right) (combine' left' right'))
    {lefts : List α} {lefts' : List α'} {rights : List β} {rights' : List β'}
    (leftSame : List.Forall₂ first lefts lefts') (rightSame : List.Forall₂ second rights rights') :
    List.Forall₂ result (List.zipWith combine lefts rights)
      (List.zipWith combine' lefts' rights') := by
  induction leftSame generalizing rights rights' with
  | nil => exact .nil
  | cons left _ ih =>
      cases rightSame with
      | nil => exact .nil
      | cons right others => exact .cons (combined left right) (ih others)

end Floats

/-! ## Operators -/

section Operators

variable {inputs others : List Buffer} {index : Nat}

theorem realInput_same (same : List.Forall₂ Buffer.Same inputs others) {type : RealType}
    {reals : Array type.Carrier} (read : realInput inputs type index = .ok reals) :
    ∃ twins, realInput others type index = .ok twins ∧
      List.Forall₂ type.Same reals.toList twins.toList := by
  obtain ⟨buffer, found, sameBuffer⟩ :=
    exists_getElem?_left same (realInput_eq_ok_iff.mp read)
  obtain ⟨twins, rfl, pointwise⟩ := exists_ofReals_of_same sameBuffer
  exact ⟨twins, realInput_eq_ok_iff.mpr found, pointwise⟩

theorem typedInput_same (same : List.Forall₂ Buffer.Same inputs others) {type : ScalarType}
    {values : Buffer} (read : typedInput inputs type index = .ok values) :
    ∃ twins, typedInput others type index = .ok twins ∧ values.Same twins := by
  obtain ⟨found, typed⟩ := typedInput_eq_ok_iff.mp read
  obtain ⟨buffer, otherFound, sameBuffer⟩ := exists_getElem?_left same found
  exact ⟨buffer, typedInput_eq_ok_iff.mpr ⟨otherFound, sameBuffer.1.symm.trans typed⟩, sameBuffer⟩

theorem boolInput_same (same : List.Forall₂ Buffer.Same inputs others) {bools : Array Bool}
    (read : boolInput inputs index = .ok bools) : boolInput others index = .ok bools := by
  obtain ⟨buffer, found, sameBuffer⟩ := exists_getElem?_left same (boolInput_eq_ok_iff.mp read)
  exact boolInput_eq_ok_iff.mpr (eq_bool_of_same sameBuffer ▸ found)

theorem sums_same (same : List.Forall₂ Buffer.Same inputs others) {type : RealType} {groups : Nat}
    {sums : List type.Carrier}
    (summed : ((List.range groups).mapM fun group => sumOf type <$> realInput inputs type group) =
      .ok sums) :
    ∃ totals, ((List.range groups).mapM fun group => sumOf type <$> realInput others type group) =
        .ok totals ∧ List.Forall₂ type.Same sums totals := by
  have each := mapM_eq_ok_iff.mp summed
  have summable : ∀ group ∈ List.range groups,
      ∃ total, (sumOf type <$> realInput others type group) = .ok total := by
    intro group mem
    obtain ⟨_, _, read⟩ := exists_of_mem_left each mem
    obtain ⟨reals, read, _⟩ := map_eq_ok_iff.mp read
    obtain ⟨twins, twinsRead, _⟩ := realInput_same same read
    exact ⟨sumOf type twins, map_eq_ok_iff.mpr ⟨twins, twinsRead, rfl⟩⟩
  obtain ⟨totals, totalled⟩ := exists_mapM_eq_ok summable
  refine ⟨totals, totalled, ?_⟩
  apply (forall₂_trans each.flip (mapM_eq_ok_iff.mp totalled)).imp
  rintro sum total ⟨group, read, twinsRead⟩
  obtain ⟨reals, realsRead, rfl⟩ := map_eq_ok_iff.mp read
  obtain ⟨twins, otherRead, pointwise⟩ := realInput_same same realsRead
  obtain ⟨found, foundRead, rfl⟩ := map_eq_ok_iff.mp twinsRead
  obtain rfl := Except.ok.inj (otherRead.symm.trans foundRead)
  exact sumOf_same pointwise

/-- An operator computes the same values from the same values. -/
theorem Operator.value_same (operator : Operator) (same : List.Forall₂ Buffer.Same inputs others)
    {values : Buffer} (computed : operator.value inputs = .ok (some values)) :
    ∃ twins, operator.value others = .ok (some twins) ∧ values.Same twins := by
  cases operator with
  | input type size => simp [Operator.value] at computed
  | custom operator => simp [Operator.value] at computed
  | constant fixed shape =>
      obtain rfl : fixed = values := by simpa [Operator.value] using computed
      exact ⟨fixed, rfl, Buffer.Same.refl fixed⟩
  | arithmetic type op size =>
      simp only [Operator.value, bind_eq_ok_iff, pure_eq_ok_iff, Option.some.injEq] at computed
      obtain ⟨left, leftRead, right, rightRead, rfl⟩ := computed
      obtain ⟨lefts, leftsRead, leftSame⟩ := realInput_same same leftRead
      obtain ⟨rights, rightsRead, rightSame⟩ := realInput_same same rightRead
      refine ⟨.ofReals type (Array.zipWith op.apply lefts rights), ?_, ?_⟩
      · simp [Operator.value, leftsRead, rightsRead]
      · rw [same_ofReals_iff, Array.toList_zipWith, Array.toList_zipWith]
        exact forall₂_zipWith (BinaryOp.apply_same op) leftSame rightSame
  | comparison type predicate size =>
      simp only [Operator.value, bind_eq_ok_iff, pure_eq_ok_iff, Option.some.injEq] at computed
      obtain ⟨left, leftRead, right, rightRead, rfl⟩ := computed
      obtain ⟨lefts, leftsRead, leftSame⟩ := realInput_same same leftRead
      obtain ⟨rights, rightsRead, rightSame⟩ := realInput_same same rightRead
      have equal : Array.zipWith predicate.apply left right =
          Array.zipWith predicate.apply lefts rights := by
        apply Array.toList_inj.mp
        rw [Array.toList_zipWith, Array.toList_zipWith, ← List.forall₂_eq_eq_eq]
        exact forall₂_zipWith (Predicate.apply_same predicate) leftSame rightSame
      refine ⟨.bool (Array.zipWith predicate.apply lefts rights), ?_, ?_⟩
      · simp [Operator.value, leftsRead, rightsRead]
      · rw [equal]
  | coordinatewise type op fixed =>
      simp only [Operator.value, bind_eq_ok_iff, pure_eq_ok_iff, Option.some.injEq] at computed
      obtain ⟨input, read, rfl⟩ := computed
      obtain ⟨twins, twinsRead, inputSame⟩ := realInput_same same read
      refine ⟨.ofReals type (Array.zipWith op.binaryOp.apply fixed twins), ?_, ?_⟩
      · simp [Operator.value, twinsRead]
      · rw [same_ofReals_iff, Array.toList_zipWith, Array.toList_zipWith]
        exact forall₂_zipWith (BinaryOp.apply_same _)
          (List.forall₂_same.mpr fun value _ => RealType.Same.refl value) inputSame
  | sum type groups =>
      simp only [Operator.value, bind_eq_ok_iff, pure_eq_ok_iff, Option.some.injEq] at computed
      obtain ⟨sums, summed, rfl⟩ := computed
      obtain ⟨totals, totalled, sumsSame⟩ := sums_same same (by simpa using summed)
      refine ⟨.ofReals type totals.toArray, ?_, same_ofReals_iff.mpr sumsSame⟩
      simp [Operator.value, totalled]
  | concatenation type shape =>
      simp only [Operator.value, bind_eq_ok_iff, pure_eq_ok_iff, Option.some.injEq] at computed
      obtain ⟨input, read, rfl⟩ := computed
      obtain ⟨twins, twinsRead, inputSame⟩ := typedInput_same same read
      exact ⟨twins, by simp [Operator.value, twinsRead], inputSame⟩
  | hamming type size =>
      simp only [Operator.value, bind_eq_ok_iff, pure_eq_ok_iff, Option.some.injEq] at computed
      obtain ⟨input, read, rfl⟩ := computed
      obtain ⟨twins, twinsRead, inputSame⟩ := realInput_same same read
      have size : input.size = twins.size := by simpa using inputSame.length_eq
      refine ⟨.ofReals type (Array.zipWith (· * ·) twins (hammingWindow type twins.size)), ?_, ?_⟩
      · simp [Operator.value, twinsRead]
      · rw [same_ofReals_iff, Array.toList_zipWith, Array.toList_zipWith, size]
        exact forall₂_zipWith (BinaryOp.apply_same .multiply) inputSame
          (List.forall₂_same.mpr fun value _ => RealType.Same.refl value)
  | sink type name size notifies =>
      simp only [Operator.value, bind_eq_ok_iff, pure_eq_ok_iff, Option.some.injEq] at computed
      obtain ⟨input, read, bools, boolRead, rfl⟩ := computed
      obtain ⟨twins, twinsRead, inputSame⟩ := typedInput_same same read
      have boolsRead := boolInput_same same boolRead
      exact ⟨twins, by simp [Operator.value, twinsRead, boolsRead], inputSame⟩

end Operators

/-! ## Models -/

/-- Nodes that read the same elements and compute the same values from the same values. -/
structure Node.Alike (node twin : Node) : Prop where
  inputs_eq : twin.inputs = node.inputs
  input_eq : twin.capabilities.input = node.capabilities.input
  value_same : ∀ {inputs others : List Buffer} {values : Buffer},
    List.Forall₂ Buffer.Same inputs others → node.operator.value inputs = .ok (some values) →
      ∃ twins, twin.operator.value others = .ok (some twins) ∧ values.Same twins

theorem inputIds_of_alike {nodes twins : List (NodeId × Node)}
    (alike : List.Forall₂ (fun pair twin => twin.1 = pair.1 ∧ pair.2.Alike twin.2) nodes twins) :
    inputIds twins = inputIds nodes := by
  induction alike with
  | nil => rfl
  | cons own _ ih =>
      simp only [inputIds, List.filter_cons, own.2.input_eq] at ih ⊢
      split
      · rw [List.map_cons, List.map_cons, ih, own.1]
      · exact ih

namespace Model

variable {first second : Model}

/-- The values of a coordinate are the same. -/
def SameAt (first second : Model) (coordinate : Coordinate) : Prop :=
  ∀ scalar, first.value coordinate = .ok scalar →
    ∃ twin, second.value coordinate = .ok twin ∧ scalar.Same twin

theorem gather_same {elements : Elements} {type : ScalarType} {values : Buffer}
    (same : ∀ coordinate ∈ elements, first.SameAt second coordinate)
    (gathered : first.gather elements type = .ok values) :
    ∃ twins, second.gather elements type = .ok twins ∧ values.Same twins := by
  obtain ⟨typed, pointwise⟩ := gather_eq_ok_iff.mp gathered
  obtain ⟨twins, twinsGathered⟩ : ∃ twins, second.gather elements type = .ok twins := by
    apply exists_gather
    intro coordinate mem
    obtain ⟨scalar, scalarMem, read⟩ := exists_of_mem_left pointwise mem
    obtain ⟨twin, twinRead, sameTwin⟩ := same coordinate mem scalar read
    exact ⟨twin, twinRead, sameTwin.type_eq.symm.trans
      ((Buffer.type_of_mem_toList scalarMem).trans typed)⟩
  obtain ⟨twinsTyped, twinsPointwise⟩ := gather_eq_ok_iff.mp twinsGathered
  refine ⟨twins, twinsGathered, typed.trans twinsTyped.symm, ?_⟩
  have within := (List.forall₂_and_left elements _).mpr ⟨fun _ mem => mem, pointwise⟩
  apply (forall₂_trans within.flip twinsPointwise).imp
  rintro scalar twin ⟨coordinate, ⟨mem, read⟩, twinRead⟩
  obtain ⟨found, foundRead, sameFound⟩ := same coordinate mem scalar read
  obtain rfl := Except.ok.inj (foundRead.symm.trans twinRead)
  exact sameFound

theorem gatherInputs_same {node twin : Node} (inputs_eq : twin.inputs = node.inputs)
    (same : ∀ input ∈ node.inputs, ∀ coordinate ∈ input.elements, first.SameAt second coordinate)
    {inputs : List Buffer} (gathered : first.gatherInputs node = .ok inputs) :
    ∃ others, second.gatherInputs twin = .ok others ∧ List.Forall₂ Buffer.Same inputs others := by
  have pointwise := gatherInputs_eq_ok_iff.mp gathered
  simp only [gatherInputs_eq_ok_iff, inputs_eq]
  clear gathered inputs_eq
  generalize node.inputs = ports at same pointwise
  induction pointwise with
  | nil => exact ⟨[], .nil, .nil⟩
  | cons read _ ih =>
      obtain ⟨twins, twinsRead, sameTwins⟩ := gather_same (same _ List.mem_cons_self) read
      obtain ⟨others, othersRead, sameOthers⟩ :=
        ih fun input mem => same input (List.mem_cons_of_mem _ mem)
      exact ⟨twins :: others, .cons twinsRead othersRead, .cons sameTwins sameOthers⟩

/-- Two models of nodes that are alike, after computations from the same inputs. -/
structure Twins (first second : Model) : Prop where
  wellFormed : first.WellFormed
  settled : first.Settled
  standard : first.Standard
  twinWellFormed : second.WellFormed
  twinSettled : second.Settled
  twinStandard : second.Standard
  alike : List.Forall₂ (fun pair twin => twin.1 = pair.1 ∧ pair.2.Alike twin.2)
    first.skeleton second.skeleton
  inputs : ∀ id ∈ first.inputNodes, ∀ values, first.outputValues ⟨id, 0⟩ = .ok values →
    second.outputValues ⟨id, 0⟩ = .ok values

/-- Computations of models of nodes that are alike, from the same buffers. -/
theorem Assigned.twins {source target : Model} {values : List Buffer}
    (assigned : source.Assigned values first) (twinAssigned : target.Assigned values second)
    (standard : source.Standard) (twinStandard : target.Standard)
    (alike : List.Forall₂ (fun pair twin => twin.1 = pair.1 ∧ pair.2.Alike twin.2)
      source.skeleton target.skeleton) : Twins first second := by
  have sameInputs : target.inputNodes = source.inputNodes := by
    rw [← inputIds_skeleton, ← inputIds_skeleton, inputIds_of_alike alike]
  have inputNodes_eq : first.inputNodes = source.inputNodes := by
    rw [← inputIds_skeleton, ← inputIds_skeleton, assigned.skeleton_eq]
  refine ⟨assigned.wellFormed, assigned.settled, standard.of_skeleton_eq assigned.skeleton_eq,
    twinAssigned.wellFormed, twinAssigned.settled,
    twinStandard.of_skeleton_eq twinAssigned.skeleton_eq, ?_, ?_⟩
  · rw [assigned.skeleton_eq, twinAssigned.skeleton_eq]
    exact alike
  · intro id mem buffer read
    have twinInputs := twinAssigned.inputs
    rw [sameInputs] at twinInputs
    rw [inputNodes_eq] at mem
    obtain ⟨index, bound, rfl⟩ := List.getElem_of_mem mem
    have valuesBound : index < values.length := assigned.inputs.length_eq ▸ bound
    have own := assigned.inputs.get bound valuesBound
    obtain rfl : values[index] = buffer := Except.ok.inj (own.symm.trans read)
    exact twinInputs.get bound valuesBound

namespace Twins

theorem exists_twin (twins : Twins first second) {entry : Entry} (mem : entry ∈ first.entries) :
    ∃ twin ∈ second.entries, twin.id = entry.id ∧ entry.node.Alike twin.node := by
  have pairMem : (entry.id, entry.node) ∈ first.skeleton :=
    mem_skeleton_iff.mpr ⟨entry, mem, rfl, rfl⟩
  obtain ⟨⟨id, node⟩, twinMem, same, alike⟩ := exists_of_mem_left twins.alike pairMem
  obtain ⟨twin, listed, rfl, rfl⟩ := mem_skeleton_iff.mp twinMem
  exact ⟨twin, listed, same, alike⟩

/-- The elements of nodes with the same buffers have the same values. -/
theorem sameAt (twins : Twins first second) {entry twin : Entry} {coordinate : Coordinate}
    (mem : entry ∈ first.entries) (own : entry.id = coordinate.node) (twinMem : twin ∈ second.entries)
    (sameId : twin.id = entry.id) (outputs : List.Forall₂ Buffer.Same entry.outputs twin.outputs) :
    first.SameAt second coordinate := by
  intro scalar read
  obtain ⟨found, foundMem, foundId, buffer, ported, got⟩ :=
    twins.wellFormed.coherent.value_eq_ok_iff.mp read
  obtain rfl := twins.wellFormed.coherent.entry_unique foundMem mem (foundId.trans own.symm)
  obtain ⟨image, imagePorted, same⟩ := exists_getElem?_left outputs ported
  rw [← Buffer.getElem?_toList] at got
  obtain ⟨twinScalar, twinGot, sameScalar⟩ := exists_getElem?_left same.2 got
  rw [Buffer.getElem?_toList] at twinGot
  exact ⟨twinScalar, twins.twinWellFormed.coherent.value_eq_ok_iff.mpr
    ⟨twin, twinMem, sameId.trans own, image, imagePorted, twinGot⟩, sameScalar⟩

/-- The induction is on the id of the node: what it reads belongs to smaller ids. -/
theorem outputs_same (twins : Twins first second) {entry : Entry} (mem : entry ∈ first.entries) :
    ∃ twin ∈ second.entries, twin.id = entry.id ∧
      List.Forall₂ Buffer.Same entry.outputs twin.outputs := by
  obtain ⟨id, same⟩ : ∃ id, entry.id = id := ⟨_, rfl⟩
  induction id using Nat.strongRecOn generalizing entry with
  | ind id ih =>
      subst same
      obtain ⟨twin, twinMem, sameId, alike⟩ := twins.exists_twin mem
      refine ⟨twin, twinMem, sameId, ?_⟩
      have before : ∀ input ∈ entry.node.inputs, ∀ coordinate ∈ input.elements,
          first.SameAt second coordinate := by
        intro input inputMem coordinate coordinateMem scalar read
        obtain ⟨earlier, source, sourceMem, sourceId, _⟩ :=
          twins.wellFormed.provided entry mem input inputMem coordinate coordinateMem
        obtain ⟨image, imageMem, imageId, outputs⟩ := ih _ earlier sourceMem sourceId
        exact twins.sameAt sourceMem sourceId imageMem imageId outputs scalar read
      obtain ⟨inputs, gathered⟩ := twins.wellFormed.exists_gatherInputs mem
      obtain ⟨others, othersGathered, sameInputs⟩ := gatherInputs_same alike.inputs_eq before gathered
      obtain ⟨result, computed, isInput, _⟩ :=
        (twins.standard entry mem).exists_value (feeds_of_gatherInputs gathered)
      cases result with
      | none =>
          obtain ⟨values, holds⟩ := twins.wellFormed.exists_outputs_eq twins.standard mem
          obtain ⟨images, twinHolds⟩ :=
            twins.twinWellFormed.exists_outputs_eq twins.twinStandard twinMem
          have listed : entry.id ∈ first.inputNodes :=
            List.mem_map.mpr ⟨entry, List.mem_filter.mpr ⟨mem, isInput.mpr rfl⟩, rfl⟩
          have kept := twins.inputs entry.id listed values
            (twins.wellFormed.coherent.outputValues_of_mem mem holds)
          have read := twins.twinWellFormed.coherent.outputValues_of_mem twinMem twinHolds
          rw [sameId, kept] at read
          rw [holds, twinHolds, Except.ok.inj read]
          exact .cons (Buffer.Same.refl images) .nil
      | some values =>
          obtain ⟨images, twinComputed, sameImages⟩ := alike.value_same sameInputs computed
          rw [twins.settled.outputs_eq mem gathered computed,
            twins.twinSettled.outputs_eq twinMem othersGathered twinComputed]
          exact .cons sameImages .nil

/-- Nodes at the same place hold the same values. -/
theorem entries_same (twins : Twins first second) :
    List.Forall₂ (fun entry twin => twin.id = entry.id ∧
      List.Forall₂ Buffer.Same entry.outputs twin.outputs) first.entries second.entries := by
  have alike := twins.alike
  simp only [skeleton, List.forall₂_map_left_iff, List.forall₂_map_right_iff] at alike
  have listed := (List.forall₂_and_left first.entries _).mpr ⟨fun _ mem => mem, alike⟩
  have both := (List.forall₂_and_left second.entries _).mpr ⟨fun _ mem => mem, listed.flip⟩
  apply both.flip.imp
  rintro entry twin ⟨twinMem, mem, sameId, _⟩
  obtain ⟨found, foundMem, foundId, outputs⟩ := twins.outputs_same mem
  obtain rfl := twins.twinWellFormed.coherent.entry_unique foundMem twinMem
    (foundId.trans sameId.symm)
  exact ⟨sameId, outputs⟩

end Twins

end Model

end Dataflow
