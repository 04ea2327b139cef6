import Dataflow.Proofs.Graph.Preservation
import Dataflow.Proofs.Graph.Standard

/-!
# Computed models

Computing a model goes through its nodes in creation order.  Every node reads earlier
nodes only, so what it computes is not touched again: afterwards each node holds what its
operator makes of the final values of its inputs, and the input nodes hold what they held
before.  Such a model is settled.
-/

namespace Dataflow

namespace Buffer

/-- A buffer takes any scalar of its type. -/
theorem exists_push? {buffer : Buffer} {value : Scalar} (typed : value.type = buffer.type) :
    ∃ pushed, buffer.push? value = some pushed := by
  cases buffer <;> cases value <;> first | exact ⟨_, rfl⟩ | contradiction

theorem push?_eq_some_iff {buffer after : Buffer} {value : Scalar} :
    buffer.push? value = some after ↔
      value.type = buffer.type ∧ after.type = buffer.type ∧
        after.toList = buffer.toList ++ [value] := by
  have pushes : ∀ pushed, buffer.push? value = some pushed →
      value.type = buffer.type ∧ pushed.type = buffer.type ∧
        pushed.toList = buffer.toList ++ [value] := by
    intro pushed eq
    cases buffer <;> cases value <;> simp only [push?, reduceCtorEq, Option.some.injEq] at eq <;>
      subst eq <;> simp [Buffer.type, Scalar.type, toList]
  constructor
  · exact pushes after
  · rintro ⟨typed, afterType, elements⟩
    obtain ⟨pushed, eq⟩ := exists_push? typed
    obtain ⟨_, pushedType, pushedElements⟩ := pushes pushed eq
    rw [eq, ext_toList (pushedType.trans afterType.symm) (pushedElements.trans elements.symm)]

/-- Scalars of one type are the elements of a buffer. -/
theorem exists_toList_eq {type : ScalarType} {scalars : List Scalar}
    (typed : ∀ scalar ∈ scalars, scalar.type = type) :
    ∃ buffer : Buffer, buffer.type = type ∧ buffer.toList = scalars := by
  have extended : ∀ start : Buffer, start.type = type →
      ∃ buffer : Buffer, buffer.type = type ∧ buffer.toList = start.toList ++ scalars := by
    induction scalars with
    | nil => exact fun start startType => ⟨start, startType, (List.append_nil _).symm⟩
    | cons scalar rest ih =>
        intro start startType
        obtain ⟨pushed, eq⟩ :=
          exists_push? ((typed scalar List.mem_cons_self).trans startType.symm)
        obtain ⟨_, pushedType, elements⟩ := push?_eq_some_iff.mp eq
        obtain ⟨buffer, bufferType, all⟩ :=
          ih (fun other mem => typed other (List.mem_cons_of_mem _ mem)) pushed
            (pushedType.trans startType)
        exact ⟨buffer, bufferType, by simp [all, elements]⟩
  cases type with
  | f32 => exact extended (.f32 #[]) rfl
  | f64 => exact extended (.f64 #[]) rfl
  | bool => exact extended (.bool #[]) rfl

@[simp]
theorem toList_empty (type : ScalarType) : (empty type).toList = [] := by
  cases type <;> rfl

@[simp]
theorem type_empty (type : ScalarType) : (empty type).type = type := by
  cases type <;> rfl

end Buffer

namespace Model

variable {model : Model}

/-! ## Reading values -/

theorem Coherent.value_eq_ok_iff (coherent : model.Coherent) {coordinate : Coordinate}
    {scalar : Scalar} :
    model.value coordinate = .ok scalar ↔
      ∃ entry ∈ model.entries, entry.id = coordinate.node ∧
        ∃ buffer, entry.outputs[coordinate.port]? = some buffer ∧
          buffer.get? coordinate.element = some scalar := by
  simp only [value, outputValues, Coordinate.output, bind_eq_ok_iff, coherent.entry_eq_ok_iff]
  constructor
  · rintro ⟨buffer, ⟨entry, ⟨mem, same⟩, read⟩, got⟩
    refine ⟨entry, mem, same, buffer, ?_, ?_⟩
    · cases found : entry.outputs[coordinate.port]? <;> simp_all
    · cases found : buffer.get? coordinate.element <;> simp_all
  · rintro ⟨entry, mem, same, buffer, read, got⟩
    exact ⟨buffer, ⟨entry, ⟨mem, same⟩, by simp [read]⟩, by simp [got]⟩

/-- What a model provides has a value of the right type. -/
theorem WellFormed.exists_value (wellFormed : model.WellFormed) {id : NodeId} {type : ScalarType}
    {coordinate : Coordinate} (provides : model.Provides id type coordinate) :
    ∃ scalar, model.value coordinate = .ok scalar ∧ scalar.type = type := by
  obtain ⟨_, source, mem, same, port, ported, inside, rfl⟩ := provides
  have fits := wellFormed.buffered source mem
  obtain ⟨portBound, rfl⟩ := List.getElem?_eq_some_iff.mp ported
  have bufferBound : coordinate.port < source.outputs.length := fits.length_eq ▸ portBound
  obtain ⟨typed, sized⟩ := fits.get bufferBound portBound
  simp only [List.get_eq_getElem] at typed sized
  cases got : source.outputs[coordinate.port].get? coordinate.element with
  | none =>
      rw [Buffer.get?_eq_none_iff, sized] at got
      exact absurd inside (Nat.not_lt.mpr got)
  | some scalar =>
      exact ⟨scalar, wellFormed.coherent.value_eq_ok_iff.mpr
        ⟨source, mem, same, _, List.getElem?_eq_getElem bufferBound, got⟩,
        (Buffer.type_of_get?_eq_some got).trans typed⟩

theorem gatherOne_eq_ok_iff {type : ScalarType} {buffer after : Buffer} {coordinate : Coordinate} :
    model.gatherOne type buffer coordinate = .ok after ↔
      ∃ scalar, model.value coordinate = .ok scalar ∧ scalar.type = buffer.type ∧
        after.type = buffer.type ∧ after.toList = buffer.toList ++ [scalar] := by
  simp only [gatherOne, bind_eq_ok_iff]
  refine exists_congr fun scalar => and_congr_right fun _ => ?_
  rw [← Buffer.push?_eq_some_iff]
  cases buffer.push? scalar <;> simp

/-- Gathering gives a buffer of the type with the values of the elements. -/
theorem gather_eq_ok_iff {elements : Elements} {type : ScalarType} {values : Buffer} :
    model.gather elements type = .ok values ↔
      values.type = type ∧
        List.Forall₂ (fun coordinate scalar => model.value coordinate = .ok scalar) elements
          values.toList := by
  have gathered : ∀ (start : Buffer), start.type = type →
      (elements.foldlM (model.gatherOne type) start = .ok values ↔
        values.type = type ∧ ∃ read, values.toList = start.toList ++ read ∧
          List.Forall₂ (fun coordinate scalar => model.value coordinate = .ok scalar) elements
            read) := by
    induction elements with
    | nil =>
        intro start typed
        simp only [List.foldlM_nil, pure_eq_ok_iff, List.forall₂_nil_left_iff, exists_eq_right,
          List.append_nil]
        constructor
        · rintro rfl
          exact ⟨typed, rfl⟩
        · rintro ⟨valuesType, same⟩
          exact Buffer.ext_toList (typed.trans valuesType.symm) same.symm
    | cons coordinate rest ih =>
        intro start typed
        simp only [List.foldlM_cons, bind_eq_ok_iff, gatherOne_eq_ok_iff]
        constructor
        · rintro ⟨next, ⟨scalar, read, _, nextType, elements⟩, others⟩
          obtain ⟨valuesType, more, all, pointwise⟩ :=
            (ih next (nextType.trans typed)).mp others
          exact ⟨valuesType, scalar :: more, by simp [all, elements], .cons read pointwise⟩
        · rintro ⟨valuesType, read, all, pointwise⟩
          obtain ⟨scalar, more, first, others, rfl⟩ := List.forall₂_cons_left_iff.mp pointwise
          have scalarType : scalar.type = start.type := by
            rw [typed, ← valuesType]
            exact Buffer.type_of_mem_toList (by simp [all])
          obtain ⟨next, pushed⟩ := Buffer.exists_push? scalarType
          obtain ⟨_, nextType, elements⟩ := Buffer.push?_eq_some_iff.mp pushed
          refine ⟨next, ⟨scalar, first, scalarType, nextType, elements⟩, ?_⟩
          exact (ih next (nextType.trans typed)).mpr
            ⟨valuesType, more, by simp [all, elements], others⟩
  rw [gather, gathered (.empty type) (Buffer.type_empty type)]
  simp

/-- Elements whose values have a type can be gathered. -/
theorem exists_gather {elements : Elements} {type : ScalarType}
    (typed : ∀ coordinate ∈ elements, ∃ scalar, model.value coordinate = .ok scalar ∧
      scalar.type = type) :
    ∃ values, model.gather elements type = .ok values := by
  obtain ⟨scalars, read⟩ := exists_forall₂ typed
  have types : ∀ scalar ∈ scalars, scalar.type = type := by
    intro scalar mem
    obtain ⟨_, _, _, same⟩ := exists_of_mem_right read mem
    exact same
  obtain ⟨values, valuesType, rfl⟩ := Buffer.exists_toList_eq types
  exact ⟨values, gather_eq_ok_iff.mpr ⟨valuesType, read.imp fun _ _ both => both.1⟩⟩

/-- Gathering only depends on the values of the elements. -/
theorem gather_congr {other : Model} {elements : Elements} {type : ScalarType}
    (same : ∀ coordinate ∈ elements, other.value coordinate = model.value coordinate) :
    other.gather elements type = model.gather elements type := by
  simp only [gather]
  generalize Buffer.empty type = start
  induction elements generalizing start with
  | nil => rfl
  | cons coordinate rest ih =>
      have first : other.gatherOne type start coordinate = model.gatherOne type start coordinate := by
        simp only [gatherOne, same coordinate List.mem_cons_self]
      rw [List.foldlM_cons, List.foldlM_cons, first]
      exact congrArg _ (funext fun next => ih (fun c mem => same c (List.mem_cons_of_mem _ mem)) next)

/-! ## The inputs of a node -/

/-- The values of the inputs of a node. -/
def gatherInputs (model : Model) (node : Node) : Except ModelError (List Buffer) :=
  node.inputs.mapM fun input => model.gather input.elements input.type

theorem gatherInputs_congr {other : Model} {node : Node}
    (same : ∀ input ∈ node.inputs, ∀ coordinate ∈ input.elements,
      other.value coordinate = model.value coordinate) :
    other.gatherInputs node = model.gatherInputs node := by
  simp only [gatherInputs]
  generalize node.inputs = inputs at same
  induction inputs with
  | nil => rfl
  | cons input rest ih =>
      rw [List.mapM_cons, List.mapM_cons, gather_congr (same input List.mem_cons_self),
        ih fun next mem => same next (List.mem_cons_of_mem _ mem)]

theorem gatherInputs_eq_ok_iff {node : Node} {inputs : List Buffer} :
    model.gatherInputs node = .ok inputs ↔
      List.Forall₂ (fun input values => model.gather input.elements input.type = .ok values)
        node.inputs inputs :=
  mapM_eq_ok_iff

theorem feeds_of_gatherInputs {node : Node} {inputs : List Buffer}
    (gathered : model.gatherInputs node = .ok inputs) :
    List.Forall₂ Buffer.Feeds inputs node.inputs := by
  refine ((gatherInputs_eq_ok_iff.mp gathered).imp fun input values read => ?_).flip
  obtain ⟨typed, pointwise⟩ := gather_eq_ok_iff.mp read
  exact ⟨typed, by simpa [InputPort.size] using pointwise.length_eq.symm⟩

/-- The inputs of a node in a well-formed model can be gathered. -/
theorem WellFormed.exists_gatherInputs (wellFormed : model.WellFormed) {entry : Entry}
    (mem : entry ∈ model.entries) :
    ∃ inputs, model.gatherInputs entry.node = .ok inputs :=
  exists_mapM_eq_ok fun input inputMem =>
    exists_gather fun coordinate coordinateMem =>
      wellFormed.exists_value (wellFormed.provided entry mem input inputMem coordinate coordinateMem)

/-! ## Models that agree up to a node -/

/-- Two models have the same entries with ids below a bound. -/
def AgreeBelow (bound : NodeId) (model other : Model) : Prop :=
  ∀ entry : Entry, entry.id < bound → (entry ∈ other.entries ↔ entry ∈ model.entries)

section Agreement

variable {other : Model} {bound : NodeId}

theorem AgreeBelow.entry_eq (agree : AgreeBelow bound model other) (coherent : model.Coherent)
    (otherCoherent : other.Coherent) {id : NodeId} (below : id < bound) :
    other.entry id = model.entry id := by
  have found : ∀ entry, other.entry? id = some entry ↔ model.entry? id = some entry := by
    intro entry
    rw [coherent.entry?_eq_some_iff, otherCoherent.entry?_eq_some_iff]
    constructor
    · rintro ⟨mem, rfl⟩
      exact ⟨(agree entry below).mp mem, rfl⟩
    · rintro ⟨mem, rfl⟩
      exact ⟨(agree entry below).mpr mem, rfl⟩
  rw [Model.entry, Model.entry, Option.ext found]

theorem AgreeBelow.value_eq (agree : AgreeBelow bound model other) (coherent : model.Coherent)
    (otherCoherent : other.Coherent) {coordinate : Coordinate} (below : coordinate.node < bound) :
    other.value coordinate = model.value coordinate := by
  have same : other.entry coordinate.output.node = model.entry coordinate.output.node :=
    agree.entry_eq coherent otherCoherent below
  rw [value, value, outputValues, outputValues, same]

/-- Models that agree below a node have the same inputs for it. -/
theorem AgreeBelow.gatherInputs_eq (agree : AgreeBelow bound model other)
    (wellFormed : model.WellFormed) (otherCoherent : other.Coherent) {entry : Entry}
    (mem : entry ∈ model.entries) (upTo : entry.id ≤ bound) :
    other.gatherInputs entry.node = model.gatherInputs entry.node :=
  gatherInputs_congr fun input inputMem coordinate coordinateMem =>
    agree.value_eq wellFormed.coherent otherCoherent
      (Nat.lt_of_lt_of_le
        (wellFormed.provided entry mem input inputMem coordinate coordinateMem).1 upTo)

/-- Two models that start with the same entries agree below the entries that follow. -/
theorem agreeBelow_of_entries {done rest others : List Entry} (entries : model.entries = done ++ rest)
    (otherEntries : other.entries = done ++ others)
    (above : ∀ entry ∈ rest ++ others, bound ≤ entry.id) : AgreeBelow bound model other := by
  intro entry below
  have absent : entry ∉ rest ++ others :=
    fun mem => absurd below (Nat.not_lt.mpr (above entry mem))
  rw [List.mem_append, not_or] at absent
  simp [entries, otherEntries, absent.1, absent.2]

end Agreement

/-! ## Settled models -/

/-- All nodes of the model come from the builders of standard nodes. -/
def Standard (model : Model) : Prop :=
  ∀ entry ∈ model.entries, entry.node.Standard

/-- An entry holds what its operator makes of the values of its inputs. -/
def Solves (model : Model) (entry : Entry) : Prop :=
  ∃ inputs result, model.gatherInputs entry.node = .ok inputs ∧
    entry.node.operator.value inputs = .ok result ∧ ∀ values ∈ result, entry.outputs = [values]

/-- Every node of the model holds what its operator makes of the values of its inputs. -/
def Settled (model : Model) : Prop :=
  ∀ entry ∈ model.entries, model.Solves entry

/-- What a node hands to its callback for the values that its inputs have. -/
def deliveries (model : Model) (entry : Entry) : List Notice :=
  match model.gatherInputs entry.node with
  | .ok inputs => entry.node.operator.deliveries inputs
  | .error _ => []

/-- An entry after a computation: the node has new buffers, unless it is an input. -/
structure Refreshed (before after : Entry) : Prop where
  id_eq : after.id = before.id
  node_eq : after.node = before.node
  kept : before.node.capabilities.input = true → after.outputs = before.outputs

theorem Solves.of_gatherInputs_eq {other : Model} {entry : Entry} (solves : model.Solves entry)
    (same : other.gatherInputs entry.node = model.gatherInputs entry.node) :
    other.Solves entry := by
  obtain ⟨inputs, result, gathered, computed, holds⟩ := solves
  exact ⟨inputs, result, same.trans gathered, computed, holds⟩

/-- A standard node writes its value over its only buffer. -/
theorem evaluate_of_value {node : Node} (standard : node.Standard) {inputs outputs : List Buffer}
    (fits : List.Forall₂ Buffer.Fits outputs node.outputs) {result : Option Buffer}
    (computed : node.operator.value inputs = .ok result)
    (fitting : ∀ values ∈ result, ∀ port ∈ node.outputs, values.Fits port) :
    node.operator.evaluate inputs outputs =
      ⟨result.elim outputs fun values => [values], node.operator.deliveries inputs, .ok ()⟩ := by
  have plain : node.operator.evaluate inputs outputs =
      node.operator.evaluateStandard inputs outputs := by
    cases standard <;> rfl
  rw [plain, Operator.evaluateStandard, computed]
  cases result with
  | none => rfl
  | some values =>
      obtain ⟨port, single⟩ := standard.outputs_eq
      rw [single] at fits fitting
      obtain ⟨slot, rest, slotFits, restFits, rfl⟩ := List.forall₂_cons_right_iff.mp fits
      obtain rfl := List.forall₂_nil_right_iff.mp restFits
      have valuesFits := fitting values rfl port List.mem_cons_self
      simp [setOutput, slotFits.1, slotFits.2, valuesFits.1, valuesFits.2]

/-- Computing a standard node of a well-formed model does not fail. -/
theorem WellFormed.computeNode_eq (wellFormed : model.WellFormed) {entry : Entry}
    (mem : entry ∈ model.entries) (standard : entry.node.Standard) :
    ∃ inputs result, model.gatherInputs entry.node = .ok inputs ∧
      entry.node.operator.value inputs = .ok result ∧
      (entry.node.capabilities.input = true ↔ result = none) ∧
      model.computeNode entry.id =
        ⟨model.withOutputs entry.id (result.elim entry.outputs fun values => [values]),
          entry.node.operator.deliveries inputs, .ok ()⟩ := by
  obtain ⟨inputs, gathered⟩ := wellFormed.exists_gatherInputs mem
  obtain ⟨result, computed, isInput, fitting⟩ :=
    standard.exists_value (feeds_of_gatherInputs gathered)
  refine ⟨inputs, result, gathered, computed, isInput, ?_⟩
  have evaluated := evaluate_of_value standard (wellFormed.buffered entry mem) computed fitting
  rw [Model.computeNode, wellFormed.coherent.entry_of_mem mem]
  simp only [gatherInputs] at gathered
  simp only [gathered, evaluated]
  rfl

theorem Coherent.entries_withOutputs_append (coherent : model.Coherent) {done rest : List Entry}
    {entry : Entry} (entries : model.entries = done ++ entry :: rest) (nodup : model.ids.Nodup)
    (outputs : List Buffer) :
    (model.withOutputs entry.id outputs).entries = done ++ { entry with outputs } :: rest := by
  rw [ids, entries, List.map_append, List.map_cons, List.nodup_append, List.nodup_cons] at nodup
  obtain ⟨_, ⟨later, _⟩, earlier⟩ := nodup
  have unchanged : ∀ others : List Entry, (∀ other ∈ others, other.id ≠ entry.id) →
      others.map (fun other => if other.id = entry.id then { other with outputs } else other) =
        others :=
    fun others different =>
      (List.map_congr_left fun other mem => if_neg (different other mem)).trans (List.map_id _)
  rw [coherent.entries_withOutputs, entries, List.map_append, List.map_cons, if_pos rfl,
    unchanged done fun other mem =>
      earlier other.id (List.mem_map_of_mem mem) entry.id List.mem_cons_self,
    unchanged rest fun other mem same => later (same ▸ List.mem_map_of_mem mem)]

/-- The outcome of computing the rest of a model whose first nodes are done. -/
structure Finishes (model : Model) (done rest : List Entry) (computation : Computation) : Prop where
  succeeds : computation.result = .ok ()
  wellFormed : computation.model.WellFormed
  settled : computation.model.Settled
  entries : ∃ finished, computation.model.entries = done ++ finished ∧
    List.Forall₂ Refreshed rest finished ∧
    computation.notices = finished.flatMap computation.model.deliveries

/-- The induction is on the nodes that are left.  Computing the next one changes its own
buffers only, which neither it nor an earlier node reads. -/
theorem WellFormed.finishes (wellFormed : model.WellFormed) (standard : model.Standard)
    {done rest : List Entry} (entries : model.entries = done ++ rest)
    (solved : ∀ entry ∈ done, model.Solves entry) :
    Finishes model done rest (Model.computeNodes (rest.map Entry.id) model) := by
  induction rest generalizing model done with
  | nil =>
      refine ⟨rfl, wellFormed, fun entry mem => solved entry ?_, [], entries, .nil, rfl⟩
      simpa [Model.computeNodes, entries] using mem
  | cons entry rest ih =>
      have mem : entry ∈ model.entries := by simp [entries]
      obtain ⟨inputs, result, gathered, computed, isInput, computation⟩ :=
        wellFormed.computeNode_eq mem (standard entry mem)
      have nextWellFormed := (wellFormed.computeNode entry.id).1
      rw [computation] at nextWellFormed
      simp only at nextWellFormed
      generalize outputsEq : result.elim entry.outputs (fun values => [values]) = outputs at *
      have nextEntries : (model.withOutputs entry.id outputs).entries =
          (done ++ [{ entry with outputs }]) ++ rest := by
        rw [wellFormed.coherent.entries_withOutputs_append entries wellFormed.ids_nodup,
          List.append_assoc, List.singleton_append]
      have nextStandard : (model.withOutputs entry.id outputs).Standard := by
        intro other otherMem
        obtain ⟨old, oldMem, rfl⟩ := wellFormed.coherent.mem_entries_withOutputs.mp otherMem
        split <;> exact standard old oldMem
      have increasing := wellFormed.ids_increasing
      rw [ids, entries, List.map_append, List.map_cons, List.pairwise_append,
        List.pairwise_cons] at increasing
      obtain ⟨_, ⟨later, _⟩, earlier⟩ := increasing
      have above : ∀ other ∈ rest, entry.id ≤ other.id :=
        fun other otherMem => Nat.le_of_lt (later other.id (List.mem_map_of_mem otherMem))
      have same : ∀ {other : Model} {others : List Entry}, other.Coherent →
          other.entries = done ++ { entry with outputs } :: others →
          (∀ last ∈ others, entry.id ≤ last.id) → ∀ earlier ∈ model.entries,
            earlier.id ≤ entry.id →
            other.gatherInputs earlier.node = model.gatherInputs earlier.node := by
        intro other others coherent otherEntries othersAbove earlier earlierMem upTo
        refine (agreeBelow_of_entries entries otherEntries ?_).gatherInputs_eq wellFormed coherent
          earlierMem upTo
        simp only [List.cons_append, List.mem_cons, List.mem_append]
        rintro last (rfl | lastMem | rfl | lastMem)
        · exact Nat.le_refl _
        · exact above last lastMem
        · exact Nat.le_refl _
        · exact othersAbove last lastMem
      have nextSame := same nextWellFormed.coherent
        (wellFormed.coherent.entries_withOutputs_append entries wellFormed.ids_nodup outputs) above
      have nextSolved : ∀ other ∈ done ++ [{ entry with outputs }],
          (model.withOutputs entry.id outputs).Solves other := by
        intro other otherMem
        rcases List.mem_append.mp otherMem with old | new
        · refine (solved other old).of_gatherInputs_eq (nextSame other (by simp [entries, old]) ?_)
          exact Nat.le_of_lt (earlier other.id (List.mem_map_of_mem old) entry.id List.mem_cons_self)
        · obtain rfl := List.mem_singleton.mp new
          refine ⟨inputs, result, (nextSame entry mem (Nat.le_refl _)).trans gathered, computed, ?_⟩
          rintro values ⟨⟩
          exact outputsEq.symm
      have finished := ih nextWellFormed nextStandard nextEntries nextSolved
      obtain ⟨others, afterEntries, refreshed, notices⟩ := finished.entries
      rw [List.append_assoc, List.singleton_append] at afterEntries
      have unfolded : Model.computeNodes ((entry :: rest).map Entry.id) model =
          { Model.computeNodes (rest.map Entry.id) (model.withOutputs entry.id outputs) with
            notices := entry.node.operator.deliveries inputs ++
              (Model.computeNodes (rest.map Entry.id)
                (model.withOutputs entry.id outputs)).notices } := by
        rw [List.map_cons, Model.computeNodes, computation]
      rw [unfolded]
      refine ⟨finished.succeeds, finished.wellFormed, finished.settled,
        { entry with outputs } :: others, afterEntries, .cons ⟨rfl, rfl, ?_⟩ refreshed, ?_⟩
      · intro input
        simp [← outputsEq, isInput.mp input]
      · have othersAbove : ∀ last ∈ others, entry.id ≤ last.id := by
          intro last lastMem
          obtain ⟨old, oldMem, kept⟩ := exists_of_mem_right refreshed lastMem
          exact kept.id_eq ▸ above old oldMem
        have delivered := same finished.wellFormed.coherent afterEntries othersAbove entry mem
          (Nat.le_refl _)
        rw [List.flatMap_cons, notices, deliveries, delivered, gathered]

/-- Computing a well-formed model of standard nodes succeeds and settles it.  The input
nodes keep what they hold, and the sinks deliver in creation order. -/
theorem WellFormed.compute_standard (wellFormed : model.WellFormed) (standard : model.Standard) :
    model.compute.result = .ok () ∧ model.compute.model.WellFormed ∧
      model.compute.model.Settled ∧
      List.Forall₂ Refreshed model.entries model.compute.model.entries ∧
      model.compute.notices =
        model.compute.model.entries.flatMap model.compute.model.deliveries := by
  have finished : Finishes model [] model.entries model.compute :=
    wellFormed.finishes standard (List.nil_append _).symm (by simp)
  obtain ⟨entries, afterEntries, refreshed, notices⟩ := finished.entries
  rw [List.nil_append] at afterEntries
  exact ⟨finished.succeeds, finished.wellFormed, finished.settled, afterEntries ▸ refreshed,
    afterEntries ▸ notices⟩

end Model

end Dataflow
