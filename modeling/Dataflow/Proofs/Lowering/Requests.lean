import Dataflow.Proofs.Graph.Verification
import Dataflow.Proofs.Lowering.Correctness

/-!
# Requests that are accepted

A model can be asked for lists of coordinates that exist and have one type in each list.  Exactly
for these it has a signature.  What it says about others names a coordinate that is at fault.
-/

namespace Dataflow

/-! ## Requests -/

namespace Model

/-- A coordinate is an element of a port of a type. -/
def Has (model : Model) (coordinate : Coordinate) (type : ScalarType) : Prop :=
  ∃ entry ∈ model.entries, entry.id = coordinate.node ∧
    ∃ port, entry.node.outputs[coordinate.port]? = some port ∧ coordinate.element < port.size ∧
      port.type = type

/-- What a model says about a coordinate that it does not have. -/
inductive Lacks (model : Model) (coordinate : Coordinate) : ModelError → Prop
  | node (absent : ∀ entry ∈ model.entries, entry.id ≠ coordinate.node) :
      model.Lacks coordinate (.unknownNode coordinate.node)
  | port {entry : Entry} (mem : entry ∈ model.entries) (found : entry.id = coordinate.node)
      (absent : entry.node.outputs[coordinate.port]? = none) :
      model.Lacks coordinate (.coordinateOutOfRange (coordinate.output.element 0))
  | element {entry : Entry} {port : OutputPort} (mem : entry ∈ model.entries)
      (found : entry.id = coordinate.node)
      (ported : entry.node.outputs[coordinate.port]? = some port)
      (outside : port.size ≤ coordinate.element) :
      model.Lacks coordinate (.coordinateOutOfRange coordinate)

/-- Every requested coordinate exists, and those of one list have one type. -/
def Requestable (model : Model) (requests : List Elements) : Prop :=
  ∀ elements ∈ requests, ∃ type, ∀ coordinate ∈ elements, model.Has coordinate type

/-- Why requests are refused: a coordinate does not exist, or its type is not that of the first one
in its list. -/
inductive Refuses (model : Model) (requests : List Elements) : CompileError → Prop
  | missing {elements : Elements} {coordinate : Coordinate} {error : ModelError}
      (requested : elements ∈ requests) (mem : coordinate ∈ elements)
      (lacks : model.Lacks coordinate error) : model.Refuses requests (.model error)
  | mixed {index : Nat} {first other : Coordinate} {rest : Elements} {type found : ScalarType}
      (requested : requests[index]? = some (first :: rest)) (mem : other ∈ rest)
      (expected : model.Has first type) (has : model.Has other found) (different : found ≠ type) :
      model.Refuses requests (.invalidOutput
        (s!"output {index} mixes " ++ type.name ++ " and " ++ found.name ++ " elements"))

end Model

section Requests

variable {model : Model} {coordinate : Coordinate}

theorem Model.WellFormed.has_unique (wellFormed : model.WellFormed) {type other : ScalarType}
    (has : model.Has coordinate type) (also : model.Has coordinate other) : type = other := by
  obtain ⟨entry, mem, found, port, ported, _, rfl⟩ := has
  obtain ⟨twin, twinMem, twinFound, twinPort, twinPorted, _, rfl⟩ := also
  obtain rfl := wellFormed.coherent.entry_unique mem twinMem (found.trans twinFound.symm)
  rw [Option.some.inj (ported.symm.trans twinPorted)]

/-- A model reads the elements of its ports. -/
theorem Model.WellFormed.exists_value_of_has (wellFormed : model.WellFormed) {type : ScalarType}
    (has : model.Has coordinate type) :
    ∃ values scalar, model.outputValues coordinate.output = .ok values ∧ values.type = type ∧
      model.value coordinate = .ok scalar ∧ scalar.type = type := by
  obtain ⟨entry, mem, found, port, ported, inside, rfl⟩ := has
  obtain ⟨values, stored, typed, sized⟩ :=
    exists_getElem?_right (wellFormed.buffered entry mem) ported
  have reads : model.outputValues coordinate.output = .ok values := by
    have entered : model.entry coordinate.node = .ok entry :=
      found ▸ wellFormed.coherent.entry_of_mem mem
    simp [outputValues, Coordinate.output, entered, stored]
  have below : coordinate.element < values.size := sized ▸ inside
  refine ⟨values, values.item coordinate.element, reads, typed,
    Model.value_eq_ok_iff.mpr ⟨values, reads, Buffer.get?_eq_item below⟩, ?_⟩
  exact (Buffer.type_item below).trans typed

theorem Model.WellFormed.lacks_of_outputValues (wellFormed : model.WellFormed) {error : ModelError}
    (failed : model.outputValues coordinate.output = .error error) : model.Lacks coordinate error := by
  simp only [outputValues, entry, Coordinate.output] at failed
  cases found : model.entry? coordinate.node with
  | none =>
      obtain rfl : ModelError.unknownNode coordinate.node = error := by
        simpa [found, bind, Except.bind] using failed
      refine .node fun entry mem same => ?_
      have present := wellFormed.coherent.entry?_eq_some_iff.mpr ⟨mem, same⟩
      simp [found] at present
  | some entry =>
      obtain ⟨mem, same⟩ := wellFormed.coherent.entry?_eq_some_iff.mp found
      cases stored : entry.outputs[coordinate.port]? with
      | some values => simp [found, stored, bind, Except.bind, pure, Except.pure] at failed
      | none =>
          obtain rfl : ModelError.coordinateOutOfRange (coordinate.output.element 0) = error := by
            simpa [Coordinate.output, found, stored, bind, Except.bind, throw, throwThe,
              MonadExceptOf.throw] using failed
          refine .port mem same ?_
          have length := (wellFormed.buffered entry mem).length_eq
          rw [List.getElem?_eq_none_iff] at stored ⊢
          exact length ▸ stored

/-- What a model does not read, it lacks. -/
theorem Model.WellFormed.lacks_of_value (wellFormed : model.WellFormed) {error : ModelError}
    (failed : model.value coordinate = .error error) : model.Lacks coordinate error := by
  rw [value] at failed
  cases read : model.outputValues coordinate.output with
  | error cause =>
      obtain rfl : cause = error := by simpa [read, bind, Except.bind] using failed
      exact wellFormed.lacks_of_outputValues read
  | ok values =>
      cases got : values.get? coordinate.element with
      | some scalar => simp [read, got, bind, Except.bind, pure, Except.pure] at failed
      | none =>
          obtain rfl : ModelError.coordinateOutOfRange coordinate = error := by
            simpa [read, got, bind, Except.bind, throw, throwThe, MonadExceptOf.throw] using failed
          obtain ⟨entry, mem, same, stored⟩ :=
            wellFormed.coherent.outputValues_eq_ok_iff.mp read
          obtain ⟨port, ported, _, sized⟩ :=
            exists_getElem?_left (wellFormed.buffered entry mem) stored
          refine .element mem same ported (Nat.le_of_not_lt fun inside => ?_)
          rw [Buffer.get?_eq_item (sized ▸ inside)] at got
          exact Option.some_ne_none _ got

theorem Model.WellFormed.has_of_value (wellFormed : model.WellFormed) {scalar : Scalar}
    (read : model.value coordinate = .ok scalar) : model.Has coordinate scalar.type := by
  obtain ⟨values, stored, got⟩ := Model.value_eq_ok_iff.mp read
  obtain ⟨entry, mem, same, found⟩ := wellFormed.coherent.outputValues_eq_ok_iff.mp stored
  obtain ⟨port, ported, typed, sized⟩ := exists_getElem?_left (wellFormed.buffered entry mem) found
  exact ⟨entry, mem, same, port, ported, sized ▸ Buffer.lt_size_of_get?_eq_some got,
    typed.symm.trans (Buffer.type_of_get?_eq_some got).symm⟩

theorem exists_of_forM_eq_error {α ε : Type} {check : α → Except ε Unit} {items : List α} {error : ε}
    (failed : items.forM check = .error error) : ∃ item ∈ items, check item = .error error := by
  induction items with
  | nil => simp [pure, Except.pure] at failed
  | cons item rest ih =>
      cases first : check item with
      | error cause =>
          obtain rfl : cause = error := by simpa [first, bind, Except.bind] using failed
          exact ⟨item, List.mem_cons_self, first⟩
      | ok _ =>
          obtain ⟨other, mem, refused⟩ := ih (by simpa [first, bind, Except.bind] using failed)
          exact ⟨other, List.mem_cons_of_mem _ mem, refused⟩

theorem exists_of_mapM_eq_error {α β ε : Type} {check : α → Except ε β} {items : List α} {error : ε}
    (failed : items.mapM check = .error error) : ∃ item ∈ items, check item = .error error := by
  induction items with
  | nil => simp [pure, Except.pure] at failed
  | cons item rest ih =>
      cases first : check item with
      | error cause =>
          obtain rfl : cause = error := by simpa [first, bind, Except.bind] using failed
          exact ⟨item, List.mem_cons_self, first⟩
      | ok result =>
          cases others : rest.mapM check with
          | ok results => simp [first, others, bind, Except.bind, pure, Except.pure] at failed
          | error cause =>
              obtain rfl : cause = error := by simpa [first, others, bind, Except.bind] using failed
              obtain ⟨other, mem, refused⟩ := ih others
              exact ⟨other, List.mem_cons_of_mem _ mem, refused⟩

/-- A list of coordinates of one type becomes a parameter of that type. -/
theorem Model.WellFormed.exists_requestedParameter (wellFormed : model.WellFormed) {index : Nat}
    {elements : Elements} {type : ScalarType}
    (shares : ∀ coordinate ∈ elements, model.Has coordinate type) :
    ∃ parameter, requestedParameter model index elements = .ok parameter := by
  obtain ⟨first, typed, agrees⟩ : ∃ first, model.elementType elements = .ok first ∧
      ∀ coordinate ∈ elements, model.Has coordinate first := by
    cases elements with
    | nil => exact ⟨.f64, rfl, by simp⟩
    | cons coordinate rest =>
        obtain ⟨values, _, stored, rfl, _⟩ :=
          wellFormed.exists_value_of_has (shares coordinate List.mem_cons_self)
        exact ⟨values.type, by simp [elementType, stored], shares⟩
  have checked : checkElementTypes model index first elements = .ok () := by
    refine checkElementTypes_eq_ok_iff.mpr fun coordinate mem => ?_
    obtain ⟨_, scalar, _, _, read, same⟩ := wellFormed.exists_value_of_has (agrees coordinate mem)
    exact ⟨scalar, read, same⟩
  simp only [requestedParameter, bind_eq_ok_iff, mapError_eq_ok_iff, pure_eq_ok_iff]
  exact ⟨_, first, typed, (), checked, rfl⟩

/-- A coordinate fails the check of its type because it is missing or has another one. -/
theorem Model.WellFormed.fault_of_check (wellFormed : model.WellFormed) {index : Nat}
    {type : ScalarType} {error : CompileError}
    (failed : (do
      let value ← (model.value coordinate).mapError CompileError.model
      if value.type ≠ type then
        throw (.invalidOutput
          (s!"output {index} mixes " ++ type.name ++ " and " ++ value.type.name ++ " elements")) :
        Except CompileError Unit) = .error error) :
    (∃ cause, error = .model cause ∧ model.Lacks coordinate cause) ∨
      ∃ found, model.Has coordinate found ∧ found ≠ type ∧ error = .invalidOutput
        (s!"output {index} mixes " ++ type.name ++ " and " ++ found.name ++ " elements") := by
  cases read : model.value coordinate with
  | error cause =>
      obtain rfl : CompileError.model cause = error := by
        simpa [read, Except.mapError, bind, Except.bind] using failed
      exact .inl ⟨cause, rfl, wellFormed.lacks_of_value read⟩
  | ok scalar =>
      by_cases same : scalar.type = type
      · simp [read, same, Except.mapError, bind, Except.bind, pure, Except.pure] at failed
      · refine .inr ⟨scalar.type, wellFormed.has_of_value read, same, ?_⟩
        simpa [read, same, Except.mapError, bind, Except.bind, throw, throwThe,
          MonadExceptOf.throw, eq_comm] using failed

/-- What refuses one list of coordinates. -/
theorem Model.WellFormed.refuses_of_requestedParameter (wellFormed : model.WellFormed) {index : Nat}
    {elements : Elements} {requests : List Elements} {error : CompileError}
    (requested : requests[index]? = some elements)
    (failed : requestedParameter model index elements = .error error) :
    model.Refuses requests error := by
  have mem := List.mem_of_getElem? requested
  cases elements with
  | nil =>
      simp [requestedParameter, elementType, checkElementTypes, Except.mapError, bind, Except.bind,
        pure, Except.pure] at failed
  | cons first rest =>
      cases stored : model.outputValues first.output with
      | error cause =>
          obtain rfl : CompileError.model cause = error := by
            simpa [requestedParameter, elementType, stored, Except.mapError, bind, Except.bind]
              using failed
          exact .missing mem List.mem_cons_self (wellFormed.lacks_of_outputValues stored)
      | ok values =>
          have checks : checkElementTypes model index values.type (first :: rest) = .error error := by
            cases checked : checkElementTypes model index values.type (first :: rest) with
            | ok _ =>
                simp [requestedParameter, elementType, stored, checked, Except.mapError, bind,
                  Except.bind, pure, Except.pure] at failed
            | error cause =>
                simpa [requestedParameter, elementType, stored, checked, Except.mapError, bind,
                  Except.bind, pure, Except.pure] using failed
          cases read : model.value first with
          | error cause =>
              obtain rfl : CompileError.model cause = error := by
                simpa [checkElementTypes, read, Except.mapError, bind, Except.bind] using checks
              exact .missing mem List.mem_cons_self (wellFormed.lacks_of_value read)
          | ok scalar =>
              have expected : model.Has first values.type := by
                obtain ⟨others, found, got⟩ := Model.value_eq_ok_iff.mp read
                obtain rfl := Except.ok.inj (stored.symm.trans found)
                exact Buffer.type_of_get?_eq_some got ▸ wellFormed.has_of_value read
              obtain ⟨other, otherMem, refused⟩ := exists_of_forM_eq_error checks
              rcases wellFormed.fault_of_check refused with
                ⟨cause, rfl, lacks⟩ | ⟨found, has, different, rfl⟩
              · exact .missing mem otherMem lacks
              · rcases List.mem_cons.mp otherMem with rfl | later
                · exact absurd (wellFormed.has_unique has expected) different
                · exact .mixed requested later expected has different

/-- The parameters of the input nodes. -/
theorem exists_inputParameters (wellFormed : model.WellFormed) (standard : model.Standard) :
    ∃ inputs, model.inputNodes.mapM (inputParameter model) = .ok inputs := by
  refine exists_mapM_eq_ok fun id mem => ?_
  obtain ⟨entry, entryMem, rfl⟩ := List.mem_map.mp mem
  obtain ⟨present, _⟩ := List.mem_filter.mp entryMem
  obtain ⟨port, outputs⟩ := (standard entry present).outputs_eq
  refine ⟨(entry.id, ⟨s!"input_{entry.id}", port.type, port.size⟩), ?_⟩
  simp only [inputParameter, bind_eq_ok_iff, mapError_eq_ok_iff]
  exact ⟨entry, wellFormed.coherent.entry_of_mem present, by rw [outputs]; rfl⟩

/-- Only the requested outputs can keep a model of standard nodes from having a signature. -/
theorem Model.WellFormed.checkedSignature_eq (wellFormed : model.WellFormed) (options : CompilerOptions)
    (requests : List Elements) {inputs : List (NodeId × Parameter)}
    (parameters : model.inputNodes.mapM (inputParameter model) = .ok inputs) :
    model.checkedSignature options requests =
      (requests.zipIdx.mapM fun request => requestedParameter model request.2 request.1).map
        fun outputs => ⟨options.functionName, inputs, outputs⟩ := by
  rw [checkedSignature, Model.signature, wellFormed.verify, parameters]
  rfl

/-- The signature of a model can be made exactly for what can be requested. -/
theorem Model.WellFormed.exists_checkedSignature (wellFormed : model.WellFormed)
    (standard : model.Standard) (options : CompilerOptions) {requests : List Elements}
    (requestable : model.Requestable requests) :
    ∃ signature, model.checkedSignature options requests = .ok signature := by
  obtain ⟨inputs, parameters⟩ := exists_inputParameters wellFormed standard
  obtain ⟨outputs, requested⟩ : ∃ outputs, (requests.zipIdx.mapM fun request =>
      requestedParameter model request.2 request.1) = .ok outputs := by
    refine exists_mapM_eq_ok fun request mem => ?_
    obtain ⟨type, shares⟩ := requestable request.1
      (List.mem_of_getElem? (List.mem_zipIdx_iff_getElem?.mp mem))
    exact wellFormed.exists_requestedParameter shares
  rw [wellFormed.checkedSignature_eq options requests parameters, requested]
  exact ⟨_, rfl⟩

theorem Model.WellFormed.refuses_of_checkedSignature (wellFormed : model.WellFormed)
    (standard : model.Standard) {options : CompilerOptions} {requests : List Elements}
    {error : CompileError} (failed : model.checkedSignature options requests = .error error) :
    model.Refuses requests error := by
  obtain ⟨inputs, parameters⟩ := exists_inputParameters wellFormed standard
  rw [wellFormed.checkedSignature_eq options requests parameters] at failed
  cases requested : (requests.zipIdx.mapM fun request =>
      requestedParameter model request.2 request.1) with
  | ok outputs => simp [requested, Except.map] at failed
  | error cause =>
      obtain rfl : cause = error := by simpa [requested, Except.map] using failed
      obtain ⟨⟨elements, index⟩, mem, refused⟩ := exists_of_mapM_eq_error requested
      exact wellFormed.refuses_of_requestedParameter (List.mem_zipIdx_iff_getElem?.mp mem) refused

theorem Signature.Describes.requestable (wellFormed : model.WellFormed) {signature : Signature}
    {requests : List Elements} (describes : signature.Describes model requests) :
    model.Requestable requests := by
  intro elements mem
  obtain ⟨parameter, _, _, _, shares⟩ := exists_of_mem_right describes.outputs mem
  refine ⟨parameter.type, fun coordinate coordinateMem => ?_⟩
  obtain ⟨scalar, read, typed⟩ := shares coordinate coordinateMem
  exact typed ▸ wellFormed.has_of_value read

end Requests

end Dataflow
