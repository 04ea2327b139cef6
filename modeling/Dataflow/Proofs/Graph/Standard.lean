import Dataflow.Proofs.Graph.WellFormed
import Dataflow.Proofs.Scalar.Sameness

/-!
# Standard nodes

The builders of standard nodes make the wiring fit the operator.  A standard node has one
output port, and on inputs of the types and sizes of its ports its operator computes a
value that fits this port; only an input node computes nothing.
-/

namespace Dataflow

/-- The nodes that the builders of standard nodes make. -/
inductive Node.Standard : Node → Prop
  | input (type : ScalarType) (size : Nat) : Standard ⟨.input type size, []⟩
  | constant (values : Buffer) (shape : Shape) (fits : shape.elementCount = values.size) :
      Standard ⟨.constant values shape, []⟩
  | arithmetic (type : RealType) (op : BinaryOp) (left right : Elements)
      (same : left.length = right.length) :
      Standard ⟨.arithmetic type op left.length, [left, right]⟩
  | comparison (type : RealType) (predicate : Predicate) (left right : Elements)
      (same : left.length = right.length) :
      Standard ⟨.comparison type predicate left.length, [left, right]⟩
  | coordinatewise (type : RealType) (op : CoordinateOp) (values : Array type.Carrier)
      (input : Elements) (same : input.length = values.size) :
      Standard ⟨.coordinatewise type op values, [input]⟩
  | sum (type : RealType) (groups : List Elements) : Standard ⟨.sum type groups.length, groups⟩
  | concatenation (type : ScalarType) (shape : Shape) (input : Elements)
      (fits : shape.elementCount = input.length) :
      Standard ⟨.concatenation type shape, [input]⟩
  | hamming (type : RealType) (input : Elements) :
      Standard ⟨.hamming type input.length, [input]⟩
  | sink (type : ScalarType) (name : String) (notifies : Bool) (input trigger : Elements)
      (single : trigger.length = 1) :
      Standard ⟨.sink type name input.length notifies, [input, trigger]⟩

/-! ## Builders make standard nodes -/

section Builders

variable {node : Node}

/-- A builder that checks a length makes its node exactly when the length is right. -/
theorem checked_eq_ok_iff {what : String} {expected found : Nat} {made : Node} :
    (Node.checkLength what expected found >>= fun _ => pure made) = .ok node ↔
      expected = found ∧ made = node := by
  by_cases same : expected = found <;> simp [Node.checkLength, same]

theorem shapedConstant_eq_ok_iff {values : Buffer} {shape : Shape} :
    Node.shapedConstant values shape = .ok node ↔
      shape.elementCount = values.size ∧ ⟨.constant values shape, []⟩ = node :=
  checked_eq_ok_iff

theorem arithmetic_eq_ok_iff {type : RealType} {op : BinaryOp} {left right : Elements} :
    Node.arithmetic type op left right = .ok node ↔
      left.length = right.length ∧ ⟨.arithmetic type op left.length, [left, right]⟩ = node :=
  checked_eq_ok_iff

theorem comparison_eq_ok_iff {type : RealType} {predicate : Predicate} {left right : Elements} :
    Node.comparison type predicate left right = .ok node ↔
      left.length = right.length ∧
        ⟨.comparison type predicate left.length, [left, right]⟩ = node :=
  checked_eq_ok_iff

theorem coordinatewise_eq_ok_iff {type : RealType} {op : CoordinateOp}
    {values : Array type.Carrier} {input : Elements} :
    Node.coordinatewise type op values input = .ok node ↔
      input.length = values.size ∧ ⟨.coordinatewise type op values, [input]⟩ = node :=
  checked_eq_ok_iff

theorem shapedConcatenation_eq_ok_iff {type : ScalarType} {input : Elements} {shape : Shape} :
    Node.shapedConcatenation type input shape = .ok node ↔
      shape.elementCount = input.length ∧ ⟨.concatenation type shape, [input]⟩ = node :=
  checked_eq_ok_iff

theorem sink_eq_ok_iff {type : ScalarType} {name : String} {notifies : Bool}
    {input trigger : Elements} :
    Node.sink type name notifies input trigger = .ok node ↔
      1 = trigger.length ∧ ⟨.sink type name input.length notifies, [input, trigger]⟩ = node :=
  checked_eq_ok_iff

theorem standard_constant (values : Buffer) : (Node.constant values).Standard :=
  .constant values _ (Shape.elementCount_vector _)

theorem standard_concatenation (type : ScalarType) (input : Elements) :
    (Node.concatenation type input).Standard :=
  .concatenation type _ input (Shape.elementCount_vector _)

end Builders

/-! ## Ports of standard nodes -/

/-- A buffer has the type and the size of an input port. -/
def Buffer.Feeds (buffer : Buffer) (port : InputPort) : Prop :=
  buffer.type = port.type ∧ buffer.size = port.size

@[simp]
theorem inputs_sum (type : RealType) (groups : List Elements) :
    (⟨.sum type groups.length, groups⟩ : Node).inputs =
      groups.map fun elements => ⟨"input", type, elements⟩ := by
  simp only [Node.inputs, Operator.inputNames]
  induction groups with
  | nil => rfl
  | cons elements rest ih =>
      rw [List.length_cons, List.replicate_succ, List.zipWith_cons_cons, ih, List.map_cons]

/-- A standard node has one output port. -/
theorem Node.Standard.outputs_eq {node : Node} (standard : node.Standard) :
    ∃ port, node.outputs = [port] := by
  cases standard <;> exact ⟨_, rfl⟩

theorem Node.Standard.isSome_kind? {node : Node} (standard : node.Standard) :
    node.operator.kind?.isSome := by
  cases standard <;> rfl

theorem Node.Standard.elements_inputs {node : Node} (standard : node.Standard) :
    node.inputs.map InputPort.elements = node.wiring := by
  cases standard with
  | sum type groups => rw [inputs_sum, List.map_map]; exact List.map_id groups
  | _ => rfl

/-- Standard nodes that take their values from outside are input nodes. -/
theorem Node.Standard.input_of_capabilities {node : Node} (standard : node.Standard)
    (input : node.capabilities.input = true) : ∃ type size, node = Node.input type size := by
  cases standard with
  | input type size => exact ⟨type, size, rfl⟩
  | _ => simp [Node.capabilities, Operator.capabilities, Capabilities.code,
      Capabilities.refineOnly] at input

/-! ## Reading inputs -/

section Reading

variable {inputs : List Buffer} {buffer : Buffer} {index : Nat}

theorem realInput_of_getElem? {type : RealType} (found : inputs[index]? = some buffer)
    (typed : buffer.type = type.toScalarType) :
    ∃ reals, realInput inputs type index = .ok reals ∧ buffer = .ofReals type reals := by
  have reals : ∃ reals, buffer.reals? type = some reals := by
    cases type <;> cases buffer <;> simp_all [Buffer.type, Buffer.reals?, RealType.toScalarType]
  obtain ⟨reals, read⟩ := reals
  exact ⟨reals, by simp [realInput, inputValues, found, read],
    Buffer.reals?_eq_some_iff.mp read⟩

theorem realInput_eq_ok_iff {type : RealType} {reals : Array type.Carrier} :
    realInput inputs type index = .ok reals ↔ inputs[index]? = some (.ofReals type reals) := by
  simp only [realInput, inputValues, bind_eq_ok_iff]
  cases inputs[index]? with
  | none => simp
  | some values =>
      rw [Option.some.injEq, ← Buffer.reals?_eq_some_iff]
      cases read : values.reals? type <;> simp [read]

theorem inputValues_eq_ok_iff : inputValues inputs index = .ok buffer ↔ inputs[index]? = some buffer := by
  unfold inputValues
  cases inputs[index]? <;> simp

theorem typedInput_eq_ok_iff {type : ScalarType} :
    typedInput inputs type index = .ok buffer ↔ inputs[index]? = some buffer ∧ buffer.type = type := by
  simp only [typedInput, bind_eq_ok_iff, inputValues_eq_ok_iff]
  constructor
  · rintro ⟨values, found, read⟩
    split at read
    · exact pure_eq_ok_iff.mp read ▸ ⟨found, ‹_›⟩
    · exact absurd read throw_ne_ok
  · rintro ⟨found, rfl⟩
    exact ⟨buffer, found, if_pos rfl⟩

theorem boolInput_eq_ok_iff {bools : Array Bool} :
    boolInput inputs index = .ok bools ↔ inputs[index]? = some (.bool bools) := by
  simp only [boolInput, bind_eq_ok_iff, inputValues_eq_ok_iff]
  constructor
  · rintro ⟨values, found, read⟩
    cases values <;> simp_all [Buffer.bools?]
  · exact fun found => ⟨_, found, rfl⟩

theorem typedInput_of_getElem? {type : ScalarType} (found : inputs[index]? = some buffer)
    (typed : buffer.type = type) : typedInput inputs type index = .ok buffer :=
  typedInput_eq_ok_iff.mpr ⟨found, typed⟩

theorem boolInput_of_getElem? (found : inputs[index]? = some buffer)
    (typed : buffer.type = .bool) :
    ∃ bools, boolInput inputs index = .ok bools ∧ buffer = .bool bools := by
  cases buffer with
  | f32 _ | f64 _ => simp [Buffer.type] at typed
  | bool bools => exact ⟨bools, by simp [boolInput, inputValues, found, Buffer.bools?], rfl⟩

end Reading

/-! ## Values of standard operators -/

@[simp]
theorem size_vector (name : String) (type : ScalarType) (size : Nat) :
    (OutputPort.vector name type size).size = size :=
  Shape.elementCount_vector size

@[simp]
theorem type_vector (name : String) (type : ScalarType) (size : Nat) :
    (OutputPort.vector name type size).type = type :=
  rfl

theorem fits_vector_ofReals {name : String} {type : RealType} {size : Nat}
    {values : Array type.Carrier} (sized : values.size = size) :
    (Buffer.ofReals type values).Fits (.vector name type size) := by
  refine ⟨Buffer.type_ofReals _ _, ?_⟩
  rw [Buffer.size_ofReals, size_vector, sized]

theorem size_hammingWindow (type : RealType) (size : Nat) :
    (hammingWindow type size).size = size := by
  unfold hammingWindow
  split <;> simp

/-- Two inputs of the same length as arrays of floats. -/
theorem realInputs_of_feeds (type : RealType) {inputs : List Buffer} {left right : InputPort}
    (feeds : List.Forall₂ Buffer.Feeds inputs [left, right]) (leftType : left.type = type.toScalarType)
    (rightType : right.type = type.toScalarType) :
    ∃ leftReals rightReals, realInput inputs type 0 = .ok leftReals ∧
      realInput inputs type 1 = .ok rightReals ∧
      leftReals.size = left.size ∧ rightReals.size = right.size ∧
      inputs = [.ofReals type leftReals, .ofReals type rightReals] := by
  obtain ⟨first, rest, firstFeeds, restFeeds, rfl⟩ := List.forall₂_cons_right_iff.mp feeds
  obtain ⟨second, last, secondFeeds, lastFeeds, rfl⟩ := List.forall₂_cons_right_iff.mp restFeeds
  obtain rfl := List.forall₂_nil_right_iff.mp lastFeeds
  have leftFound : [first, second][0]? = some first := rfl
  have rightFound : [first, second][1]? = some second := rfl
  obtain ⟨leftReals, leftRead, rfl⟩ := realInput_of_getElem? leftFound (firstFeeds.1.trans leftType)
  obtain ⟨rightReals, rightRead, rfl⟩ :=
    realInput_of_getElem? rightFound (secondFeeds.1.trans rightType)
  exact ⟨leftReals, rightReals, leftRead, rightRead,
    (Buffer.size_ofReals _ _).symm.trans firstFeeds.2,
    (Buffer.size_ofReals _ _).symm.trans secondFeeds.2, rfl⟩

/-- A single input as an array of floats. -/
theorem realInput_of_feeds (type : RealType) {inputs : List Buffer} {input : InputPort}
    (feeds : List.Forall₂ Buffer.Feeds inputs [input]) (typed : input.type = type.toScalarType) :
    ∃ reals, realInput inputs type 0 = .ok reals ∧ reals.size = input.size ∧
      inputs = [.ofReals type reals] := by
  obtain ⟨first, rest, firstFeeds, restFeeds, rfl⟩ := List.forall₂_cons_right_iff.mp feeds
  obtain rfl := List.forall₂_nil_right_iff.mp restFeeds
  have found : [first][0]? = some first := rfl
  obtain ⟨reals, read, rfl⟩ := realInput_of_getElem? found (firstFeeds.1.trans typed)
  exact ⟨reals, read, (Buffer.size_ofReals _ _).symm.trans firstFeeds.2, rfl⟩

/-- The inputs of a sum as arrays of floats. -/
theorem sums_of_feeds (type : RealType) {inputs : List Buffer} {groups : List Elements}
    (feeds : List.Forall₂ Buffer.Feeds inputs
      (groups.map fun elements => ⟨"input", type, elements⟩)) :
    ∃ sums, ((List.range groups.length).mapM fun group =>
        sumOf type <$> realInput inputs type group) = .ok sums ∧
      sums.length = groups.length := by
  have lengths : inputs.length = groups.length := by simpa using feeds.length_eq
  have summable : ∀ group ∈ List.range groups.length,
      ∃ total, (sumOf type <$> realInput inputs type group) = .ok total := by
    intro group mem
    have bound : group < inputs.length := lengths ▸ List.mem_range.mp mem
    have fed := feeds.get bound (by simpa [← lengths] using bound)
    have typed : inputs[group].type = type.toScalarType := by simpa [Buffer.Feeds] using fed.1
    obtain ⟨reals, read, _⟩ := realInput_of_getElem? (List.getElem?_eq_getElem bound) typed
    exact ⟨sumOf type reals, by simp [read]⟩
  obtain ⟨sums, summed⟩ := exists_mapM_eq_ok summable
  refine ⟨sums, summed, ?_⟩
  simpa using (mapM_eq_ok_iff.mp summed).length_eq.symm

/-- The value of an operator that computes something. -/
theorem exists_value_of_some {node : Node} {inputs : List Buffer} {values : Buffer}
    {port : OutputPort} (computed : node.operator.value inputs = .ok (some values))
    (inner : node.capabilities.input = false) (outputs : node.outputs = [port])
    (fits : values.Fits port) :
    ∃ result, node.operator.value inputs = .ok result ∧
      (node.capabilities.input = true ↔ result = none) ∧
      ∀ values ∈ result, ∀ port ∈ node.outputs, values.Fits port := by
  refine ⟨some values, computed, by simp [inner], ?_⟩
  rw [outputs]
  rintro _ ⟨⟩ _ mem
  exact List.mem_singleton.mp mem ▸ fits

/-- On inputs that feed its ports, a standard operator computes a value that fits its
output port; only an input node computes nothing. -/
theorem Node.Standard.exists_value {node : Node} (standard : node.Standard) {inputs : List Buffer}
    (feeds : List.Forall₂ Buffer.Feeds inputs node.inputs) :
    ∃ result, node.operator.value inputs = .ok result ∧
      (node.capabilities.input = true ↔ result = none) ∧
      ∀ values ∈ result, ∀ port ∈ node.outputs, values.Fits port := by
  cases standard with
  | input type size =>
      exact ⟨none, rfl, ⟨fun _ => rfl, fun _ => rfl⟩, fun _ mem => by simp at mem⟩
  | constant values shape fits => exact exists_value_of_some rfl rfl rfl ⟨rfl, fits.symm⟩
  | arithmetic type op left right same =>
      obtain ⟨leftReals, rightReals, leftRead, rightRead, leftSize, rightSize, _⟩ :=
        realInputs_of_feeds type feeds rfl rfl
      refine exists_value_of_some (by simp [Operator.value, leftRead, rightRead]; rfl) rfl rfl
        (fits_vector_ofReals ?_)
      simp [leftSize, rightSize, InputPort.size, same]
  | comparison type predicate left right same =>
      obtain ⟨leftReals, rightReals, leftRead, rightRead, leftSize, rightSize, _⟩ :=
        realInputs_of_feeds type feeds rfl rfl
      refine exists_value_of_some (by simp [Operator.value, leftRead, rightRead]; rfl) rfl rfl
        ⟨rfl, ?_⟩
      simp [Buffer.size, leftSize, rightSize, InputPort.size, same]
  | coordinatewise type op values input same =>
      obtain ⟨reals, read, sized, _⟩ := realInput_of_feeds type feeds rfl
      refine exists_value_of_some (by simp [Operator.value, read]; rfl) rfl rfl
        (fits_vector_ofReals ?_)
      simp [sized, InputPort.size, same]
  | sum type groups =>
      obtain ⟨sums, summed, sized⟩ := sums_of_feeds type (inputs_sum type groups ▸ feeds)
      refine exists_value_of_some (by simp [Operator.value, summed]; rfl) rfl rfl
        (fits_vector_ofReals ?_)
      simpa using sized
  | concatenation type shape input fits =>
      obtain ⟨first, rest, firstFeeds, restFeeds, rfl⟩ := List.forall₂_cons_right_iff.mp feeds
      have found : (first :: rest)[0]? = some first := rfl
      have read := typedInput_of_getElem? found firstFeeds.1
      exact exists_value_of_some (by simp [Operator.value, read]) rfl rfl
        ⟨firstFeeds.1, firstFeeds.2.trans fits.symm⟩
  | hamming type input =>
      obtain ⟨reals, read, sized, _⟩ := realInput_of_feeds type feeds rfl
      refine exists_value_of_some (by simp [Operator.value, read]; rfl) rfl rfl
        (fits_vector_ofReals ?_)
      simp [size_hammingWindow, sized, InputPort.size]
  | sink type name notifies input trigger single =>
      obtain ⟨first, rest, firstFeeds, restFeeds, rfl⟩ := List.forall₂_cons_right_iff.mp feeds
      obtain ⟨second, last, secondFeeds, _, rfl⟩ := List.forall₂_cons_right_iff.mp restFeeds
      have firstFound : (first :: second :: last)[0]? = some first := rfl
      have secondFound : (first :: second :: last)[1]? = some second := rfl
      have read := typedInput_of_getElem? firstFound firstFeeds.1
      obtain ⟨bools, boolRead, _⟩ := boolInput_of_getElem? secondFound secondFeeds.1
      exact exists_value_of_some (by simp [Operator.value, read, boolRead]) rfl rfl
        ⟨firstFeeds.1, firstFeeds.2.trans (size_vector _ _ _).symm⟩

end Dataflow
