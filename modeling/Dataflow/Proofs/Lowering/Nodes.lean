import Dataflow.Proofs.Lowering.Simulation

/-!
# Lowering nodes

Each kind of standard node that has code keeps the simulation up.  Floating point work gets an
array, in place or in a routine of its own; a constant is an array already; concatenations and
sinks are other names for their inputs; an input is a parameter.
-/

namespace Dataflow

section Lowering

variable {model : Model} {options : CompilerOptions} {before after : Builder × Lowering} {done : Unit}

theorem of_checkBound {id : NodeId} {node : Node}
    (emitted : Succeeds (checkBound id node) before done after) : after = before := by
  simp only [checkBound, succeeds_bind_iff, Lower.succeeds_scope_iff] at emitted
  obtain ⟨_, _, ⟨rfl, rfl⟩, rest⟩ := emitted
  split at rest
  · exact absurd rest not_succeeds_throw
  · exact (succeeds_pure_iff.mp rest).2

/-- Where the options let a node stand. -/
def Node.placement (options : CompilerOptions) (node : Node) : Placement :=
  if options.shouldInline node.capabilities.inline
      (node.outputs.foldl (fun total port => total + port.size) 0) then .inline
  else .subroutine

/-- A node is lowered where the options let it stand. -/
theorem placed_of_lowerNode {id : NodeId} {node : Node}
    (emitted : Succeeds (lowerNode options id node) before done after) :
    node.capabilities.compilable = true ∧
      match node.placement options with
      | .inline => Succeeds (node.operator.lower (.ofNode id node options .inline)) before () after
      | .subroutine => Succeeds (lowerSubroutine options id node) before () after := by
  rw [lowerNode] at emitted
  cases compilable : node.capabilities.compilable with
  | false => simp [compilable] at emitted
  | true =>
      refine ⟨rfl, ?_⟩
      simp only [compilable, Bool.not_true, Bool.false_eq_true, if_false] at emitted
      unfold Node.placement
      split at emitted
      all_goals
        rename_i placed
        simp only [succeeds_bind_iff] at emitted
        obtain ⟨_, _, lowered, checked⟩ := emitted
        obtain rfl := of_checkBound checked
        simpa only [placed, if_true, if_false, Bool.false_eq_true] using lowered

/-- A node is lowered in place or to a subroutine. -/
theorem of_lowerNode {id : NodeId} {node : Node}
    (emitted : Succeeds (lowerNode options id node) before done after) :
    node.capabilities.compilable = true ∧
      (Succeeds (node.operator.lower (.ofNode id node options .inline)) before () after ∨
        node.capabilities.inline ≠ .required ∧
          Succeeds (lowerSubroutine options id node) before () after) := by
  obtain ⟨compilable, lowered⟩ := placed_of_lowerNode emitted
  refine ⟨compilable, ?_⟩
  cases placed : node.placement options with
  | inline => exact .inl (by simpa only [placed] using lowered)
  | subroutine =>
      refine .inr ⟨fun required => ?_, by simpa only [placed] using lowered⟩
      simp [Node.placement, required, CompilerOptions.shouldInline] at placed

/-- A node that computes fills its output, wherever its code stands. -/
theorem Node.Standard.fills {id : NodeId} {node : Node} {placement : Placement} (standard : node.Standard)
    (compilable : node.capabilities.compilable = true)
    (separable : node.capabilities.inline ≠ .required)
    (emitted : Succeeds (node.operator.lower (.ofNode id node options placement)) before done after)
    (unbound : placement = .inline → before.2.scope.binding? ⟨id, 0⟩ = none) :
    (Site.ofNode id node options placement).Fills before after
      ((Site.ofNode id node options placement).Evaluates node) := by
  cases standard with
  | coordinatewise | hamming => exact absurd compilable Bool.false_ne_true
  | input | constant | concatenation | sink => exact absurd rfl separable
  | arithmetic type op left right same => exact Site.fills_of_arithmetic same emitted unbound
  | comparison type predicate left right same => exact Site.fills_of_comparison same emitted unbound
  | sum type groups => exact Site.fills_of_sum emitted unbound

/-- A node computes into its array wherever its code stands, if that code fills an output. -/
theorem computes_of_lowered {id : NodeId} {node : Node} {port : OutputPort}
    (outputs : node.outputs = [port])
    (earlier : ∀ input ∈ node.inputs, ∀ coordinate ∈ input.elements, coordinate.node ≠ id)
    (unbound : before.2.scope.binding? ⟨id, 0⟩ = none)
    (fills : ∀ {placement : Placement} {start finish : Builder × Lowering} {done : Unit},
      Succeeds (node.operator.lower (.ofNode id node options placement)) start done finish →
      (placement = .inline → start.2.scope.binding? ⟨id, 0⟩ = none) →
      (Site.ofNode id node options placement).Fills start finish
        ((Site.ofNode id node options placement).Evaluates node))
    (lowered : Succeeds (node.operator.lower (.ofNode id node options .inline)) before () after ∨
      node.capabilities.inline ≠ .required ∧
        Succeeds (lowerSubroutine options id node) before () after) :
    node.Computes id before after := by
  rcases lowered with inline | ⟨_, subroutine⟩
  · exact computes_of_fills (fills inline fun _ => unbound) earlier
  · exact computes_of_lowerSubroutine outputs (fun inner => fills inner (by simp)) subroutine

theorem Node.Standard.computes {id : NodeId} {node : Node} {port : OutputPort}
    (standard : node.Standard) (compilable : node.capabilities.compilable = true)
    (separable : node.capabilities.inline ≠ .required) (outputs : node.outputs = [port])
    (earlier : ∀ input ∈ node.inputs, ∀ coordinate ∈ input.elements, coordinate.node ≠ id)
    (unbound : before.2.scope.binding? ⟨id, 0⟩ = none)
    (lowered : Succeeds (node.operator.lower (.ofNode id node options .inline)) before () after ∨
      node.capabilities.inline ≠ .required ∧
        Succeeds (lowerSubroutine options id node) before () after) :
    node.Computes id before after :=
  computes_of_lowered outputs earlier unbound
    (fun emitted free => standard.fills compilable separable emitted free) lowered

/-- Lowering an entry carries the values on, makes the calls of its node and binds only its
ports. -/
structure Lowered (model : Model) (entry : Entry) (before after : Builder × Lowering) : Prop where
  transports : Transports model (model.calls entry) before after
  others : ∀ port : OutputRef, port.node ≠ entry.id →
    after.2.scope.binding? port = before.2.scope.binding? port

theorem Scope.binding?_bind_of_node_ne {scope : Scope} {id : NodeId} {binding : PortBinding}
    {port : OutputRef} (different : port.node ≠ id) :
    (scope.bind ⟨id, 0⟩ binding).binding? port = scope.binding? port :=
  binding?_bind_of_ne _ _ fun same => different (congrArg OutputRef.node same)

/-- A node that gets an array. -/
theorem lowered_of_computes {entry : Entry} (coherent : model.Coherent)
    (mem : entry ∈ model.entries) (solves : model.Solves entry) (standard : entry.node.Standard)
    (inner : entry.node.capabilities.input = false) (unambiguous : model.Unambiguous)
    (silent : ∀ inputs, entry.node.operator.calls inputs = [])
    (computes : entry.node.Computes entry.id before after) : Lowered model entry before after where
  transports := by
    have none : model.calls entry = [] := by
      rw [Model.calls]
      cases model.gatherInputs entry.node with
      | error _ => rfl
      | ok inputs => exact silent inputs
    exact none ▸ transports_of_computes coherent mem solves standard inner unambiguous computes
  others port different := by
    obtain ⟨_, _, _, scope, _⟩ := computes
    rw [scope]
    exact Scope.binding?_bind_of_node_ne different

theorem value_of_concatenation {type : ScalarType} {shape : Shape} {inputs : List Buffer}
    {values : Buffer}
    (computed : Operator.value inputs (.concatenation type shape) = .ok (some values)) :
    inputs[0]? = some values := by
  simp only [Operator.value, bind_eq_ok_iff, typedInput_eq_ok_iff, pure_eq_ok_iff,
    Option.some.injEq] at computed
  obtain ⟨_, ⟨found, _⟩, rfl⟩ := computed
  exact found

theorem value_of_sink {type : ScalarType} {name : String} {size : Nat} {notifies : Bool}
    {inputs : List Buffer} {values : Buffer}
    (computed : Operator.value inputs (.sink type name size notifies) = .ok (some values)) :
    inputs[0]? = some values ∧ ∃ bools, inputs[1]? = some (.bool bools) := by
  simp only [Operator.value, bind_eq_ok_iff, typedInput_eq_ok_iff, boolInput_eq_ok_iff,
    pure_eq_ok_iff, Option.some.injEq] at computed
  obtain ⟨_, ⟨found, _⟩, bools, read, rfl⟩ := computed
  exact ⟨found, bools, read⟩

/-- An input node has no code. -/
theorem of_input {id : NodeId} {type : ScalarType} {size : Nat} {wiring : List Elements}
    (emitted : Succeeds (Operator.lower (.ofNode id ⟨.input type size, wiring⟩ options .inline)
      (.input type size)) before done after) : after = before := by
  simp only [Operator.lower, Site.outputIsBound, Site.ofNode, succeeds_bind_iff,
    Lower.succeeds_scope_iff, succeeds_pure_iff] at emitted
  obtain ⟨_, _, ⟨_, _, ⟨rfl, rfl⟩, rfl, rfl⟩, rest⟩ := emitted
  split at rest
  · exact absurd rest not_succeeds_throw
  · exact (succeeds_pure_iff.mp rest).2

/-- Every standard node with code is lowered as it should be. -/
theorem lowered_of_lowerNode {entry : Entry} (wellFormed : model.WellFormed)
    (mem : entry ∈ model.entries) (solves : model.Solves entry) (standard : entry.node.Standard)
    (unambiguous : model.Unambiguous)
    (unbound : entry.node.capabilities.input = false →
      before.2.scope.binding? ⟨entry.id, 0⟩ = none)
    (emitted : Succeeds (lowerNode options entry.id entry.node) before done after) :
    Lowered model entry before after := by
  have coherent := wellFormed.coherent
  have earlier : ∀ input ∈ entry.node.inputs, ∀ coordinate ∈ input.elements,
      coordinate.node ≠ entry.id := fun input inputMem coordinate coordinateMem =>
    Nat.ne_of_lt (wellFormed.provided entry mem input inputMem coordinate coordinateMem).1
  obtain ⟨compilable, lowered⟩ := of_lowerNode emitted
  obtain ⟨id, node, outputs⟩ := entry
  simp only at earlier unbound lowered
  cases standard with
  | coordinatewise | hamming => exact absurd compilable Bool.false_ne_true
  | arithmetic type op left right same =>
      have standard := Node.Standard.arithmetic type op left right same
      exact lowered_of_computes coherent mem solves standard rfl unambiguous (fun _ => rfl)
        (standard.computes compilable nofun rfl earlier (unbound rfl) lowered)
  | comparison type predicate left right same =>
      have standard := Node.Standard.comparison type predicate left right same
      exact lowered_of_computes coherent mem solves standard rfl unambiguous (fun _ => rfl)
        (standard.computes compilable nofun rfl earlier (unbound rfl) lowered)
  | sum type groups =>
      have standard := Node.Standard.sum type groups
      exact lowered_of_computes coherent mem solves standard rfl unambiguous (fun _ => rfl)
        (standard.computes compilable nofun rfl earlier (unbound rfl) lowered)
  | input type size =>
      rcases lowered with inline | ⟨impossible, _⟩
      · obtain rfl := of_input inline
        exact ⟨.refl _ _, fun _ _ => rfl⟩
      · exact absurd rfl impossible
  | constant values shape fits =>
      rcases lowered with inline | ⟨impossible, _⟩
      · simp only [Operator.lower, succeeds_bind_iff, Emit.succeeds_declareConstant_iff] at inline
        obtain ⟨_, _, ⟨rfl, rfl⟩, bound⟩ := inline
        obtain rfl := Site.of_bindOutputArray bound
        obtain ⟨_, _, gathered, computed, held, _⟩ :=
          solves.exists_values (.constant values shape fits) rfl
        obtain rfl := Option.some.inj (Except.ok.inj computed)
        exact ⟨transports_of_constant coherent mem held rfl rfl rfl,
          fun _ different => Scope.binding?_bind_of_node_ne different⟩
      · exact absurd rfl impossible
  | concatenation type shape input fits =>
      rcases lowered with inline | ⟨impossible, _⟩
      · simp only [Operator.lower, succeeds_bind_iff, Emit.succeeds_check_iff] at inline
        obtain ⟨port, _, ⟨ported, rfl⟩, bound⟩ := inline
        obtain ⟨locations, located, rfl⟩ := Site.of_bindOutputAlias bound
        obtain rfl := Option.some.inj (Site.inputPort_eq_ok_iff.mp ported)
        obtain ⟨inputs, values, gathered, computed, held, _⟩ :=
          solves.exists_values (.concatenation type shape input fits) rfl
        have read := Model.gatherInputs_eq_ok_iff.mp gathered
        obtain ⟨value, rest, valueRead, restRead, rfl⟩ := List.forall₂_cons_left_iff.mp read
        obtain rfl := List.forall₂_nil_left_iff.mp restRead
        obtain rfl := Option.some.inj (value_of_concatenation computed)
        have silent : model.calls ⟨id, ⟨.concatenation type shape, [input]⟩, outputs⟩ = [] := by
          simp only [Model.calls, gathered, Operator.calls]
        exact ⟨silent ▸ transports_of_alias coherent mem held valueRead located rfl rfl rfl,
          fun _ different => Scope.binding?_bind_of_node_ne different⟩
      · exact absurd rfl impossible
  | sink type name notifies input trigger single =>
      rcases lowered with inline | ⟨impossible, _⟩
      · simp only [Operator.lower, succeeds_bind_iff, Emit.succeeds_check_iff] at inline
        obtain ⟨condition, first, loaded, window, second, collected, _, _, branched, port, third,
          ⟨ported, rfl⟩, bound⟩ := inline
        obtain ⟨locations, located, rfl⟩ := Site.of_bindOutputAlias bound
        obtain rfl := Option.some.inj (Site.inputPort_eq_ok_iff.mp ported)
        obtain ⟨inputs, values, gathered, computed, held, _⟩ :=
          solves.exists_values (.sink type name notifies input trigger single) rfl
        have read := Model.gatherInputs_eq_ok_iff.mp gathered
        obtain ⟨value, rest, valueRead, restRead, rfl⟩ := List.forall₂_cons_left_iff.mp read
        obtain ⟨set, none, setRead, noneRead, rfl⟩ := List.forall₂_cons_left_iff.mp restRead
        obtain rfl := List.forall₂_nil_left_iff.mp noneRead
        obtain ⟨passed, bools, triggered⟩ := value_of_sink computed
        obtain rfl := Option.some.inj passed
        obtain rfl := Option.some.inj triggered
        have sinkInputs :
            (⟨.sink type name input.length notifies, [input, trigger]⟩ : Node).inputs =
              [⟨"input", type, input⟩, ⟨"trigger", .bool, trigger⟩] := rfl
        obtain ⟨transports, own⟩ :=
          transports_of_branch sinkInputs single gathered loaded collected branched
        rw [own] at located
        have aliased : Transports model [] third (third.1, { third.2 with
            scope := third.2.scope.bind ⟨id, 0⟩ (.scattered locations) }) :=
          transports_of_alias coherent mem held valueRead (own.symm ▸ located) rfl rfl rfl
        have total := transports.trans aliased
        rw [List.append_nil] at total
        have due : model.calls ⟨id, ⟨.sink type name input.length notifies, [input, trigger]⟩,
            outputs⟩ = if bools[0]? = some true then [(name, value)] else [] := by
          simp only [Model.calls, gathered, Operator.calls]
        refine ⟨due ▸ total, fun port different => ?_⟩
        rw [← own]
        exact Scope.binding?_bind_of_node_ne different
      · exact absurd rfl impossible

end Lowering

end Dataflow
