import Dataflow.Proofs.Lowering.Nodes
import Dataflow.Proofs.Routine.SafeBuilding
import Dataflow.Proofs.Routine.SafeRuns

/-!
# The code of nodes is safe

Whatever the options, the code that a standard node adds to a routine is safe.  Elements are read
where the builder has let them through; loops run over windows as long as the inputs of the node,
and all of them are as long as its output.
-/

namespace Dataflow

section Reading

variable {σ : Type} {scope : Scope} {before after : Builder × σ} {value : ValueId} {result : Unit}
  {callees : String → List Parameter → Prop} {counters : Counters} {known : Set ValueId}

namespace Scope

theorem adds_load {coordinate : Coordinate}
    (emitted : Succeeds (scope.load coordinate : Emit σ ValueId) before value after) :
    before.1.Adds callees counters known after.1 (insert value known) := by
  simp only [load, succeeds_bind_iff, Emit.succeeds_check_iff] at emitted
  obtain ⟨location, _, ⟨_, rfl⟩, loaded⟩ := emitted
  exact Emit.adds_load loaded trivial

theorem adds_copyElements {target : ArrayRef} {position : Nat} {elements : Elements}
    (emitted : Succeeds (scope.copyElements target position elements : Emit σ Unit) before result
      after) :
    before.1.Adds callees counters known after.1 known := by
  induction elements generalizing before position with
  | nil =>
      obtain ⟨_, rfl⟩ := succeeds_pure_iff.mp emitted
      exact .refl _ _
  | cons coordinate rest ih =>
      simp only [copyElements, succeeds_bind_iff] at emitted
      obtain ⟨value, _, loaded, _, _, stored, others⟩ := emitted
      refine Builder.Adds.trans ?_ (ih others)
      refine Builder.Adds.weaken ?_ (Set.subset_insert value known)
      exact (adds_load loaded).trans (Emit.adds_store stored trivial (Set.mem_insert value known))

theorem adds_gather {elements : Elements} {type : ScalarType} {window : ArrayRef}
    (emitted : Succeeds (scope.gather elements type : Emit σ ArrayRef) before window after) :
    before.1.Adds callees counters known after.1 known := by
  simp only [gather, succeeds_bind_iff, Emit.succeeds_check_iff] at emitted
  obtain ⟨covered, before, ⟨_, rfl⟩, rest⟩ := emitted
  cases covered with
  | some covering =>
      obtain ⟨rfl, rfl⟩ := succeeds_pure_iff.mp rest
      exact .refl _ _
  | none =>
      simp only [succeeds_bind_iff, Emit.succeeds_declareArray_iff, succeeds_pure_iff] at rest
      obtain ⟨_, _, ⟨rfl, rfl⟩, _, _, copied, rfl, rfl⟩ := rest
      exact (Builder.Adds.of_grows (.withArray _ _) subset_rfl).trans (adds_copyElements copied)

end Scope

end Reading

namespace Site

variable {site : Site} {before after : Builder × Lowering} {value : ValueId} {done : Unit}
  {callees : String → List Parameter → Prop} {counters : Counters} {known : Set ValueId}

/-! ## Inputs and outputs -/

theorem adds_inputElement {index element : Nat}
    (emitted : Succeeds (site.inputElement index element) before value after) :
    before.1.Adds callees counters known after.1 (insert value known) := by
  simp only [inputElement, succeeds_bind_iff, Emit.succeeds_check_iff] at emitted
  obtain ⟨port, before, ⟨_, rfl⟩, rest⟩ := emitted
  split at rest
  · split at rest
    · simp only [succeeds_bind_iff, Lower.succeeds_scope_iff] at rest
      obtain ⟨_, before, ⟨_, rfl⟩, loaded⟩ := rest
      exact Scope.adds_load loaded
    · exact absurd rest not_succeeds_throw
  · exact Emit.adds_load rest trivial

theorem adds_inputArray {index : Nat} {window : ArrayRef}
    (emitted : Succeeds (site.inputArray index) before window after) :
    before.1.Adds callees counters known after.1 known := by
  simp only [inputArray, succeeds_bind_iff, Emit.succeeds_check_iff] at emitted
  obtain ⟨port, before, ⟨_, rfl⟩, rest⟩ := emitted
  split at rest
  · simp only [succeeds_bind_iff, Lower.succeeds_scope_iff] at rest
    obtain ⟨_, before, ⟨_, rfl⟩, gathered⟩ := rest
    exact Scope.adds_gather gathered
  · obtain ⟨_, rfl⟩ := succeeds_pure_iff.mp rest
    exact .refl _ _

theorem adds_outputArray {index : Nat} {window : ArrayRef}
    (emitted : Succeeds (site.outputArray index) before window after)
    (unbound : site.placement = .inline → before.2.scope.binding? (site.port index) = none) :
    before.1.Adds callees counters known after.1 known := by
  obtain ⟨port, _, _, _, _, placement⟩ := of_outputArray emitted unbound
  split at placement
  · obtain ⟨_, rfl⟩ := placement
    exact .of_grows (.withArray _ _) subset_rfl
  · obtain ⟨_, rfl⟩ := placement
    exact .refl _ _

/-! ## Elementwise work -/

/-- An action combines two known variables to a new one. -/
def Joins (combine : ValueId → ValueId → Lower ValueId) : Prop :=
  ∀ {callees : String → List Parameter → Prop} {counters : Counters} {known : Set ValueId}
    {left right value : ValueId} {before after : Builder × Lowering},
    Succeeds (combine left right) before value after → left ∈ known → right ∈ known →
      before.1.Adds callees counters known after.1 (insert value known)

theorem subset_insert_three (left right value : ValueId) (known : Set ValueId) :
    known ⊆ insert value (insert right (insert left known)) :=
  (Set.subset_insert _ _).trans ((Set.subset_insert _ _).trans (Set.subset_insert _ _))

theorem adds_expandElementwise {combine : ValueId → ValueId → Lower ValueId} (joins : Joins combine)
    {output : ArrayRef} {position count : Nat}
    (emitted : Succeeds (site.expandElementwise output combine position count) before done after) :
    before.1.Adds callees counters known after.1 known := by
  induction count generalizing before position with
  | zero =>
      obtain ⟨_, rfl⟩ := succeeds_pure_iff.mp emitted
      exact .refl _ _
  | succ count ih =>
      simp only [expandElementwise, succeeds_bind_iff] at emitted
      obtain ⟨left, _, leftLoaded, right, _, rightLoaded, value, _, joined, _, _, stored, others⟩ :=
        emitted
      refine Builder.Adds.trans ?_ (ih others)
      refine Builder.Adds.weaken ?_ (subset_insert_three left right value known)
      refine ((adds_inputElement leftLoaded).trans (adds_inputElement rightLoaded)).trans ?_
      refine (joins joined (Set.mem_insert_of_mem _ (Set.mem_insert left known))
        (Set.mem_insert right _)).trans ?_
      exact Emit.adds_store stored trivial (Set.mem_insert value _)

/-- Elementwise work on inputs and an output of one size. -/
theorem adds_elementwise {combine : ValueId → ValueId → Lower ValueId} (joins : Joins combine)
    {size : Nat} (emitted : Succeeds (site.elementwise size combine) before done after)
    (unbound : site.placement = .inline → before.2.scope.binding? (site.port 0) = none)
    (outputs : ∀ port, site.outputs[0]? = some port → port.size = size)
    (inputs : ∀ (index : Nat) (port : InputPort), site.inputs[index]? = some port →
      port.size = size) :
    before.1.Adds callees counters known after.1 known := by
  simp only [elementwise, succeeds_bind_iff] at emitted
  obtain ⟨output, declared, outputChosen, choice, chosen, strategyChosen, rest⟩ := emitted
  obtain ⟨sameBuilder, _⟩ := of_strategy strategyChosen
  obtain ⟨port, ported, _, _, length, _⟩ := of_outputArray outputChosen unbound
  have started : before.1.Adds callees counters known chosen.1 known :=
    sameBuilder ▸ adds_outputArray outputChosen unbound
  refine started.trans ?_
  cases choice with
  | expanded => exact adds_expandElementwise joins rest
  | loop =>
      simp only [succeeds_bind_iff] at rest
      obtain ⟨left, one, leftRead, right, two, rightRead, looped⟩ := rest
      obtain ⟨leftPort, leftPorted, _, _, leftLength, _⟩ := of_inputArray leftRead
      obtain ⟨rightPort, rightPorted, _, _, rightLength, _⟩ := of_inputArray rightRead
      rw [inputs 0 leftPort leftPorted] at leftLength
      rw [inputs 1 rightPort rightPorted] at rightLength
      rw [outputs port ported] at length
      refine ((adds_inputArray leftRead).trans (adds_inputArray rightRead)).trans ?_
      refine Emit.adds_loop looped fun {inner} ran => ?_
      simp only [succeeds_bind_iff] at ran
      obtain ⟨leftValue, _, leftLoaded, rightValue, _, rightLoaded, value, _, joined, stored⟩ := ran
      have inside : ∀ window : ArrayRef, window.length = size →
          (Index.value two.1.valueTypes.size).Counted ((two.1.valueTypes.size, size) :: counters)
            window.length :=
        fun window same => ⟨size, List.mem_cons_self, Nat.le_of_eq same.symm⟩
      refine ⟨?_, output, Emit.checkArray_of_store stored, Nat.le_of_eq length.symm⟩
      refine Builder.Adds.weaken ?_ (subset_insert_three leftValue rightValue value known)
      refine (Emit.adds_load leftLoaded (inside left leftLength)).trans ?_
      refine (Emit.adds_load rightLoaded (inside right rightLength)).trans ?_
      refine (joins joined (Set.mem_insert_of_mem _ (Set.mem_insert leftValue known))
        (Set.mem_insert rightValue _)).trans ?_
      exact Emit.adds_store stored (inside output length) (Set.mem_insert value _)

/-! ## Sums -/

theorem adds_expandSum {group position count : Nat} {total : ValueId}
    (emitted : Succeeds (site.expandSum group total position count) before value after)
    (mem : total ∈ known) : before.1.Adds callees counters known after.1 (insert value known) := by
  induction count generalizing before position total known with
  | zero =>
      obtain ⟨rfl, rfl⟩ := succeeds_pure_iff.mp emitted
      rw [Set.insert_eq_of_mem mem]
      exact .refl _ _
  | succ count ih =>
      simp only [expandSum, succeeds_bind_iff] at emitted
      obtain ⟨element, _, loaded, sum, _, added, others⟩ := emitted
      have more : insert value known ⊆ insert value (insert sum (insert element known)) :=
        Set.insert_subset_insert ((Set.subset_insert _ _).trans (Set.subset_insert _ _))
      refine Builder.Adds.weaken ?_ more
      refine (adds_inputElement loaded).trans ?_
      refine (Emit.adds_binary added (Set.mem_insert_of_mem _ mem)
        (Set.mem_insert element known)).trans ?_
      exact ih others (Set.mem_insert sum _)

/-- The sum of an input as long as the size that is given. -/
theorem adds_sumInput {type : RealType} {group size : Nat}
    (emitted : Succeeds (site.sumInput type group size) before value after)
    (inputs : ∀ port : InputPort, site.inputs[group]? = some port → port.size = size) :
    before.1.Adds callees [] known after.1 (insert value known) := by
  obtain ⟨chosen, sameBuilder, _, ⟨values, read, zeroed, inputRead, started, loop⟩ |
    ⟨first, _, loaded, summed⟩⟩ := sumInput_cases emitted <;> rw [← sameBuilder]
  · obtain ⟨port, ported, _, _, length, _⟩ := of_inputArray inputRead
    rw [inputs port ported] at length
    refine ((adds_inputArray inputRead).trans (Emit.adds_literal started)).trans ?_
    refine Emit.adds_loop loop fun {inner} ran => ?_
    simp only [succeeds_bind_iff] at ran
    obtain ⟨element, one, loaded, sum, two, added, assigned⟩ := ran
    have inside : (Index.value zeroed.1.valueTypes.size).Counted [(zeroed.1.valueTypes.size, size)]
        values.length := ⟨size, List.mem_cons_self, Nat.le_of_eq length.symm⟩
    have free : value ∉ List.map Prod.fst [(zeroed.1.valueTypes.size, size)] := by
      obtain ⟨rfl, rfl⟩ := Emit.succeeds_literal_iff.mp started
      simp [Builder.define]
    have summed : one.1.Adds callees [(zeroed.1.valueTypes.size, size)]
        (insert element (insert value known)) two.1
        (insert sum (insert element (insert value known))) :=
      Emit.adds_binary added (Set.mem_insert_of_mem _ (Set.mem_insert value known))
        (Set.mem_insert element _)
    have replaced : two.1.Adds callees [(zeroed.1.valueTypes.size, size)]
        (insert sum (insert element (insert value known))) inner.1
        (insert sum (insert element (insert value known))) :=
      Emit.adds_assign assigned (Set.mem_insert sum _) (Emit.exists_type_of_binary added) free
    constructor
    · refine Builder.Adds.weaken ?_ ((Set.subset_insert element _).trans (Set.subset_insert sum _))
      exact (Emit.adds_load loaded inside).trans (summed.trans replaced)
    · refine ⟨values, ?_, Nat.le_of_eq length.symm⟩
      exact (summed.trans replaced).checkArray (Emit.checkArray_of_load loaded)
  · refine Builder.Adds.weaken ?_ (Set.insert_subset_insert (Set.subset_insert first known))
    exact (adds_inputElement loaded).trans (adds_expandSum summed (Set.mem_insert first known))

/-- The sum of one group. -/
theorem exists_adds_sum {type : RealType} {group : Nat} {port : InputPort}
    {next : ValueId → Lower Unit} (ported : site.inputs[group]? = some port)
    (emitted : Succeeds
      (if port.size = 0 then do
        let total ← Emit.literal type.toScalarType.zero
        next total
      else do
        let total ← site.sumInput type group port.size
        next total) before done after) :
    ∃ total between, before.1.Adds callees [] known between.1 (insert total known) ∧
      Succeeds (next total) between done after := by
  by_cases empty : port.size = 0
  · simp only [empty, if_true, succeeds_bind_iff] at emitted
    obtain ⟨total, between, zeroed, rest⟩ := emitted
    exact ⟨total, between, Emit.adds_literal zeroed, rest⟩
  · simp only [empty, if_false, succeeds_bind_iff] at emitted
    obtain ⟨total, between, summed, rest⟩ := emitted
    refine ⟨total, between, adds_sumInput summed fun other found => ?_, rest⟩
    rw [Option.some.inj (ported.symm.trans found)]

/-- Several sums.  The induction is on the groups that are left. -/
theorem adds_sums {type : RealType} {output : ArrayRef} {group : Nat} {ports : List InputPort}
    (inputs : ∀ (index : Nat) (port : InputPort), ports[index]? = some port →
      site.inputs[group + index]? = some port)
    (emitted : Succeeds (site.sums type output group ports) before done after) :
    before.1.Adds callees [] known after.1 known := by
  induction ports generalizing before group with
  | nil =>
      obtain ⟨_, rfl⟩ := succeeds_pure_iff.mp emitted
      exact .refl _ _
  | cons port rest ih =>
      simp only [sums] at emitted
      obtain ⟨total, between, total_adds, rested⟩ := exists_adds_sum (inputs 0 port rfl) emitted
      simp only [succeeds_bind_iff] at rested
      obtain ⟨_, _, kept, others⟩ := rested
      have shifted : ∀ (index : Nat) (other : InputPort), rest[index]? = some other →
          site.inputs[group + 1 + index]? = some other := by
        intro index other found
        rw [show group + 1 + index = group + (index + 1) by omega]
        exact inputs (index + 1) other (by simpa using found)
      refine Builder.Adds.trans ?_ (ih shifted others)
      refine Builder.Adds.weaken ?_ (Set.subset_insert total known)
      exact total_adds.trans (Emit.adds_store kept trivial (Set.mem_insert total known))

/-! ## Nodes that compute -/

theorem joins_binary (op : BinaryOp) : Joins (Emit.binary op) :=
  fun emitted left right => Emit.adds_binary emitted left right

theorem joins_compare (predicate : Predicate) : Joins (Emit.compare predicate) :=
  fun emitted left right => Emit.adds_compare emitted left right

/-- Elementwise work on two inputs of one length. -/
theorem adds_pointwise {id : NodeId} {options : CompilerOptions} {placement : Placement}
    {operator : Operator} {type : RealType} {left right : Elements}
    {combine : ValueId → ValueId → Lower ValueId} (joins : Joins combine)
    (inputs : (⟨operator, [left, right]⟩ : Node).inputs =
      [⟨"input1", type.toScalarType, left⟩, ⟨"input2", type.toScalarType, right⟩])
    (same : left.length = right.length)
    (outputs : ∀ port ∈ operator.outputs[0]?, port.size = left.length)
    (emitted : Succeeds ((ofNode id ⟨operator, [left, right]⟩ options placement).elementwise
      left.length combine) before done after)
    (unbound : placement = .inline → before.2.scope.binding? ⟨id, 0⟩ = none) :
    before.1.Adds callees counters known after.1 known := by
  refine adds_elementwise joins emitted unbound outputs fun index port found => ?_
  simp only [ofNode, inputs] at found
  rcases List.mem_cons.mp (List.mem_of_getElem? found) with rfl | other
  · rfl
  · obtain rfl := List.mem_singleton.mp other
    exact same.symm

end Site

theorem inputs_arithmetic (type : RealType) (op : BinaryOp) (left right : Elements) :
    (⟨.arithmetic type op left.length, [left, right]⟩ : Node).inputs =
      [⟨"input1", type.toScalarType, left⟩, ⟨"input2", type.toScalarType, right⟩] :=
  rfl

theorem inputs_comparison (type : RealType) (predicate : Predicate) (left right : Elements) :
    (⟨.comparison type predicate left.length, [left, right]⟩ : Node).inputs =
      [⟨"input1", type.toScalarType, left⟩, ⟨"input2", type.toScalarType, right⟩] :=
  rfl

/-- A node that may stand in a routine of its own has safe code wherever it stands. -/
theorem Node.Standard.adds_lower {id : NodeId} {node : Node} {options : CompilerOptions}
    {placement : Placement} {before after : Builder × Lowering} {done : Unit}
    {callees : String → List Parameter → Prop} (standard : node.Standard)
    (compilable : node.capabilities.compilable = true)
    (separable : node.capabilities.inline ≠ .required)
    (emitted : Succeeds (node.operator.lower (.ofNode id node options placement)) before done after)
    (unbound : placement = .inline → before.2.scope.binding? ⟨id, 0⟩ = none) :
    before.1.Adds callees [] ∅ after.1 ∅ := by
  cases standard with
  | coordinatewise | hamming => exact absurd compilable Bool.false_ne_true
  | input | constant | concatenation | sink => exact absurd rfl separable
  | arithmetic type op left right same =>
      refine Site.adds_pointwise (Site.joins_binary op) (inputs_arithmetic type op left right) same ?_
        emitted unbound
      rintro port ⟨⟩
      exact size_vector _ _ _
  | comparison type predicate left right same =>
      refine Site.adds_pointwise (Site.joins_compare predicate)
        (inputs_comparison type predicate left right) same ?_ emitted unbound
      rintro port ⟨⟩
      exact size_vector _ _ _
  | sum type groups =>
      simp only [Operator.lower, succeeds_bind_iff] at emitted
      obtain ⟨output, between, declared, summed⟩ := emitted
      refine (Site.adds_outputArray declared unbound).trans ?_
      refine Site.adds_sums (fun index port found => ?_) summed
      rwa [Nat.zero_add]

end Dataflow
