import Dataflow.Proofs.Graph.Settled
import Dataflow.Proofs.Lowering.Sums

/-!
# The code of computing nodes

Arithmetic, comparisons and sums have code that fills their output.  Where the site reads
the values that the inputs of a node have, the code writes what the evaluator computes.
-/

namespace Dataflow

/-- Adding the first element of each group to zero does not change it.  Only sums ask for
this. -/
def Operator.Exact (inputs : List Buffer) : Operator → Prop
  | .sum type _ => ∀ values ∈ inputs, ∀ items, values.reals? type = some items →
      ∀ first ∈ items[0]?, type.Same (type.zero + first) first
  | _ => True

instance (inputs : List Buffer) : (operator : Operator) → Decidable (operator.Exact inputs)
  | .sum type _ => inferInstanceAs (Decidable (∀ values ∈ inputs, ∀ items ∈ values.reals? type,
      ∀ first ∈ items[0]?, type.Same (type.zero + first) first))
  | .input _ _ | .constant _ _ | .arithmetic _ _ _ | .comparison _ _ _ | .coordinatewise _ _ _
  | .concatenation _ _ | .hamming _ _ | .sink _ _ _ _ | .custom _ => .isTrue trivial

/-- No group of a sum holds negative zeros and nothing else. -/
def Operator.Unambiguous (inputs : List Buffer) : Operator → Prop
  | .sum type _ => ∀ values ∈ inputs, ∀ items, values.reals? type = some items →
      items ≠ #[] → ∃ item ∈ items, item ≠ type.negativeZero
  | _ => True

instance (inputs : List Buffer) : (operator : Operator) → Decidable (operator.Unambiguous inputs)
  | .sum type _ => inferInstanceAs (Decidable (∀ values ∈ inputs, ∀ items ∈ values.reals? type,
      items ≠ #[] → ∃ item ∈ items, item ≠ type.negativeZero))
  | .input _ _ | .constant _ _ | .arithmetic _ _ _ | .comparison _ _ _ | .coordinatewise _ _ _
  | .concatenation _ _ | .hamming _ _ | .sink _ _ _ _ | .custom _ => .isTrue trivial

/-- A first element that stays the same when it is added to zero is no negative zero. -/
theorem Operator.Exact.unambiguous {inputs : List Buffer} {operator : Operator}
    (exact : operator.Exact inputs) : operator.Unambiguous inputs := by
  cases operator with
  | sum type groups =>
      intro values mem items read nonempty
      obtain ⟨first, found⟩ : ∃ first, items[0]? = some first := by
        exact ⟨_, Array.getElem?_eq_getElem (Array.size_pos_iff.mpr nonempty)⟩
      refine ⟨first, Array.mem_of_getElem? found, ?_⟩
      rintro rfl
      have same := exact values mem items read _ found
      rw [RealType.zero_add_negativeZero] at same
      exact type.zero_not_same_negativeZero same
  | _ => trivial

theorem RealType.item_of_getElem? {type : RealType} {values : Array type.Carrier} {index : Nat}
    {value : type.Carrier} (found : values[index]? = some value) :
    type.item values.toList index = type.toScalar value := by
  rw [item, List.getD_eq_getElem?_getD, Array.getElem?_toList, found, Option.getD_some]

theorem get?_ofReals_of_lt (type : RealType) {values : Array type.Carrier} {index : Nat}
    (below : index < values.size) :
    (Buffer.ofReals type values).get? index = some (type.item values.toList index) := by
  have found := Array.getElem?_eq_getElem below
  rw [Buffer.get?_ofReals, found, Option.map_some, RealType.item_of_getElem? found]

namespace Site

variable {site : Site} {before after : Builder × Lowering}

theorem Fills.mono
    {given more : Scope → Array View → Array Buffer → (Nat → Prop) → (Nat → Scalar) → Prop}
    (fills : site.Fills before after given)
    (implies : ∀ scope views heap readable values,
      more scope views heap readable values → given scope views heap readable values) :
    site.Fills before after more := by
  obtain ⟨port, output, code, ported, typed, offset, length, program, placed, grows, reaches⟩ := fills
  refine ⟨port, output, code, ported, typed, offset, length, program, placed, grows, ?_⟩
  intro activation machine readable slot values ready slots unread apart types holds
  exact reaches ready slots unread apart types (implies _ _ _ _ _ holds)

/-- The site reads the elements of buffers. -/
def ReadsInputs (site : Site) (scope : Scope) (views : Array View) (heap : Array Buffer)
    (readable : Nat → Prop) (inputs : List Buffer) : Prop :=
  ∀ index buffer, inputs[index]? = some buffer → ∀ element scalar,
    buffer.get? element = some scalar →
      site.Reads scope views heap readable index element scalar

/-- The values are what a node computes from what the site reads. -/
def Evaluates (site : Site) (node : Node) (scope : Scope) (views : Array View) (heap : Array Buffer)
    (readable : Nat → Prop) (values : Nat → Scalar) : Prop :=
  ∃ inputs result, List.Forall₂ Buffer.Feeds inputs node.inputs ∧
    node.operator.value inputs = .ok (some result) ∧ node.operator.Unambiguous inputs ∧
    site.ReadsInputs scope views heap readable inputs ∧
    ∀ element < result.size, result.get? element = some (values element)

variable {id : NodeId} {options : CompilerOptions} {placement : Placement} {done : Unit}

/-- The code of elementwise work on two inputs of one length, where the evaluator combines
their elements in the same way. -/
theorem fills_of_pointwise {node : Node} {type : RealType} {first second : InputPort}
    {combine : ValueId → ValueId → Lower ValueId} {result : Scalar → Scalar → Option Scalar}
    (combines : Combines combine result) (inputs : node.inputs = [first, second])
    (same : first.size = second.size) (firstType : first.type = type.toScalarType)
    (secondType : second.type = type.toScalarType)
    (outputs : ∀ port ∈ node.outputs[0]?, port.size = first.size)
    (pointwise : ∀ {leftReals rightReals : Array type.Carrier} {computed : Buffer},
      node.operator.value [.ofReals type leftReals, .ofReals type rightReals] =
        .ok (some computed) → leftReals.size = rightReals.size →
      computed.size = leftReals.size ∧ ∀ element < leftReals.size, ∀ value,
        computed.get? element = some value →
          result (type.item leftReals.toList element) (type.item rightReals.toList element) =
            some value)
    (emitted : Succeeds ((ofNode id node options placement).elementwise first.size combine) before
      done after)
    (unbound : placement = .inline → before.2.scope.binding? ⟨id, 0⟩ = none) :
    (ofNode id node options placement).Fills before after
      ((ofNode id node options placement).Evaluates node) := by
  have ports : ∀ (index : Nat) (port : InputPort),
      (ofNode id node options placement).inputs[index]? = some port →
        port.size = first.size ∧ port.type = type.toScalarType := by
    intro index port found
    have mem : port ∈ [first, second] := inputs ▸ List.mem_of_getElem? found
    rcases List.mem_cons.mp mem with rfl | other
    · exact ⟨rfl, firstType⟩
    · obtain rfl := List.mem_singleton.mp other
      exact ⟨same.symm, secondType⟩
  refine (fills_of_elementwise combines emitted unbound outputs ports).mono ?_
  rintro scope views heap readable values ⟨buffers, computed, feeds, evaluated, _, reads, results⟩
  rw [inputs] at feeds
  obtain ⟨leftReals, rightReals, _, _, leftSize, rightSize, rfl⟩ :=
    realInputs_of_feeds type feeds firstType secondType
  have sizes : leftReals.size = rightReals.size := by rw [leftSize, rightSize, same]
  obtain ⟨size, combined⟩ := pointwise evaluated sizes
  refine ⟨type.item leftReals.toList, type.item rightReals.toList, fun element below => ?_⟩
  rw [← leftSize] at below
  exact ⟨RealType.type_toScalar _ _, RealType.type_toScalar _ _,
    reads 0 _ rfl element _ (get?_ofReals_of_lt type below),
    reads 1 _ rfl element _ (get?_ofReals_of_lt type (sizes ▸ below)),
    combined element below _ (results element (size ▸ below))⟩

theorem fills_of_arithmetic {type : RealType} {op : BinaryOp} {left right : Elements}
    (same : left.length = right.length)
    (emitted : Succeeds (Operator.lower
      (ofNode id ⟨.arithmetic type op left.length, [left, right]⟩ options placement)
      (.arithmetic type op left.length)) before done after)
    (unbound : placement = .inline → before.2.scope.binding? ⟨id, 0⟩ = none) :
    (ofNode id ⟨.arithmetic type op left.length, [left, right]⟩ options placement).Fills before
      after ((ofNode id ⟨.arithmetic type op left.length, [left, right]⟩ options placement).Evaluates
        ⟨.arithmetic type op left.length, [left, right]⟩) := by
  refine fills_of_pointwise (combines_binary op) rfl same rfl rfl ?_ ?_ emitted unbound
  · rintro port ⟨⟩
    exact size_vector _ _ _
  · intro leftReals rightReals computed evaluated sizes
    simp only [Operator.value, realInput, inputValues, List.getElem?_cons_zero,
      List.getElem?_cons_succ, Buffer.reals?_ofReals, bind_eq_ok_iff, Except.ok.injEq,
      exists_eq_left', pure_eq_ok_iff, Option.some.injEq] at evaluated
    subst evaluated
    refine ⟨by simp [sizes], fun element below value found => ?_⟩
    have leftFound := Array.getElem?_eq_getElem below
    have rightFound := Array.getElem?_eq_getElem (sizes ▸ below : element < rightReals.size)
    rw [RealType.item_of_getElem? leftFound, RealType.item_of_getElem? rightFound,
      BinaryOp.onScalars?_toScalar, ← found, Buffer.get?_ofReals]
    simp [leftFound, rightFound, Array.getElem?_zipWith]

theorem fills_of_comparison {type : RealType} {predicate : Predicate} {left right : Elements}
    (same : left.length = right.length)
    (emitted : Succeeds (Operator.lower
      (ofNode id ⟨.comparison type predicate left.length, [left, right]⟩ options placement)
      (.comparison type predicate left.length)) before done after)
    (unbound : placement = .inline → before.2.scope.binding? ⟨id, 0⟩ = none) :
    (ofNode id ⟨.comparison type predicate left.length, [left, right]⟩ options placement).Fills
      before after
      ((ofNode id ⟨.comparison type predicate left.length, [left, right]⟩ options
        placement).Evaluates ⟨.comparison type predicate left.length, [left, right]⟩) := by
  refine fills_of_pointwise (combines_compare predicate) rfl same rfl rfl ?_ ?_ emitted unbound
  · rintro port ⟨⟩
    exact size_vector _ _ _
  · intro leftReals rightReals computed evaluated sizes
    simp only [Operator.value, realInput, inputValues, List.getElem?_cons_zero,
      List.getElem?_cons_succ, Buffer.reals?_ofReals, bind_eq_ok_iff, Except.ok.injEq,
      exists_eq_left', pure_eq_ok_iff, Option.some.injEq] at evaluated
    subst evaluated
    refine ⟨by simp [Buffer.size, sizes], fun element below value found => ?_⟩
    have leftFound := Array.getElem?_eq_getElem below
    have rightFound := Array.getElem?_eq_getElem (sizes ▸ below : element < rightReals.size)
    rw [RealType.item_of_getElem? leftFound, RealType.item_of_getElem? rightFound,
      Predicate.onScalars?_toScalar, ← found]
    simp [leftFound, rightFound, Array.getElem?_zipWith, Buffer.get?]

/-- The code of sums. -/
theorem fills_of_sum {type : RealType} {groups : List Elements}
    (emitted : Succeeds (Operator.lower
      (ofNode id ⟨.sum type groups.length, groups⟩ options placement) (.sum type groups.length))
      before done after)
    (unbound : placement = .inline → before.2.scope.binding? ⟨id, 0⟩ = none) :
    (ofNode id ⟨.sum type groups.length, groups⟩ options placement).Fills before after
      ((ofNode id ⟨.sum type groups.length, groups⟩ options placement).Evaluates
        ⟨.sum type groups.length, groups⟩) := by
  have inputs : (ofNode id ⟨.sum type groups.length, groups⟩ options placement).inputs =
      groups.map fun elements => ⟨"input", type, elements⟩ := inputs_sum type groups
  simp only [Operator.lower, succeeds_bind_iff] at emitted
  obtain ⟨output, between, declared, summed⟩ := emitted
  have outputs : ∀ port,
      (ofNode id ⟨.sum type groups.length, groups⟩ options placement).outputs[0]? = some port →
        port.size = (ofNode id ⟨.sum type groups.length, groups⟩ options placement).inputs.length ∧
          port.type = type.toScalarType := by
    intro port found
    obtain rfl := Option.some.inj found
    exact ⟨by simp [inputs], rfl⟩
  refine (fills_of_sums declared summed unbound outputs).mono ?_
  rintro scope views heap readable values ⟨buffers, computed, feeds, evaluated, unambiguous, reads,
    results⟩
  simp only [Operator.value, bind_eq_ok_iff, pure_eq_ok_iff, Option.some.injEq] at evaluated
  obtain ⟨sums, summed, rfl⟩ := evaluated
  have pointwise := mapM_eq_ok_iff.mp summed
  have length : sums.length = groups.length := by simpa using pointwise.length_eq.symm
  refine ⟨fun index => ((buffers[index]?.bind (Buffer.reals? type)).getD #[]).toList, ?_⟩
  rw [inputs, List.length_map]
  intro index below
  have sumBelow : index < sums.length := length ▸ below
  have added := pointwise.get (by simpa using below) sumBelow
  simp only [List.get_eq_getElem, List.getElem_range, bind_eq_ok_iff, pure_eq_ok_iff,
    realInput_eq_ok_iff] at added
  obtain ⟨reals, found, sum⟩ := added
  simp only [found, Option.bind_some, Buffer.reals?_ofReals, Option.getD_some]
  refine ⟨?_, ?_, ?_, ?_⟩
  · have result := results index (by simpa using sumBelow)
    rw [get?_ofReals_of_lt type (by simpa using sumBelow), Option.some.injEq] at result
    rw [← result, RealType.item, List.getD_eq_getElem _ _ sumBelow, ← sum, sumOf,
      RealType.total, Array.foldl_toList]
  · intro port ported
    obtain ⟨bound, buffer⟩ := List.getElem?_eq_some_iff.mp found
    obtain ⟨portBound, rfl⟩ := List.getElem?_eq_some_iff.mp ported
    obtain ⟨typed, sized⟩ := feeds.get bound portBound
    simp only [List.get_eq_getElem, buffer, Buffer.type_ofReals, Buffer.size_ofReals] at typed sized
    rw [Array.length_toList]
    exact ⟨sized.symm, typed.symm⟩
  · intro element inside
    exact reads index _ found element _ (get?_ofReals_of_lt type (by simpa using inside))
  · intro nonempty
    simpa using unambiguous _ (List.mem_of_getElem? found) reals (Buffer.reals?_ofReals _ _)
      (by simpa using nonempty)

end Site

end Dataflow
