import Dataflow.Proofs.Lowering.SafeNodes
import Dataflow.Proofs.Lowering.Settling

/-!
# What the code of nodes settles

The code of arithmetic, comparisons and sums writes to its output and to arrays that it declares for
itself, each element once.  Where the places of the inputs are settled and the output is not, it is
code that settles cells, whatever the options say.
-/

namespace Dataflow

namespace Site

variable {site : Site} {before after : Builder × Lowering} {value : ValueId} {done : Unit}
  {around : Surroundings} {turns : Turns} {settled : Set Cell}

/-! ## Elementwise work -/

/-- An action combines two variables without an access to the memory. -/
def Silent (combine : ValueId → ValueId → Lower ValueId) : Prop :=
  ∀ {left right value : ValueId} {before after : Builder × Lowering},
    Succeeds (combine left right) before value after →
      ∀ (around : Surroundings) (turns : Turns) (settled : Set Cell),
        before.1.Settles around turns settled after.1 settled

theorem silent_binary (op : BinaryOp) : Silent (Emit.binary op) :=
  fun emitted _ _ _ => Emit.settles_binary emitted

theorem silent_compare (predicate : Predicate) : Silent (Emit.compare predicate) :=
  fun emitted _ _ _ => Emit.settles_compare emitted

theorem own_inputElement {index element : Nat}
    (emitted : Succeeds (site.inputElement index element) before value after) :
    after.2 = before.2 := by
  obtain ⟨_, _, _, _, rfl, _⟩ := of_inputElement emitted
  rfl

section Combining

variable {combine : ValueId → ValueId → Lower ValueId} {result : Scalar → Scalar → Option Scalar}

/-- Work that is written out settles the next cells of the output. -/
theorem settles_expandElementwise (combines : Combines combine result) (silent : Silent combine)
    {output : ArrayRef} {position count : Nat}
    (emitted : Succeeds (site.expandElementwise output combine position count) before done after)
    (offers : site.Offers around settled before.2.scope)
    (free : ∀ element < position + count, around.cell output element ∉ settled) :
    before.1.Settles around turns (settled ∪ around.part output position) after.1
      (settled ∪ around.part output (position + count)) := by
  induction count generalizing before position with
  | zero =>
      obtain ⟨_, rfl⟩ := succeeds_pure_iff.mp emitted
      exact .refl _ _
  | succ count ih =>
      simp only [expandElementwise, succeeds_bind_iff] at emitted
      obtain ⟨left, one, leftLoaded, right, two, rightLoaded, value, three, combined, _, four, stored,
        others⟩ := emitted
      have own : four.2 = before.2 := by
        obtain ⟨_, _, _, same, _⟩ := combines combined
        obtain ⟨_, _, _, rfl⟩ := Emit.of_store stored
        rw [same]
        exact (own_inputElement rightLoaded).trans (own_inputElement leftLoaded)
      have more : site.Offers around (settled ∪ around.part output position) before.2.scope :=
        offers.mono Set.subset_union_left
      have names : Index.Names turns position (.fixed position) := rfl
      have kept := Emit.settles_storeNext stored names (free position (by omega))
      rw [show position + (count + 1) = position + 1 + count by omega] at free ⊢
      refine (settles_inputElement leftLoaded more).trans ?_
      rw [← own_inputElement leftLoaded] at more
      refine (settles_inputElement rightLoaded more).trans
        ((silent combined _ _ _).trans (kept.trans ?_))
      exact ih others (own ▸ offers) free

/-- A loop over settled windows settles the output. -/
theorem settles_combineLoop (combines : Combines combine result) (silent : Silent combine)
    {left right output : ArrayRef} {size : Nat}
    (emitted : Succeeds
      (Emit.loop 0 size fun index => do
        let leftValue ← Emit.load left (.value index)
        let rightValue ← Emit.load right (.value index)
        let result ← combine leftValue rightValue
        Emit.store output (.value index) result) before done after)
    (lefts : ∀ element < size, around.cell left element ∈ settled)
    (rights : ∀ element < size, around.cell right element ∈ settled)
    (free : ∀ element, around.cell output element ∉ settled) :
    before.1.Settles around turns settled after.1 (settled ∪ around.part output size) := by
  refine Emit.settles_fillLoop emitted fun {inner} ran => ?_
  simp only [succeeds_bind_iff] at ran
  obtain ⟨leftValue, one, leftLoaded, rightValue, two, rightLoaded, value, three, combined, stored⟩ :=
    ran
  have turn : ∀ index < size, (before.1.withValue .index).openBlock.Settles around
      ((before.1.valueTypes.size, index) :: turns) (settled ∪ around.part output index) inner.1
        (settled ∪ around.part output (index + 1)) := by
    intro index below
    have names : Index.Names ((before.1.valueTypes.size, index) :: turns) index
        (.value before.1.valueTypes.size) := List.mem_cons_self
    exact (Emit.settles_load leftLoaded names (.inl (lefts index below))).trans
      ((Emit.settles_load rightLoaded names (.inl (rights index below))).trans
        ((silent combined _ _ _).trans (Emit.settles_storeNext stored names (free index))))
  obtain ⟨_, _, _, rfl⟩ := Emit.of_load leftLoaded
  obtain ⟨_, _, _, rfl⟩ := Emit.of_load rightLoaded
  obtain ⟨_, _, _, rfl, _⟩ := combines combined
  obtain ⟨_, _, _, rfl⟩ := Emit.of_store stored
  exact ⟨⟨_, ((Builder.Grows.define _ _ _).trans (.define _ _ _)).trans
    ((Builder.Grows.define _ _ _).trans (.push _ _))⟩, turn⟩

/-- Elementwise work settles the output, on inputs and an output of one size. -/
theorem produces_elementwise (combines : Combines combine result) (silent : Silent combine)
    {size : Nat} (emitted : Succeeds (site.elementwise size combine) before done after)
    (prepared : site.Prepared around settled before after.1)
    (outputs : ∀ port, site.outputs[0]? = some port → port.size = size)
    (inputs : ∀ (index : Nat) (port : InputPort), site.inputs[index]? = some port →
      port.size = size) :
    site.Produces around settled before after := by
  simp only [elementwise, succeeds_bind_iff] at emitted
  obtain ⟨output, declared, outputChosen, choice, chosen, strategyChosen, rest⟩ := emitted
  obtain ⟨sameBuilder, agrees⟩ := of_strategy strategyChosen
  cases choice with
  | expanded =>
      obtain ⟨_, _, _, grows, _⟩ := of_expandElementwise combines rest
      rw [sameBuilder] at grows
      obtain ⟨declares, read, _, port, ported, rfl, waits⟩ :=
        awaits_of_outputArray outputChosen grows prepared
      have expands : chosen.1.Settles around [] _ after.1 _ :=
        settles_expandElementwise combines silent rest (agrees.scope_eq ▸ read)
          fun element _ => waits.free element (Nat.zero_le _)
      rw [Surroundings.part_zero, Set.union_empty, Nat.zero_add, sameBuilder] at expands
      rw [← outputs port ported] at expands
      exact ⟨port, _, ported, .trans (.of_settles (.of_grows declares)) (.of_own expands),
        Set.subset_union_right⟩
  | loop =>
      simp only [succeeds_bind_iff] at rest
      obtain ⟨left, one, leftRead, right, two, rightRead, looped⟩ := rest
      obtain ⟨leftPort, leftPorted, leftOwn, _, leftLength, _, _, leftGrows, _⟩ :=
        of_inputArray leftRead
      obtain ⟨rightPort, rightPorted, _, _, rightLength, _, _, rightGrows, _⟩ :=
        of_inputArray rightRead
      obtain ⟨_, _, _, loopGrows, _⟩ := of_combineLoop combines looped
      rw [inputs 0 leftPort leftPorted] at leftLength
      rw [inputs 1 rightPort rightPorted] at rightLength
      rw [sameBuilder] at leftGrows
      obtain ⟨declares, read, spared, port, ported, rfl, waits⟩ := awaits_of_outputArray outputChosen
        (leftGrows.trans (rightGrows.trans loopGrows)) prepared
      rw [← agrees.scope_eq] at read
      rw [← sameBuilder] at spared waits declares
      obtain ⟨first, leftGains, lefts⟩ := gains_inputArray leftRead read
        (spared.left (rightGrows.trans loopGrows))
      have waitsLeft := waits.of_gains leftGains (rightGrows.trans loopGrows)
      have readLeft : site.Offers around first one.2.scope := leftOwn ▸ read.mono leftGains.subset
      have sparedLeft := leftGains.spares spared (by simp)
      obtain ⟨second, rightGains, rights⟩ := gains_inputArray rightRead readLeft
        (sparedLeft.left loopGrows)
      have waitsRight := waitsLeft.of_gains rightGains loopGrows
      have loops : two.1.Settles around [] _ after.1 _ := settles_combineLoop combines silent looped
        (fun element below => rightGains.subset (lefts element (leftLength ▸ below)))
        (fun element below => rights element (rightLength ▸ below))
        fun element => waitsRight.free element (Nat.zero_le _)
      rw [← outputs port ported] at loops
      exact ⟨port, _, ported, .trans (.of_settles (.of_grows declares))
        (((leftGains.trans rightGains).mono (Set.empty_subset _)).trans (.of_own loops)),
        Set.subset_union_right⟩

end Combining

/-! ## Sums -/

/-- Adding elements to a total settles nothing.  The induction is on the elements that are left. -/
theorem settles_expandSum {group position count : Nat} {total : ValueId}
    (emitted : Succeeds (site.expandSum group total position count) before value after)
    (offers : site.Offers around settled before.2.scope) :
    before.1.Settles around turns settled after.1 settled := by
  induction count generalizing before position total with
  | zero =>
      obtain ⟨_, rfl⟩ := succeeds_pure_iff.mp emitted
      exact .refl _ _
  | succ count ih =>
      simp only [expandSum, succeeds_bind_iff] at emitted
      obtain ⟨element, one, loaded, sum, two, added, others⟩ := emitted
      have own : two.2 = before.2 := by
        have same := own_inputElement loaded
        obtain ⟨_, _, rfl⟩ := Emit.of_binary added
        exact same
      exact (settles_inputElement loaded offers).trans
        ((Emit.settles_binary added).trans (ih others (own ▸ offers)))

/-- Adding the elements of a settled window to an accumulator settles nothing. -/
theorem settles_sumLoop {accumulator : ValueId} {values : ArrayRef} {size : Nat}
    (declared : accumulator < before.1.valueTypes.size)
    (emitted : Succeeds
      (Emit.loop 0 size fun index => do
        let element ← Emit.load values (.value index)
        let total ← Emit.binary .add accumulator element
        Emit.assign accumulator total : Lower Unit) before done after)
    (mem : ∀ element < size, around.cell values element ∈ settled) :
    before.1.Settles around [] settled after.1 settled := by
  refine Emit.settles_loop (fun _ => settled) emitted fun {inner} ran => ?_
  simp only [succeeds_bind_iff] at ran
  obtain ⟨element, one, loaded, total, two, added, assigned⟩ := ran
  constructor
  · obtain ⟨_, _, _, rfl⟩ := Emit.of_load loaded
    obtain ⟨_, _, rfl⟩ := Emit.of_binary added
    obtain rfl := Emit.of_assign assigned
    exact ⟨_, (Builder.Grows.define _ _ _).trans ((Builder.Grows.define _ _ _).trans (.push _ _))⟩
  · intro index below
    have names : Index.Names [(before.1.valueTypes.size, index)] index
        (.value before.1.valueTypes.size) := List.mem_cons_self
    have free : accumulator ∉ List.map Prod.fst [(before.1.valueTypes.size, index)] := by
      simpa using Nat.ne_of_lt declared
    exact (Emit.settles_load loaded names (mem index below)).trans
      ((Emit.settles_binary added).trans (Emit.settles_assign assigned free))

/-- One sum settles copies of its input, if it makes any. -/
theorem gains_sumInput {type : RealType} {group size : Nat}
    (emitted : Succeeds (site.sumInput type group size) before value after)
    (sized : ∀ port : InputPort, site.inputs[group]? = some port → port.size = size)
    (offers : site.Offers around settled before.2.scope) (spares : before.1.Spares after.1 settled) :
    ∃ later, before.1.Gains around [] settled after.1 later ∅ := by
  obtain ⟨chosen, sameBuilder, agrees, ⟨values, read, zeroed, inputRead, started, loop⟩ |
    ⟨first, one, loaded, summed⟩⟩ := sumInput_cases emitted <;>
    rw [← sameBuilder] at spares ⊢ <;> rw [← agrees.scope_eq] at offers
  · obtain ⟨port, ported, _, _, length, _⟩ := of_inputArray inputRead
    rw [sized port ported] at length
    obtain ⟨rfl, rfl⟩ := Emit.succeeds_literal_iff.mp started
    have declared := Builder.value_lt_define read.1 (Literal.scalar type.toScalarType.zero).type
      (.literal type.toScalarType.zero)
    obtain ⟨_, _, _, loopGrows, _⟩ := of_sumLoop declared loop
    obtain ⟨later, gains, mem⟩ := gains_inputArray inputRead offers
      (spares.left ((Builder.Grows.define _ _ _).trans loopGrows))
    refine ⟨later, gains.trans (.of_settles ((Emit.settles_literal started).trans ?_))⟩
    exact settles_sumLoop declared loop fun element below => mem element (length ▸ below)
  · refine ⟨settled, .of_settles ((settles_inputElement loaded offers).trans ?_)⟩
    exact settles_expandSum summed (own_inputElement loaded ▸ offers)

/-- One sum, or the sum of nothing. -/
theorem exists_gains_sum {type : RealType} {group : Nat} {port : InputPort}
    {next : ValueId → Lower Unit} (ported : site.inputs[group]? = some port)
    (emitted : Succeeds
      (if port.size = 0 then do
        let total ← Emit.literal type.toScalarType.zero
        next total
      else do
        let total ← site.sumInput type group port.size
        next total) before done after)
    (offers : site.Offers around settled before.2.scope) :
    ∃ total between, before.2.Agrees between.2 ∧ Succeeds (next total) between done after ∧
      (before.1.Spares between.1 settled →
        ∃ later, before.1.Gains around [] settled between.1 later ∅) := by
  by_cases empty : port.size = 0
  · simp only [empty, if_true, succeeds_bind_iff] at emitted
    obtain ⟨total, between, zeroed, rest⟩ := emitted
    refine ⟨total, between, ?_, rest, fun _ => ⟨settled, .of_settles (Emit.settles_literal zeroed)⟩⟩
    obtain ⟨_, rfl⟩ := Emit.succeeds_literal_iff.mp zeroed
    exact .refl _
  · simp only [empty, if_false, succeeds_bind_iff] at emitted
    obtain ⟨total, between, summed, rest⟩ := emitted
    refine ⟨total, between, (of_sumInput summed).1, rest,
      gains_sumInput summed (fun other found => ?_) offers⟩
    rw [Option.some.inj (ported.symm.trans found)]

/-- A step settles the element of the output that it stores. -/
theorem Awaits.store {output : ArrayRef} {first : Nat} {final : Builder}
    (awaits : Awaits around settled output first before.1 final)
    (stored : Succeeds (Emit.store output (.fixed first) value : Lower Unit) before done after) :
    before.1.Gains around turns settled after.1 (insert (around.cell output first) settled)
        (around.part output (first + 1)) ∧
      Awaits around (insert (around.cell output first) settled) output (first + 1) after.1 final := by
  have names : Index.Names turns first (.fixed first) := rfl
  have settles := Emit.settles_store stored names (awaits.free first (Nat.le_refl _))
  obtain ⟨_, grows⟩ := settles.exists_grows
  refine ⟨⟨settles, Set.subset_insert _ _, fun cell mem => ?_⟩, fun element above mem => ?_,
    fun scratch => awaits.declared (scratch.mono_left grows)⟩
  · rcases mem with rfl | earlier
    · exact .inr (.inr (Surroundings.mem_part (Nat.lt_succ_self _)))
    · exact .inl earlier
  · rcases mem with same | earlier
    · have equal : element = first := by simpa [Surroundings.cell] using same
      omega
    · exact awaits.free element (by omega) earlier

/-- Several sums settle the next cells of the output.  The induction is on the groups that are
left. -/
theorem gains_sums {type : RealType} {output : ArrayRef} {group : Nat} {ports : List InputPort}
    (inputs : ∀ (index : Nat) (port : InputPort), ports[index]? = some port →
      site.inputs[group + index]? = some port)
    (emitted : Succeeds (site.sums type output group ports) before done after)
    (offers : site.Offers around settled before.2.scope) (spares : before.1.Spares after.1 settled)
    (awaits : Awaits around settled output group before.1 after.1) :
    ∃ later, before.1.Gains around [] settled after.1 later
        (around.part output (group + ports.length)) ∧
      ∀ element, group ≤ element → element < group + ports.length →
        around.cell output element ∈ later := by
  induction ports generalizing before group settled with
  | nil =>
      obtain ⟨_, rfl⟩ := succeeds_pure_iff.mp emitted
      exact ⟨settled, .refl _ _, fun element above below => absurd above (Nat.not_le.mpr below)⟩
  | cons port rest ih =>
      simp only [sums] at emitted
      obtain ⟨total, one, agrees, stored, gains⟩ := exists_gains_sum (inputs 0 port rfl) emitted offers
      simp only [succeeds_bind_iff] at stored
      obtain ⟨_, two, kept, others⟩ := stored
      have shifted : ∀ (index : Nat) (other : InputPort), rest[index]? = some other →
          site.inputs[group + 1 + index]? = some other := by
        intro index other found
        rw [show group + 1 + index = group + (index + 1) by omega]
        exact inputs (index + 1) other (by simpa using found)
      obtain ⟨_, _, _, restGrows, _⟩ := of_sums shifted others
      obtain ⟨position, _, _, rfl⟩ := Emit.of_store kept
      have pushed := Builder.Grows.push one.1 (.store output.array position total)
      obtain ⟨first, sumGains⟩ := gains (spares.left (pushed.trans restGrows))
      obtain ⟨storeGains, waits⟩ := (awaits.of_gains sumGains (pushed.trans restGrows)).store kept
      have spared := sumGains.spares spares (by simp)
      have outside : ∀ cell ∈ around.part output (group + 1),
          ¬(one.1.push (.store output.array position total)).Scratch after.1 cell.slot := by
        rintro cell ⟨element, _, rfl⟩
        simpa [Surroundings.cell] using waits.declared
      have read : site.Offers around (insert (around.cell output group) first) one.2.scope :=
        agrees.scope_eq ▸ offers.mono (sumGains.subset.trans (Set.subset_insert _ _))
      obtain ⟨later, restGains, filled⟩ :=
        ih shifted others read (storeGains.spares spared outside) waits
      rw [show group + 1 + rest.length = group + (rest.length + 1) by omega] at restGains filled
      rw [List.length_cons]
      refine ⟨later, (sumGains.mono (Set.empty_subset _)).trans
        ((storeGains.mono ?_).trans restGains), fun element above below => ?_⟩
      · rintro cell ⟨element, below, rfl⟩
        exact Surroundings.mem_part (by omega)
      · rcases Nat.eq_or_lt_of_le above with rfl | next
        · exact restGains.subset (Set.mem_insert _ _)
        · exact filled element next below

/-- The sums of all inputs settle the output, which has as many elements. -/
theorem produces_sums {type : RealType} {output : ArrayRef} {between : Builder × Lowering}
    (declared : Succeeds (site.outputArray 0) before output between)
    (emitted : Succeeds (site.sums type output 0 site.inputs) between done after)
    (prepared : site.Prepared around settled before after.1)
    (outputs : ∀ port, site.outputs[0]? = some port → port.size = site.inputs.length) :
    site.Produces around settled before after := by
  have inputs : ∀ (index : Nat) (port : InputPort), site.inputs[index]? = some port →
      site.inputs[0 + index]? = some port := by simp
  obtain ⟨_, _, _, grows, _⟩ := of_sums inputs emitted
  obtain ⟨declares, read, spared, port, ported, rfl, waits⟩ :=
    awaits_of_outputArray declared grows prepared
  obtain ⟨later, gains, filled⟩ := gains_sums inputs emitted read spared waits
  rw [Nat.zero_add, ← outputs port ported] at gains filled
  refine ⟨port, later, ported, .trans (.of_settles (.of_grows declares)) gains, ?_⟩
  rintro cell ⟨element, below, rfl⟩
  exact filled element (Nat.zero_le _) below

/-- Elementwise work on two inputs of one length. -/
theorem produces_pointwise {id : NodeId} {options : CompilerOptions} {placement : Placement}
    {operator : Operator} {type : RealType} {left right : Elements}
    {combine : ValueId → ValueId → Lower ValueId} {result : Scalar → Scalar → Option Scalar}
    (combines : Combines combine result) (silent : Silent combine)
    (inputs : (⟨operator, [left, right]⟩ : Node).inputs =
      [⟨"input1", type.toScalarType, left⟩, ⟨"input2", type.toScalarType, right⟩])
    (same : left.length = right.length)
    (outputs : ∀ port ∈ operator.outputs[0]?, port.size = left.length)
    (emitted : Succeeds ((ofNode id ⟨operator, [left, right]⟩ options placement).elementwise
      left.length combine) before done after)
    (prepared : (ofNode id ⟨operator, [left, right]⟩ options placement).Prepared around settled
      before after.1) :
    (ofNode id ⟨operator, [left, right]⟩ options placement).Produces around settled before after := by
  refine produces_elementwise combines silent emitted prepared outputs fun index port found => ?_
  simp only [ofNode, inputs] at found
  rcases List.mem_cons.mp (List.mem_of_getElem? found) with rfl | other
  · rfl
  · obtain rfl := List.mem_singleton.mp other
    exact same.symm

end Site

/-- A node that may stand in a routine of its own settles its output, wherever it stands. -/
theorem Node.Standard.produces {id : NodeId} {node : Node} {options : CompilerOptions}
    {placement : Placement} {before after : Builder × Lowering} {done : Unit}
    {around : Surroundings} {settled : Set Cell} (standard : node.Standard)
    (compilable : node.capabilities.compilable = true)
    (separable : node.capabilities.inline ≠ .required)
    (emitted : Succeeds (node.operator.lower (.ofNode id node options placement)) before done after)
    (prepared : (Site.ofNode id node options placement).Prepared around settled before after.1) :
    (Site.ofNode id node options placement).Produces around settled before after := by
  cases standard with
  | coordinatewise | hamming => exact absurd compilable Bool.false_ne_true
  | input | constant | concatenation | sink => exact absurd rfl separable
  | arithmetic type op left right same =>
      refine Site.produces_pointwise (combines_binary op) (Site.silent_binary op)
        (inputs_arithmetic type op left right) same ?_ emitted prepared
      rintro port ⟨⟩
      exact size_vector _ _ _
  | comparison type predicate left right same =>
      refine Site.produces_pointwise (combines_compare predicate) (Site.silent_compare predicate)
        (inputs_comparison type predicate left right) same ?_ emitted prepared
      rintro port ⟨⟩
      exact size_vector _ _ _
  | sum type groups =>
      simp only [Operator.lower, succeeds_bind_iff] at emitted
      obtain ⟨output, between, declared, summed⟩ := emitted
      refine Site.produces_sums declared summed prepared ?_
      rintro port ⟨⟩
      simp [Site.ofNode]

end Dataflow
