import Dataflow.Proofs.Graph.Preservation
import Dataflow.Proofs.Graph.Standard

/-!
# Sound models

A node comes from a builder: it is a standard node whose wiring fits its operator, or it is a
custom node.  A model is sound when it is well formed and all its nodes come from builders.
-/

namespace Dataflow

/-- A standard node from its builder, or a custom node. -/
def Node.Made (node : Node) : Prop :=
  node.Standard ∨ node.operator.kind? = none

theorem Node.Made.standard {node : Node} (made : node.Made) (kind : node.operator.kind?.isSome) :
    node.Standard := by
  rcases made with standard | custom
  · exact standard
  · simp [custom] at kind

/-! ## Builders -/

section Builders

variable {node : Node}

theorem made_of_checked {checked : Except NodeError Node} {holds : Prop} {built : Node}
    (decides : checked = .ok node ↔ holds ∧ built = node) (standard : holds → built.Standard)
    (success : checked = .ok node) : node.Made := by
  obtain ⟨fits, rfl⟩ := decides.mp success
  exact .inl (standard fits)

theorem made_of_shapedConstant {values : Buffer} {shape : Shape}
    (success : Node.shapedConstant values shape = .ok node) : node.Made :=
  made_of_checked shapedConstant_eq_ok_iff (.constant values shape) success

theorem made_of_arithmetic {type : RealType} {op : BinaryOp} {left right : Elements}
    (success : Node.arithmetic type op left right = .ok node) : node.Made :=
  made_of_checked arithmetic_eq_ok_iff (.arithmetic type op left right) success

theorem made_of_comparison {type : RealType} {predicate : Predicate} {left right : Elements}
    (success : Node.comparison type predicate left right = .ok node) : node.Made :=
  made_of_checked comparison_eq_ok_iff (.comparison type predicate left right) success

theorem made_of_coordinatewise {type : RealType} {op : CoordinateOp} {values : Array type.Carrier}
    {input : Elements} (success : Node.coordinatewise type op values input = .ok node) : node.Made :=
  made_of_checked coordinatewise_eq_ok_iff (.coordinatewise type op values input) success

theorem made_of_shapedConcatenation {type : ScalarType} {input : Elements} {shape : Shape}
    (success : Node.shapedConcatenation type input shape = .ok node) : node.Made :=
  made_of_checked shapedConcatenation_eq_ok_iff (.concatenation type shape input) success

theorem made_of_sink {type : ScalarType} {name : String} {notifies : Bool} {input trigger : Elements}
    (success : Node.sink type name notifies input trigger = .ok node) : node.Made :=
  made_of_checked sink_eq_ok_iff
    (fun single => .sink type name notifies input trigger single.symm) success

theorem made_of_custom {name : String} {inputs : List (ScalarType × Elements)}
    {outputs : List PlannedOutput} {capabilities : Capabilities} {behaviour : Behaviour}
    (success : Node.custom name inputs outputs capabilities behaviour = .ok node) : node.Made := by
  simp only [Node.custom, bind_eq_ok_iff, pure_eq_ok_iff] at success
  obtain ⟨_, _, rfl⟩ := success
  exact .inr rfl

/-- A planned node is built by the builder of its kind. -/
theorem made_of_plan {resolve : Selection → Except ModelError Elements} {plan : NodePlan}
    (success : plan.build resolve = .ok node) : node.Made := by
  cases plan with
  | input type size =>
      obtain rfl := pure_eq_ok_iff.mp success
      exact .inl (.input type size)
  | constant values shape =>
      cases shape with
      | none =>
          obtain rfl := pure_eq_ok_iff.mp success
          exact .inl (standard_constant values)
      | some shape =>
          simp only [NodePlan.build, built, mapError_eq_ok_iff] at success
          exact made_of_shapedConstant success
  | arithmetic type op left right =>
      simp only [NodePlan.build, built, bind_eq_ok_iff, mapError_eq_ok_iff] at success
      obtain ⟨_, _, _, _, _, _, success⟩ := success
      exact made_of_arithmetic success
  | comparison type predicate left right =>
      simp only [NodePlan.build, built, bind_eq_ok_iff, mapError_eq_ok_iff] at success
      obtain ⟨_, _, _, _, _, _, success⟩ := success
      exact made_of_comparison success
  | coordinatewise type op values input =>
      simp only [NodePlan.build, built, bind_eq_ok_iff, mapError_eq_ok_iff] at success
      obtain ⟨_, _, _, _, success⟩ := success
      exact made_of_coordinatewise success
  | sum type groups =>
      simp only [NodePlan.build, bind_eq_ok_iff, pure_eq_ok_iff] at success
      obtain ⟨groups, _, rfl⟩ := success
      exact .inl (.sum type groups)
  | concatenation type input shape =>
      cases shape with
      | none =>
          simp only [NodePlan.build, bind_eq_ok_iff, pure_eq_ok_iff] at success
          obtain ⟨input, _, rfl⟩ := success
          exact .inl (standard_concatenation type input)
      | some shape =>
          simp only [NodePlan.build, built, bind_eq_ok_iff, mapError_eq_ok_iff] at success
          obtain ⟨_, _, success⟩ := success
          exact made_of_shapedConcatenation success
  | hamming type input =>
      simp only [NodePlan.build, bind_eq_ok_iff, pure_eq_ok_iff] at success
      obtain ⟨input, _, rfl⟩ := success
      exact .inl (.hamming type input)
  | sink type input trigger name notifies =>
      simp only [NodePlan.build, built, bind_eq_ok_iff, mapError_eq_ok_iff] at success
      obtain ⟨_, _, _, _, success⟩ := success
      exact made_of_sink success
  | custom name inputs outputs capabilities behaviour =>
      simp only [NodePlan.build, built, bind_eq_ok_iff, mapError_eq_ok_iff] at success
      obtain ⟨_, _, success⟩ := success
      exact made_of_custom success

theorem single_of_lengths {wiring : List Elements} {length : Nat}
    (lengths : wiring.map List.length = [length]) :
    ∃ only, only.length = length ∧ wiring = [only] := by
  obtain ⟨only, rest, rfl, sized, none⟩ := List.map_eq_cons_iff.mp lengths
  obtain rfl := List.map_eq_nil_iff.mp none
  exact ⟨only, sized, rfl⟩

theorem pair_of_lengths {wiring : List Elements} {left right : Nat}
    (lengths : wiring.map List.length = [left, right]) :
    ∃ first second, first.length = left ∧ second.length = right ∧ wiring = [first, second] := by
  obtain ⟨first, rest, rfl, sized, others⟩ := List.map_eq_cons_iff.mp lengths
  obtain ⟨second, secondSized, rfl⟩ := single_of_lengths others
  exact ⟨first, second, sized, secondSized, rfl⟩

/-- Other elements in the same number can be read instead. -/
theorem Node.Made.rewire (made : node.Made) {wiring : List Elements}
    (lengths : wiring.map List.length = node.wiring.map List.length) :
    ({ node with wiring } : Node).Made := by
  rcases made with standard | custom
  · refine .inl ?_
    cases standard with
    | input type size =>
        obtain rfl := List.map_eq_nil_iff.mp lengths
        exact .input type size
    | constant values shape fits =>
        obtain rfl := List.map_eq_nil_iff.mp lengths
        exact .constant values shape fits
    | arithmetic type op left right same =>
        obtain ⟨first, second, firstLength, secondLength, rfl⟩ := pair_of_lengths lengths
        simp only [← firstLength]
        exact .arithmetic type op first second (by omega)
    | comparison type predicate left right same =>
        obtain ⟨first, second, firstLength, secondLength, rfl⟩ := pair_of_lengths lengths
        simp only [← firstLength]
        exact .comparison type predicate first second (by omega)
    | coordinatewise type op values input same =>
        obtain ⟨only, length, rfl⟩ := single_of_lengths lengths
        exact .coordinatewise type op values only (by omega)
    | sum type groups =>
        have count : wiring.length = groups.length := by simpa using congrArg List.length lengths
        simp only [← count]
        exact .sum type wiring
    | concatenation type shape input fits =>
        obtain ⟨only, length, rfl⟩ := single_of_lengths lengths
        exact .concatenation type shape only (by omega)
    | hamming type input =>
        obtain ⟨only, length, rfl⟩ := single_of_lengths lengths
        simp only [← length]
        exact .hamming type only
    | sink type name notifies input trigger single =>
        obtain ⟨first, second, firstLength, secondLength, rfl⟩ := pair_of_lengths lengths
        simp only [← firstLength]
        exact .sink type name notifies first second (by omega)
  · exact .inr custom

end Builders

/-! ## Operations -/

/-- A well-formed model whose nodes come from builders. -/
structure Model.Sound (model : Model) : Prop where
  wellFormed : model.WellFormed
  made : ∀ entry ∈ model.entries, entry.node.Made

namespace Model

variable {model : Model}

theorem sound_empty : empty.Sound :=
  ⟨wellFormed_empty, fun entry mem => by simp at mem⟩

theorem Sound.insert (sound : model.Sound) {id : NodeId} {node : Node} {after : Model}
    (made : node.Made) (inserted : model.insert id node = .ok after) : after.Sound := by
  refine ⟨sound.wellFormed.insert inserted, ?_⟩
  rw [sound.wellFormed.coherent.entries_of_insert inserted]
  intro entry mem
  rcases List.mem_append.mp mem with old | new
  · exact sound.made entry old
  · obtain rfl := List.mem_singleton.mp new
    exact made

theorem Sound.add (sound : model.Sound) {id : NodeId} {node : Node} {after : Model}
    (made : node.Made) (added : model.add node = .ok (id, after)) : after.Sound :=
  sound.insert made (add_eq_ok_iff.mp added).2

theorem Sound.remove (sound : model.Sound) {id : NodeId} {node : Node} {after : Model}
    (removed : model.remove id = .ok (node, after)) : after.Sound := by
  have succeeded : outcome (Edit.remove id) model = (.ok node, after) := edit_eq_ok_iff.mp removed
  rcases outcome_remove sound.wellFormed.coherent id with
    ⟨error, failed⟩ | ⟨key, entry, found, rfl, free, done⟩
  · simp [failed] at succeeded
  · obtain ⟨_, rfl⟩ : entry.node = node ∧ model.without entry.id key = after := by
      simpa [done] using succeeded
    refine ⟨sound.wellFormed.takeOut found free, fun other mem => sound.made other ?_⟩
    rw [sound.wellFormed.coherent.entries_without found] at mem
    exact (List.mem_filter.mp mem).1

theorem Sound.withOutputs (sound : model.Sound) {id : NodeId} {outputs : List Buffer}
    (wellFormed : (model.withOutputs id outputs).WellFormed) :
    (model.withOutputs id outputs).Sound := by
  refine ⟨wellFormed, fun entry mem => ?_⟩
  obtain ⟨old, oldMem, rfl⟩ := sound.wellFormed.coherent.mem_entries_withOutputs.mp mem
  split <;> exact sound.made old oldMem

theorem Sound.setInput (sound : model.Sound) {id : NodeId} {values : Buffer} {after : Model}
    (set : model.setInput id values = .ok after) : after.Sound := by
  obtain ⟨entry, outputs, found, _, writes, rfl⟩ := setInput_eq_ok_iff.mp set
  exact sound.withOutputs (sound.wellFormed.setInput found writes)

theorem Sound.computeNode (sound : model.Sound) (id : NodeId) : (model.computeNode id).model.Sound := by
  have wellFormed := (sound.wellFormed.computeNode id).1
  unfold Model.computeNode at wellFormed ⊢
  split
  · exact sound
  · split
    · exact sound
    · rename_i found _ _ gathered
      simp only [found, gathered] at wellFormed
      exact sound.withOutputs wellFormed

theorem Sound.computeNodes (ids : List NodeId) (sound : model.Sound) :
    (Model.computeNodes ids model).model.Sound := by
  induction ids generalizing model with
  | nil => exact sound
  | cons id rest ih =>
      simp only [Model.computeNodes]
      split
      · exact sound.computeNode id
      · exact ih (sound.computeNode id)

theorem Sound.compute (sound : model.Sound) : model.compute.model.Sound :=
  sound.computeNodes model.ids

theorem Sound.clone (sound : model.Sound) : model.clone.Sound :=
  ⟨sound.wellFormed.clone, sound.wellFormed.ordered.entries_clone.2 ▸ sound.made⟩

/-- Giving a sink a callback changes none of its ports. -/
theorem Sound.attachCallback (sound : model.Sound) {id : NodeId} {name : String} {after : Model}
    (attached : model.attachCallback? id = some (name, after)) : after.Sound := by
  simp only [attachCallback?, Option.bind_eq_bind, Option.bind_eq_some_iff] at attached
  obtain ⟨node, found, matched⟩ := attached
  obtain ⟨entry, mem, rfl, rfl⟩ := sound.wellFormed.coherent.node?_eq_some_iff.mp found
  split at matched
  · rename_i type sink size notifies wiring nodeEq
    obtain ⟨rfl, rfl⟩ : sink = name ∧ _ = after := by simpa using matched
    have only : ∀ other ∈ model.entries, other.id = entry.id →
        other.node = ⟨.sink type sink size notifies, wiring⟩ := fun other otherMem same =>
      nodeEq ▸ congrArg Entry.node (sound.wellFormed.coherent.entry_unique otherMem mem same)
    refine ⟨sound.wellFormed.modifyEntry (fun _ => rfl) ?_ ?_ ?_, ?_⟩
    · intro other otherMem same
      rw [only other otherMem same]
      rfl
    · intro other otherMem same
      rw [only other otherMem same]
      rfl
    · exact fun other otherMem _ => sound.wellFormed.buffered other otherMem
    · intro other otherMem
      rw [replaceNode, sound.wellFormed.coherent.entries_modifyEntry] at otherMem
      obtain ⟨old, oldMem, rfl⟩ := List.mem_map.mp otherMem
      split
      · have made := sound.made entry mem
        rw [nodeEq] at made
        rcases made with standard | custom
        · cases standard with
          | sink _ _ _ input trigger single => exact .inl (.sink type sink true input trigger single)
        · simp [Operator.kind?] at custom
      · exact sound.made old oldMem
  · contradiction

end Model

end Dataflow
