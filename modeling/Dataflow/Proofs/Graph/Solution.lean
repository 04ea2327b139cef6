import Dataflow.Proofs.Graph.Assigning
import Dataflow.Proofs.Graph.Remembering
import Dataflow.Proofs.Pass.Refining
import Dataflow.Proofs.Reachable

/-!
# Solutions

Every node of a model is an equation for its buffer: what its operator computes from the values of
its inputs.  Input nodes are the unknowns that are given.  Since nodes only read earlier nodes, the
equations have one solution for each choice of the given buffers, and computing the model finds it,
whatever the other buffers held.
-/

namespace Dataflow

namespace Model

variable {model other : Model}

/-! ## Uniqueness -/

/-- Two models hold the same in their input nodes. -/
def SameInputs (model other : Model) : Prop :=
  ∀ id ∈ model.inputNodes, other.outputValues ⟨id, 0⟩ = model.outputValues ⟨id, 0⟩

theorem mem_inputNodes_iff {id : NodeId} :
    id ∈ model.inputNodes ↔
      ∃ entry ∈ model.entries, entry.id = id ∧ entry.node.capabilities.input = true := by
  simp only [inputNodes, List.mem_map, List.mem_filter]
  constructor
  · rintro ⟨entry, ⟨mem, input⟩, same⟩
    exact ⟨entry, mem, same, input⟩
  · rintro ⟨entry, mem, same, input⟩
    exact ⟨entry, ⟨mem, input⟩, same⟩

theorem inputNodes_eq_of_skeleton_eq (same : other.skeleton = model.skeleton) :
    other.inputNodes = model.inputNodes := by
  rw [← inputIds_skeleton, ← inputIds_skeleton, same]

/-- Two models that are settled, with the same nodes and the same input buffers. -/
structure Alike (model other : Model) : Prop where
  wellFormed : model.WellFormed
  standard : model.Standard
  settled : model.Settled
  otherWellFormed : other.WellFormed
  otherSettled : other.Settled
  skeleton_eq : other.skeleton = model.skeleton
  inputs : model.SameInputs other

theorem Alike.symm (alike : Alike model other) : Alike other model where
  wellFormed := alike.otherWellFormed
  standard := alike.standard.of_skeleton_eq alike.skeleton_eq
  settled := alike.otherSettled
  otherWellFormed := alike.wellFormed
  otherSettled := alike.settled
  skeleton_eq := alike.skeleton_eq.symm
  inputs := fun id mem => (alike.inputs id (inputNodes_eq_of_skeleton_eq alike.skeleton_eq ▸ mem)).symm

/-- A node of the second model holds what its twin in the first one holds, if the models agree on
all earlier nodes: both hold what the operator makes of the same inputs, or both are given. -/
theorem Alike.mem_of_agree (alike : Alike model other) {entry : Entry}
    (agree : AgreeBelow entry.id model other) (mem : entry ∈ other.entries) :
    entry ∈ model.entries := by
  obtain ⟨twin, twinMem, sameId, sameNode⟩ := exists_of_skeleton_eq alike.skeleton_eq.symm mem
  have sameInputs := agree.gatherInputs_eq alike.wellFormed alike.otherWellFormed.coherent twinMem
    (Nat.le_of_eq sameId)
  have given : twin.node.capabilities.input = true → entry.outputs = twin.outputs := by
    intro input
    obtain ⟨values, twinHolds⟩ := alike.wellFormed.exists_outputs_eq alike.standard twinMem
    obtain ⟨others, holds⟩ :=
      alike.otherWellFormed.exists_outputs_eq (alike.standard.of_skeleton_eq alike.skeleton_eq) mem
    have equal := alike.inputs entry.id (mem_inputNodes_iff.mpr ⟨twin, twinMem, sameId, input⟩)
    rw [alike.otherWellFormed.coherent.outputValues_of_mem mem holds, ← sameId,
      alike.wellFormed.coherent.outputValues_of_mem twinMem twinHolds] at equal
    rw [holds, twinHolds, Except.ok.inj equal]
  rw [alike.settled.eq_of_gatherInputs_eq alike.otherSettled twinMem mem (alike.standard twin twinMem)
    ⟨sameId.symm, sameNode.symm, given⟩ sameInputs]
  exact twinMem

/-- The induction is on the bound: a node only reads nodes below it. -/
theorem Alike.agreeBelow (alike : Alike model other) (bound : NodeId) :
    AgreeBelow bound model other := by
  induction bound with
  | zero => exact fun entry below => absurd below (Nat.not_lt_zero _)
  | succ bound ih =>
      intro entry below
      have agree : AgreeBelow entry.id model other := fun earlier earlierBelow =>
        ih earlier (Nat.lt_of_lt_of_le earlierBelow (Nat.le_of_lt_succ below))
      exact ⟨alike.mem_of_agree agree,
        alike.symm.mem_of_agree fun earlier earlierBelow => (agree earlier earlierBelow).symm⟩

/-- The equations have one solution: settled models with the same nodes and the same input buffers
have the same buffers. -/
theorem Alike.entries_eq (alike : Alike model other) : other.entries = model.entries := by
  have lengths : other.entries.length = model.entries.length := by
    simpa [skeleton] using congrArg List.length alike.skeleton_eq
  refine List.ext_getElem lengths fun index inOther inModel => ?_
  have mem : other.entries[index] ∈ model.entries :=
    (alike.agreeBelow (other.entries[index].id + 1) _ (Nat.lt_succ_self _)).mp
      (List.getElem_mem inOther)
  have same : (other.skeleton[index]?) = model.skeleton[index]? := by rw [alike.skeleton_eq]
  simp only [skeleton, List.getElem?_map, List.getElem?_eq_getElem inOther,
    List.getElem?_eq_getElem inModel, Option.map_some, Option.some.injEq, Prod.mk.injEq] at same
  exact alike.wellFormed.coherent.entry_unique mem (List.getElem_mem inModel) same.1

/-! ## Computing again -/

/-- Replacing the buffers of an entry by the same ones changes nothing. -/
theorem Coherent.withOutputs_self (coherent : model.Coherent) {entry : Entry}
    (mem : entry ∈ model.entries) : model.withOutputs entry.id entry.outputs = model := by
  obtain ⟨key, found⟩ := coherent.mem_entries_iff.mp mem
  have keyed : model.key? entry.id = some key := coherent.key?_eq_some_iff.mpr ⟨entry, found, rfl⟩
  have place : model.arena.places[key]? = some (some entry) := by
    simpa [Arena.get?, Option.join_eq_some_iff] using found
  have same : model.arena.modify key (fun entry' => { entry' with outputs := entry.outputs }) =
      model.arena := by
    rw [Arena.modify, Arena.mk.injEq]
    refine Array.ext_getElem? fun index => ?_
    rw [Array.getElem?_modify]
    split
    · rename_i here
      rw [← here, place]
      rfl
    · rfl
  simp only [withOutputs, Model.modifyEntry, keyed, same]

/-- Computing a node of a settled model changes nothing, and it notifies as the buffers say. -/
theorem Settled.computeNode_eq (settled : model.Settled) (wellFormed : model.WellFormed)
    (standard : model.Standard) {entry : Entry} (mem : entry ∈ model.entries) :
    model.computeNode entry.id = ⟨model, model.deliveries entry, .ok ()⟩ := by
  obtain ⟨inputs, result, gathered, computed, _, computation⟩ :=
    wellFormed.computeNode_eq mem (standard entry mem)
  have same : (result.elim entry.outputs fun values => [values]) = entry.outputs := by
    cases result with
    | none => rfl
    | some values => exact (settled.outputs_eq mem gathered computed).symm
  rw [computation, same, wellFormed.coherent.withOutputs_self mem, deliveries, gathered]

theorem Settled.computeNodes_eq (settled : model.Settled) (wellFormed : model.WellFormed)
    (standard : model.Standard) {entries : List Entry} (sub : entries ⊆ model.entries) :
    Model.computeNodes (entries.map Entry.id) model =
      ⟨model, entries.flatMap model.deliveries, .ok ()⟩ := by
  induction entries with
  | nil => rfl
  | cons entry rest ih =>
      rw [List.map_cons, Model.computeNodes,
        settled.computeNode_eq wellFormed standard (sub List.mem_cons_self),
        ih fun other mem => sub (List.mem_cons_of_mem _ mem), List.flatMap_cons]

/-- A settled model is a fixed point of its computation. -/
theorem Settled.compute_eq (settled : model.Settled) (wellFormed : model.WellFormed)
    (standard : model.Standard) :
    model.compute = ⟨model, model.entries.flatMap model.deliveries, .ok ()⟩ :=
  settled.computeNodes_eq wellFormed standard (List.Subset.refl _)

/-! ## Callbacks -/

/-- What the callback of a sink is told in the current state: the values of its input, if the
value of its trigger is true. -/
def announcement? (model : Model) (entry : Entry) : Option Notice :=
  match entry.node with
  | ⟨.sink type name _ true, [input, [trigger]]⟩ =>
      match model.value trigger, model.gather input type with
      | .ok (.bool true), .ok values => some (.delivered name values)
      | _, _ => none
  | _ => none

/-- A trigger is gathered as the one boolean that its coordinate has. -/
theorem gather_trigger {trigger : Coordinate} {values : Buffer}
    (gathered : model.gather [trigger] .bool = .ok values) :
    ∃ set, values = .bool #[set] ∧ model.value trigger = .ok (.bool set) := by
  obtain ⟨typed, read⟩ := gather_eq_ok_iff.mp gathered
  obtain ⟨scalar, _, value, rest, all⟩ := List.forall₂_cons_left_iff.mp read
  obtain rfl := List.forall₂_nil_left_iff.mp rest
  cases values with
  | f32 _ => simp [Buffer.type] at typed
  | f64 _ => simp [Buffer.type] at typed
  | bool bools =>
      obtain ⟨bools⟩ := bools
      simp only [Buffer.toList, List.map_eq_singleton_iff] at all
      obtain ⟨set, rfl, rfl⟩ := all
      exact ⟨set, rfl, value⟩

/-- A sink delivers what its announcement says, and other standard nodes deliver nothing. -/
theorem WellFormed.deliveries_eq (wellFormed : model.WellFormed) {entry : Entry}
    (mem : entry ∈ model.entries) (standard : entry.node.Standard) :
    model.deliveries entry = (model.announcement? entry).toList := by
  obtain ⟨inputs, gathered⟩ := wellFormed.exists_gatherInputs mem
  rw [deliveries, gathered]
  obtain ⟨id, node, outputs⟩ := entry
  cases standard with
  | sink type name notifies input trigger single =>
      obtain ⟨only, rfl⟩ := List.length_eq_one_iff.mp single
      obtain ⟨values, _, read, others, rfl⟩ :=
        List.forall₂_cons_left_iff.mp (gatherInputs_eq_ok_iff.mp gathered)
      obtain ⟨trigger, _, triggerRead, rest, rfl⟩ := List.forall₂_cons_left_iff.mp others
      obtain rfl := List.forall₂_nil_left_iff.mp rest
      obtain ⟨set, rfl, value⟩ := gather_trigger triggerRead
      have typed : values.type = type := (gather_eq_ok_iff.mp read).1
      simp only at read
      cases notifies <;> cases set <;>
        simp [Operator.deliveries, announcement?, value, read, typed]
  | _ => rfl

theorem WellFormed.announcements_eq (wellFormed : model.WellFormed) (standard : model.Standard) :
    model.entries.flatMap model.deliveries = model.entries.filterMap model.announcement? := by
  rw [List.filterMap_eq_flatMap_toList]
  exact List.flatMap_congr fun entry mem => wellFormed.deliveries_eq mem (standard entry mem)

/-! ## Computing -/

/-- An entry satisfies the equation of its node: from the current values of its inputs, the node
computes exactly what the entry holds, whatever buffers it starts from.  Only an input node starts
from what it holds. -/
def Balanced (model : Model) (entry : Entry) : Prop :=
  ∃ inputs, model.gatherInputs entry.node = .ok inputs ∧
    ∀ buffers, List.Forall₂ Buffer.Fits buffers entry.node.outputs →
      (entry.node.capabilities.input = true → buffers = entry.outputs) →
      (entry.node.operator.evaluate inputs buffers).outputs = entry.outputs ∧
        (entry.node.operator.evaluate inputs buffers).result = .ok ()

theorem Settled.balanced (settled : model.Settled) (standard : model.Standard) {entry : Entry}
    (mem : entry ∈ model.entries) : model.Balanced entry := by
  obtain ⟨inputs, result, gathered, computed, holds⟩ := settled entry mem
  obtain ⟨_, evaluated, isInput, fitting⟩ :=
    (standard entry mem).exists_value (feeds_of_gatherInputs gathered)
  rw [Except.ok.inj (evaluated.symm.trans computed)] at isInput fitting
  refine ⟨inputs, gathered, fun buffers fits given => ?_⟩
  rw [evaluate_of_value (standard entry mem) fits computed fitting]
  cases result with
  | none => exact ⟨given (isInput.mpr rfl), rfl⟩
  | some values => exact ⟨(holds values rfl).symm, rfl⟩

/-- The outcome of a computation that solves the model: it succeeds, it keeps the nodes and the
buffers of the input nodes, every node satisfies its equation in the resulting state, and the
callbacks are those that this state announces, in creation order. -/
structure Solution (model : Model) (computation : Computation) : Prop where
  succeeds : computation.result = .ok ()
  refreshed : List.Forall₂ Refreshed model.entries computation.model.entries
  balanced : ∀ entry ∈ computation.model.entries, computation.model.Balanced entry
  announced :
    computation.notices = computation.model.entries.filterMap computation.model.announcement?

/-- Computing a well-formed model of standard nodes solves it. -/
theorem WellFormed.solution (wellFormed : model.WellFormed) (standard : model.Standard) :
    model.Solution model.compute := by
  obtain ⟨succeeds, computed, settled, refreshed, notices⟩ := wellFormed.compute_standard standard
  have same : model.compute.model.skeleton = model.skeleton := skeleton_eq_of_refreshed refreshed
  have computedStandard := standard.of_skeleton_eq same
  exact ⟨succeeds, refreshed, fun entry mem => settled.balanced computedStandard mem,
    notices.trans (computed.announcements_eq computedStandard)⟩

/-- A computation leaves input nodes as they are. -/
theorem Refreshed.eq_of_input {before after : Entry} (refreshed : Refreshed before after)
    (input : after.node.capabilities.input = true) : after = before := by
  obtain ⟨id, node, kept⟩ := refreshed
  cases before
  cases after
  simp only at id node kept input
  subst id node
  rw [kept input]

theorem Solution.mem_of_input {computation : Computation} (solution : model.Solution computation)
    {entry : Entry} (mem : entry ∈ computation.model.entries)
    (input : entry.node.capabilities.input = true) : entry ∈ model.entries := by
  obtain ⟨before, beforeMem, refreshed⟩ := exists_of_mem_right solution.refreshed mem
  exact refreshed.eq_of_input input ▸ beforeMem

theorem Solution.outputValues_of_input {computation : Computation}
    (solution : model.Solution computation) (wellFormed : model.WellFormed)
    (standard : model.Standard) (computed : computation.model.WellFormed) {id : NodeId}
    (input : id ∈ model.inputNodes) :
    computation.model.outputValues ⟨id, 0⟩ = model.outputValues ⟨id, 0⟩ := by
  have same : computation.model.skeleton = model.skeleton :=
    skeleton_eq_of_refreshed solution.refreshed
  rw [← inputNodes_eq_of_skeleton_eq same] at input
  obtain ⟨entry, mem, rfl, isInput⟩ := mem_inputNodes_iff.mp input
  have before := solution.mem_of_input mem isInput
  obtain ⟨values, holds⟩ := wellFormed.exists_outputs_eq standard before
  rw [computed.coherent.outputValues_of_mem mem holds,
    wellFormed.coherent.outputValues_of_mem before holds]

/-- Models with the same entries announce the same, wherever their nodes lie. -/
theorem Coherent.announcement?_eq (coherent : model.Coherent) (otherCoherent : other.Coherent)
    (same : other.entries = model.entries) : other.announcement? = model.announcement? := by
  have value : ∀ coordinate, other.value coordinate = model.value coordinate := fun coordinate =>
    AgreeBelow.value_eq (fun _ _ => by rw [same]) coherent otherCoherent
      (Nat.lt_succ_self coordinate.node)
  have gathered : ∀ elements type, other.gather elements type = model.gather elements type :=
    fun elements type => gather_congr fun coordinate _ => value coordinate
  funext entry
  simp only [announcement?, value, gathered]

/-- Models with the same nodes and the same input buffers compute the same, whatever their other
buffers hold. -/
theorem WellFormed.compute_congr (wellFormed : model.WellFormed) (standard : model.Standard)
    (otherWellFormed : other.WellFormed) (same : other.skeleton = model.skeleton)
    (inputs : model.SameInputs other) :
    other.compute.model.entries = model.compute.model.entries ∧
      other.compute.notices = model.compute.notices := by
  have otherStandard := standard.of_skeleton_eq same
  have solution := wellFormed.solution standard
  have otherSolution := otherWellFormed.solution otherStandard
  obtain ⟨_, computed, settled, refreshed, _⟩ := wellFormed.compute_standard standard
  obtain ⟨_, otherComputed, otherSettled, otherRefreshed, _⟩ :=
    otherWellFormed.compute_standard otherStandard
  have keeps : model.compute.model.skeleton = model.skeleton := skeleton_eq_of_refreshed refreshed
  have otherKeeps : other.compute.model.skeleton = other.skeleton :=
    skeleton_eq_of_refreshed otherRefreshed
  have alike : Alike model.compute.model other.compute.model :=
    { wellFormed := computed
      standard := standard.of_skeleton_eq keeps
      settled := settled
      otherWellFormed := otherComputed
      otherSettled := otherSettled
      skeleton_eq := (otherKeeps.trans same).trans keeps.symm
      inputs := by
        intro id mem
        rw [inputNodes_eq_of_skeleton_eq keeps] at mem
        have otherMem : id ∈ other.inputNodes := by rwa [inputNodes_eq_of_skeleton_eq same]
        rw [solution.outputValues_of_input wellFormed standard computed mem,
          otherSolution.outputValues_of_input otherWellFormed otherStandard otherComputed otherMem,
          inputs id mem] }
  refine ⟨alike.entries_eq, ?_⟩
  rw [otherSolution.announced, solution.announced, alike.entries_eq,
    computed.coherent.announcement?_eq otherComputed.coherent alike.entries_eq]

/-- Computing a model solves it.  For every reachable model of standard nodes the computation
succeeds and is a solution.  The input nodes hold what was last written to them.  Any model with
the same nodes and the same input buffers computes the same buffers and calls the same callbacks.
A second computation changes nothing and calls the same callbacks again. -/
theorem compute_solves (reachable : model.Reachable)
    (kinds : ∀ entry ∈ model.entries, entry.node.operator.kind?.isSome) :
    model.Solution model.compute ∧
      (∀ (source : Model) (history : List Operation), source.Reachable →
        source.after history = model → ∀ entry ∈ model.compute.model.entries,
          entry.node.capabilities.input = true →
            source.Remembers (lastWritten? entry.id history source) entry) ∧
      (∀ other : Model, other.WellFormed → other.skeleton = model.skeleton →
        model.SameInputs other →
          other.compute.model.entries = model.compute.model.entries ∧
            other.compute.notices = model.compute.notices) ∧
      model.compute.model.compute = model.compute := by
  have wellFormed := reachable.sound.wellFormed
  have standard : model.Standard := fun entry mem =>
    (reachable.sound.made entry mem).standard (kinds entry mem)
  have solution := wellFormed.solution standard
  obtain ⟨succeeds, computed, settled, refreshed, notices⟩ := wellFormed.compute_standard standard
  refine ⟨solution, ?_, ?_, ?_⟩
  · rintro source history sourceReachable rfl entry mem input
    have before := solution.mem_of_input mem input
    obtain ⟨type, size, node⟩ := (standard entry before).input_of_capabilities input
    exact sourceReachable.sound.wellFormed.remembers history node before
  · exact fun other otherWellFormed same inputs =>
      wellFormed.compute_congr standard otherWellFormed same inputs
  · rw [settled.compute_eq computed
      (standard.of_skeleton_eq (skeleton_eq_of_refreshed refreshed)), ← notices, ← succeeds]

theorem reachable_announcer : announcer.Reachable := by
  have first : Reachable _ := Reachable.empty.add (.inl (.input .f64 1)) (rfl : _ = Except.ok (0, _))
  have second : Reachable _ :=
    first.add (.inl (standard_constant (.bool #[true]))) (rfl : _ = Except.ok (1, _))
  have third : Reachable _ := second.add (.inl (.input .bool 1)) (rfl : _ = Except.ok (2, _))
  have gap : Reachable _ := third.remove (rfl : Model.remove _ 2 = .ok (.input .bool 1, _))
  have fourth : Reachable _ := gap.add
    (.inl (.coordinatewise .f64 .shift #[1] [⟨0, 0, 0⟩] rfl)) (rfl : _ = Except.ok (3, _))
  exact fourth.add
    (.inl (.sink .f64 "heard" true [⟨3, 0, 0⟩] [⟨1, 0, 0⟩] rfl)) (rfl : _ = Except.ok (4, _))

/-- The announcer is solved with the value that was written to its input. -/
theorem compute_solves_announcer :
    ∃ model, announcer.setInput 0 (.f64 #[1]) = .ok model ∧ model.Solution model.compute ∧
      (∀ entry ∈ model.compute.model.entries, entry.id = 0 → entry.outputs = [.f64 #[1]]) ∧
      model.compute.model.compute = model.compute := by
  have set : announcer.setInput 0 (.f64 #[1]) =
      .ok (announcer.after [.setInput 0 (.f64 #[1])]) := rfl
  refine ⟨_, set, ?_⟩
  obtain ⟨solution, remembers, _, again⟩ :=
    compute_solves (reachable_announcer.setInput set) (by decide)
  refine ⟨solution, fun entry mem id => ?_, again⟩
  obtain ⟨before, beforeMem, refreshed⟩ := exists_of_mem_right solution.refreshed mem
  have input : ∀ entry ∈ (announcer.after [.setInput 0 (.f64 #[1])]).entries, entry.id = 0 →
      entry.node.capabilities.input = true := by decide
  have last : lastWritten? 0 [.setInput 0 (.f64 #[1])] announcer = some (.f64 #[1]) := rfl
  have origin := remembers announcer _ reachable_announcer rfl entry mem
    (refreshed.node_eq ▸ input before beforeMem (refreshed.id_eq ▸ id))
  rw [id, last] at origin
  cases origin with
  | written same holds => rw [holds, Option.some.inj same]
  | kept unwritten => contradiction
  | fresh unwritten => contradiction

end Model

end Dataflow
