import Dataflow.Proofs.Graph.History
import Dataflow.Proofs.Graph.Sorting
import Dataflow.Proofs.Graph.Verification

/-!
# Checking rewired models

A node of a model can be replaced in place by one that reads anything: later nodes, itself, or
nodes that are not there.  The check of a model finds this out.  It names the first reference that
does not go back to an earlier node, and a model without such references has its nodes in an order
that the sort keeps.
-/

namespace Dataflow

/-! ## Changes -/

/-- What can happen to a model: an operation, or a node is replaced in place without any check. -/
inductive Change
  | perform (operation : Operation)
  | replace (id : NodeId) (node : Node)

/-- The model after a change. -/
def Change.apply : Change → Model → Model
  | perform operation, model => operation.perform model
  | replace id node, model => model.replaceNode id node

namespace Model

/-- The model after several changes. -/
def changed (changes : List Change) (model : Model) : Model :=
  changes.foldl (fun model change => change.apply model) model

variable {model after : Model}

theorem Steps.ordered {operation : Operation} (steps : Steps model operation after)
    (ordered : model.Ordered) : after.Ordered := by
  cases steps with
  | refused _ => exact ordered
  | @added node _ =>
      have later : model.nextId ≤ (freshEntry model.nextId node).id := Nat.le_refl _
      exact ordered.append later
  | @inserted id node later _ =>
      have later : model.nextId ≤ (freshEntry id node).id := later
      exact ordered.append later
  | removed found _ => exact ordered.without found
  | written _ _ _ => exact ordered.modifyEntry fun _ => rfl
  | computed => exact ordered.compute
  | cloned => exact ordered.clone

theorem Ordered.apply (ordered : model.Ordered) (change : Change) : (change.apply model).Ordered := by
  cases change with
  | perform operation => exact (ordered.coherent.steps_perform operation).ordered ordered
  | replace id node => exact ordered.modifyEntry fun _ => rfl

theorem Ordered.changed (ordered : model.Ordered) (changes : List Change) :
    (model.changed changes).Ordered := by
  induction changes generalizing model with
  | nil => exact ordered
  | cons change rest ih => exact ih (ordered.apply change)

/-! ## References -/

/-- What the nodes read, in the order of nodes, input ports and elements, with the ids of the nodes
that read it. -/
def references (model : Model) : List (NodeId × Coordinate) :=
  model.entries.flatMap fun entry =>
    entry.node.inputs.flatMap fun input => input.elements.map (entry.id, ·)

theorem mem_references_iff {reference : NodeId × Coordinate} :
    reference ∈ model.references ↔
      ∃ entry ∈ model.entries, ∃ input ∈ entry.node.inputs, ∃ coordinate ∈ input.elements,
        (entry.id, coordinate) = reference := by
  simp [references]

/-- A reference names an earlier node of the model. -/
def GoesBack (model : Model) (reference : NodeId × Coordinate) : Prop :=
  reference.2.node < reference.1 ∧ reference.2.node ∈ model.ids

instance (model : Model) : DecidablePred model.GoesBack :=
  fun reference => inferInstanceAs
    (Decidable (reference.2.node < reference.1 ∧ reference.2.node ∈ model.ids))

/-- The check of an entry looks for its first reference that does not go back. -/
theorem Coherent.invalidReference?_eq (coherent : model.Coherent) (entry : Entry) :
    (model.invalidReference? entry).map (entry.id, ·) =
      (entry.node.inputs.flatMap fun input => input.elements.map (entry.id, ·)).find?
        fun reference => !decide (model.GoesBack reference) := by
  have same : ∀ coordinate : Coordinate,
      (decide (entry.id ≤ coordinate.node) || !model.contains coordinate.node) =
        !decide (model.GoesBack (entry.id, coordinate)) := by
    intro coordinate
    rw [Bool.eq_iff_iff]
    simp [GoesBack, ← coherent.contains_iff]
  simp only [invalidReference?, same, List.find?_flatMap, List.find?_map, List.map_findSome?]
  rfl

/-- The first part of the check finds the first reference that does not go back. -/
theorem Coherent.forM_invalidReference? (coherent : model.Coherent) (entries : List Entry) :
    (entries.forM fun entry =>
        match model.invalidReference? entry with
        | some coordinate => throw (.invalidReference entry.id coordinate)
        | none => pure () : Except ModelError Unit) =
      match (entries.flatMap fun entry =>
          entry.node.inputs.flatMap fun input => input.elements.map (entry.id, ·)).find?
            fun reference => !decide (model.GoesBack reference) with
      | some reference => .error (.invalidReference reference.1 reference.2)
      | none => .ok () := by
  induction entries with
  | nil => rfl
  | cons entry rest ih =>
      rw [List.forM_eq_forM] at ih ⊢
      rw [List.forM_cons, List.flatMap_cons, List.find?_append,
        ← coherent.invalidReference?_eq entry]
      cases model.invalidReference? entry with
      | none => simpa using ih
      | some coordinate => rfl

/-- A model with its references in order passes the check as far as its sort does. -/
theorem Coherent.verify_eq (coherent : model.Coherent) :
    model.verify =
      match model.references.find? fun reference => !decide (model.GoesBack reference) with
      | some reference => .error (.invalidReference reference.1 reference.2)
      | none => (fun _ => ()) <$> model.submodelOrder model.ids := by
  let order : Except ModelError Unit := do let _ ← model.submodelOrder model.ids
  have checked := coherent.forM_invalidReference? model.entries
  refine (congrArg (fun check => check >>= fun _ => order) checked).trans ?_
  rw [references]
  split
  · rfl
  · rw [← bind_pure_comp]
    rfl

/-! ## Order -/

/-- When all references go back, creation order is an order of the dependencies. -/
theorem Ordered.dependencyOrder_ids (ordered : model.Ordered)
    (goBack : ∀ reference ∈ model.references, model.GoesBack reference) :
    DependencyOrder model.dependencies model.ids := by
  refine ⟨ordered.ids_nodup, fun left id right split source read => ?_⟩
  obtain ⟨entry, mem, rfl, input, inputMem, coordinate, coordinateMem, rfl⟩ :=
    ordered.coherent.mem_dependencies_iff.mp read
  obtain ⟨earlier, present⟩ := goBack _
    (mem_references_iff.mpr ⟨entry, mem, input, inputMem, coordinate, coordinateMem, rfl⟩)
  -- the ids from the node on are not smaller than its own
  have increasing := split ▸ ordered.ids_increasing
  rw [List.pairwise_append, List.pairwise_cons] at increasing
  rw [split, List.mem_append, List.mem_cons] at present
  rcases present with before | here | later
  · exact before
  · exact absurd here (Nat.ne_of_lt earlier)
  · exact absurd (increasing.2.1.1 _ later) (Nat.lt_asymm earlier)

theorem Ordered.submodelOrder_ids (ordered : model.Ordered)
    (goBack : ∀ reference ∈ model.references, model.GoesBack reference) :
    model.submodelOrder model.ids = .ok model.ids := by
  have order : DependencyOrder model.dependencies model.ids := ordered.dependencyOrder_ids goBack
  exact mapError_eq_ok_iff.mpr (order.topologicalSort_eq model.ids)

/-- The check returns the first reference that does not go back, and nothing else can fail. -/
theorem Ordered.verify_eq_find? (ordered : model.Ordered) :
    model.verify =
      match model.references.find? fun reference => !decide (model.GoesBack reference) with
      | some reference => .error (.invalidReference reference.1 reference.2)
      | none => .ok () := by
  rw [ordered.coherent.verify_eq]
  split
  · rfl
  · rename_i none
    have goBack : ∀ reference ∈ model.references, model.GoesBack reference := by
      simpa using none
    rw [ordered.submodelOrder_ids goBack]
    rfl

theorem Ordered.verify_eq_ok_iff (ordered : model.Ordered) :
    model.verify = .ok () ↔ ∀ reference ∈ model.references, model.GoesBack reference := by
  rw [ordered.verify_eq_find?]
  split
  · rename_i reference found
    simp only [reduceCtorEq, false_iff]
    intro goBack
    have stray := List.find?_some found
    simp [goBack reference (List.mem_of_find?_eq_some found)] at stray
  · rename_i none
    simpa using none

/-- A failure names the first reference that does not go back. -/
theorem Ordered.verify_eq_error_iff (ordered : model.Ordered) {error : ModelError} :
    model.verify = .error error ↔
      ∃ left id coordinate right, model.references = left ++ (id, coordinate) :: right ∧
        (∀ reference ∈ left, model.GoesBack reference) ∧ ¬model.GoesBack (id, coordinate) ∧
        error = .invalidReference id coordinate := by
  have found_iff : ∀ id coordinate,
      model.references.find? (fun reference => !decide (model.GoesBack reference)) =
          some (id, coordinate) ↔
        ∃ left right, model.references = left ++ (id, coordinate) :: right ∧
          (∀ reference ∈ left, model.GoesBack reference) ∧ ¬model.GoesBack (id, coordinate) := by
    intro id coordinate
    simp only [List.find?_eq_some_iff_append, decide_eq_false_iff_not,
      Bool.not_eq_eq_eq_not, Bool.not_true, Bool.not_false, decide_eq_true_eq]
    exact ⟨fun ⟨stray, left, right, split, before⟩ => ⟨left, right, split, before, stray⟩,
      fun ⟨left, right, split, before, stray⟩ => ⟨stray, left, right, split, before⟩⟩
  rw [ordered.verify_eq_find?]
  constructor
  · intro failed
    split at failed
    · rename_i reference found
      obtain ⟨left, right, split, before, stray⟩ := (found_iff reference.1 reference.2).mp found
      exact ⟨left, _, _, right, split, before, stray, (Except.error.inj failed).symm⟩
    · contradiction
  · rintro ⟨left, id, coordinate, right, split, before, stray, rfl⟩
    rw [(found_iff id coordinate).mpr ⟨left, right, split, before, stray⟩]

/-- The check decides whether every node reads earlier nodes of the model, whatever happened to the
model, also when nodes were replaced in place.  It fails with the first reference that does not go
back and never with a cycle.  When it passes, the sort of all nodes leaves them in the order of
their creation. -/
theorem verify_decides (changes : List Change) :
    let model := empty.changed changes
    (model.verify = .ok () ↔
        ∀ entry ∈ model.entries, ∀ input ∈ entry.node.inputs, ∀ coordinate ∈ input.elements,
          coordinate.node < entry.id ∧ model.contains coordinate.node) ∧
      (∀ error, model.verify = .error error ↔
        ∃ left id coordinate right, model.references = left ++ (id, coordinate) :: right ∧
          (∀ reference ∈ left, model.GoesBack reference) ∧ ¬model.GoesBack (id, coordinate) ∧
          error = .invalidReference id coordinate) ∧
      (∀ cycle, model.verify ≠ .error (.cycleDetected cycle)) ∧
      (model.verify = .ok () → model.submodelOrder model.ids = .ok model.ids) := by
  intro model
  have ordered : model.Ordered := ordered_empty.changed changes
  refine ⟨?_, fun _ => ordered.verify_eq_error_iff, fun cycle failed => ?_,
    fun passed => ordered.submodelOrder_ids (ordered.verify_eq_ok_iff.mp passed)⟩
  · rw [ordered.verify_eq_ok_iff]
    simp only [mem_references_iff, GoesBack, ordered.coherent.contains_iff]
    constructor
    · exact fun goBack entry mem input inputMem coordinate coordinateMem =>
        goBack _ ⟨entry, mem, input, inputMem, coordinate, coordinateMem, rfl⟩
    · rintro goBack _ ⟨entry, mem, input, inputMem, coordinate, coordinateMem, rfl⟩
      exact goBack entry mem input inputMem coordinate coordinateMem
  · obtain ⟨_, _, _, _, _, _, _, different⟩ := ordered.verify_eq_error_iff.mp failed
    simp at different

end Model

end Dataflow
