import Dataflow.Proofs.Graph.Preservation

/-!
# Histories of models

Every model comes about by a sequence of operations on the empty model, of which some may
fail.  Whatever the history, the model is well formed, a failing edit has left it as it
was, and the ids that it hands out only grow.
-/

namespace Dataflow

/-- An operation on a model. -/
inductive Operation
  | add (node : Node)
  | insert (id : NodeId) (node : Node)
  | remove (id : NodeId)
  | setInput (id : NodeId) (values : Buffer)
  | compute
  | clone

namespace Operation

/-- What an operation does.  An addition returns the new id. -/
def action : Operation → Edit (Option NodeId)
  | add node => some <$> Edit.add node
  | insert id node => do
      Edit.insert id node
      return none
  | remove id => do
      let _ ← Edit.remove id
      return none
  | setInput id values => do
      Edit.setInput id values
      return none
  | compute => do
      let computation := (← get).compute
      set computation.model
      Edit.check computation.result
      return none
  | clone => do
      modify Model.clone
      return none

/-- The model after an operation, which may have failed. -/
def perform (operation : Operation) (model : Model) : Model :=
  (outcome operation.action model).2

end Operation

namespace Model

/-- The model after a history. -/
def after (history : List Operation) (model : Model) : Model :=
  history.foldl (fun model operation => operation.perform model) model

variable {model : Model}

/-- What an operation makes of a model.  An edit that fails leaves it as it was. -/
inductive Steps (model : Model) : Operation → Model → Prop
  | refused {operation : Operation} {error : ModelError}
      (failed : outcome operation.action model = (.error error, model)) :
      Steps model operation model
  | added {node : Node} (checked : model.checkInputs model.nextId node = .ok ()) :
      Steps model (.add node)
        { model.extend (freshEntry model.nextId node) with nextId := model.nextId + 1 }
  | inserted {id : NodeId} {node : Node} (later : model.nextId ≤ id)
      (checked : model.checkInputs id node = .ok ()) :
      Steps model (.insert id node) { model.extend (freshEntry id node) with nextId := id + 1 }
  | removed {key : NodeKey} {entry : Entry} (found : model.arena.get? key = some entry)
      (free : model.dependents entry.id = []) :
      Steps model (.remove entry.id) (model.without entry.id key)
  | written {id : NodeId} {values : Buffer} {entry : Entry} {outputs : List Buffer}
      (found : model.entry id = .ok entry) (writes : setOutput entry.outputs 0 values = .ok outputs)
      (done : outcome (Edit.setInput id values) model = (.ok (), model.withOutputs id outputs)) :
      Steps model (.setInput id values) (model.withOutputs id outputs)
  | computed : Steps model .compute model.compute.model
  | cloned : Steps model .clone model.clone

theorem perform_compute (model : Model) : Operation.compute.perform model = model.compute.model := by
  simp only [Operation.perform, Operation.action, outcome_bind, outcome_get, outcome_set]
  cases model.compute.result <;> rfl

/-- An operation of a history takes a step. -/
theorem Coherent.steps_perform (coherent : model.Coherent) (operation : Operation) :
    Steps model operation (operation.perform model) := by
  have refuse : ∀ {operation : Operation} (error : ModelError),
      outcome operation.action model = (.error error, model) →
      Steps model operation (operation.perform model) := by
    intro operation error failed
    rw [show operation.perform model = model from congrArg Prod.snd failed]
    exact .refused failed
  cases operation with
  | add node =>
      rcases outcome_insert model model.nextId node with ⟨error, failed⟩ | ⟨_, _, checked, done⟩
      · exact refuse error (by simp [Operation.action, Edit.add, outcome_map, outcome_bind, failed])
      · simp only [Operation.perform, Operation.action, Edit.add, outcome_map, outcome_bind,
          outcome_get, outcome_pure, done]
        exact .added checked
  | insert id node =>
      rcases outcome_insert model id node with ⟨error, failed⟩ | ⟨later, _, checked, done⟩
      · exact refuse error (by simp [Operation.action, outcome_map, failed])
      · simp only [Operation.perform, Operation.action, outcome_bind, outcome_pure, done]
        exact .inserted later checked
  | remove id =>
      rcases outcome_remove coherent id with
        ⟨error, failed⟩ | ⟨key, entry, found, rfl, free, done⟩
      · exact refuse error (by simp [Operation.action, outcome_map, failed])
      · simp only [Operation.perform, Operation.action, outcome_bind, outcome_pure, done]
        exact .removed found free
  | setInput id values =>
      rcases outcome_setInput model id values with
        ⟨error, failed⟩ | ⟨entry, outputs, found, _, writes, done⟩
      · exact refuse error (by simp [Operation.action, outcome_map, failed])
      · simp only [Operation.perform, Operation.action, outcome_bind, outcome_pure, done]
        exact .written found writes done
  | compute => exact perform_compute model ▸ .computed
  | clone => exact .cloned

theorem Steps.wellFormed {operation : Operation} {after : Model} (steps : Steps model operation after)
    (wellFormed : model.WellFormed) : after.WellFormed ∧ model.nextId ≤ after.nextId := by
  cases steps with
  | refused _ => exact ⟨wellFormed, Nat.le_refl _⟩
  | added checked => exact ⟨wellFormed.append (Nat.le_refl _) checked, Nat.le_succ _⟩
  | inserted later checked => exact ⟨wellFormed.append later checked, Nat.le_succ_of_le later⟩
  | removed found free => exact ⟨wellFormed.takeOut found free, Nat.le_refl _⟩
  | written found writes _ => exact ⟨wellFormed.setInput found writes, nextId_modifyEntry.ge⟩
  | computed => exact ⟨wellFormed.compute.1, wellFormed.compute.2.ge⟩
  | cloned => exact ⟨wellFormed.clone, Nat.le_refl _⟩

/-- An operation fails and leaves the model as it was, or it fails in the middle of a
computation, or it succeeds.  In every case the model stays well formed and the next id
does not fall. -/
theorem WellFormed.perform (wellFormed : model.WellFormed) (operation : Operation) :
    (operation.perform model).WellFormed ∧ model.nextId ≤ (operation.perform model).nextId :=
  (wellFormed.coherent.steps_perform operation).wellFormed wellFormed

theorem WellFormed.after (wellFormed : model.WellFormed) (history : List Operation) :
    (model.after history).WellFormed ∧ model.nextId ≤ (model.after history).nextId := by
  induction history generalizing model with
  | nil => exact ⟨wellFormed, Nat.le_refl _⟩
  | cons operation rest ih =>
      obtain ⟨stepped, grows⟩ := wellFormed.perform operation
      obtain ⟨result, growsOn⟩ := ih stepped
      exact ⟨result, grows.trans growsOn⟩

/-- A failing edit leaves the model as it was. -/
theorem WellFormed.unchanged_of_failed (wellFormed : model.WellFormed) {operation : Operation}
    {error : ModelError} {state : Model} (edits : operation ≠ .compute)
    (failed : outcome operation.action model = (.error error, state)) : state = model := by
  cases operation with
  | add node =>
      rcases outcome_insert model model.nextId node with ⟨_, refused⟩ | ⟨_, _, _, done⟩
      · simp only [Operation.action, Edit.add, outcome_map, outcome_bind, outcome_get, refused,
          Prod.mk.injEq] at failed
        exact failed.2.symm
      · simp [Operation.action, Edit.add, outcome_map, outcome_bind, done] at failed
  | insert id node =>
      rcases outcome_insert model id node with ⟨_, refused⟩ | ⟨_, _, _, done⟩
      · simp only [Operation.action, outcome_bind, refused, Prod.mk.injEq] at failed
        exact failed.2.symm
      · simp [Operation.action, outcome_map, done] at failed
  | remove id =>
      rcases outcome_remove wellFormed.coherent id with ⟨_, refused⟩ | ⟨_, _, _, _, _, done⟩
      · simp only [Operation.action, outcome_bind, refused, Prod.mk.injEq] at failed
        exact failed.2.symm
      · simp [Operation.action, outcome_map, done] at failed
  | setInput id values =>
      rcases outcome_setInput model id values with ⟨_, refused⟩ | ⟨_, _, _, _, _, done⟩
      · simp only [Operation.action, outcome_bind, refused, Prod.mk.injEq] at failed
        exact failed.2.symm
      · simp [Operation.action, outcome_map, done] at failed
  | compute => exact absurd rfl edits
  | clone => simp [Operation.action, outcome_map] at failed

/-- An addition hands out the next id and raises it. -/
theorem nextId_of_added {node : Node} {id : NodeId}
    (added : (outcome (Operation.add node).action model).1 = .ok (some id)) :
    id = model.nextId ∧ ((Operation.add node).perform model).nextId = id + 1 := by
  rcases outcome_insert model model.nextId node with ⟨_, refused⟩ | ⟨_, _, _, done⟩
  · simp [Operation.action, Edit.add, outcome_map, outcome_bind, refused] at added
  · simp only [Operation.action, Operation.perform, Edit.add, outcome_map, outcome_bind,
      outcome_get, outcome_pure, done, Except.ok.injEq, Option.some.injEq] at added ⊢
    exact ⟨added.symm, by rw [added]⟩

/-- The invariant of models: whatever was done to the empty model, the parts of the
result fit together, a failing edit changes nothing, and no id is handed out twice. -/
theorem invariant_after (history : List Operation) :
    (empty.after history).WellFormed ∧
      (∀ (operation : Operation) error state, operation ≠ .compute →
        outcome operation.action (empty.after history) = (.error error, state) →
          state = empty.after history) ∧
      ∀ first id later second other,
        (outcome (Operation.add first).action (empty.after history)).1 = .ok (some id) →
        (outcome (Operation.add second).action
          (((Operation.add first).perform (empty.after history)).after later)).1 =
            .ok (some other) →
          id < other := by
  have wellFormed := (wellFormed_empty.after history).1
  refine ⟨wellFormed, fun operation error state edits failed =>
    wellFormed.unchanged_of_failed edits failed, ?_⟩
  intro first id later second other added again
  have raised := (nextId_of_added added).2
  have stepped := (wellFormed.perform (.add first)).1
  calc
    id < id + 1 := Nat.lt_succ_self id
    _ = ((Operation.add first).perform (empty.after history)).nextId := raised.symm
    _ ≤ (((Operation.add first).perform (empty.after history)).after later).nextId :=
      (stepped.after later).2
    _ = other := (nextId_of_added again).1.symm

end Model

end Dataflow
