import Dataflow.Proofs.Graph.History

/-!
# What input nodes remember

Only a write to an input node changes its buffer.  Whatever was done to a model, an input node
holds the values of the last write to it that succeeded.  Without such a write it holds what it
held before, or zeros when it was added meanwhile.
-/

namespace Dataflow

/-- The values that an operation writes to a node.  A failing write writes nothing. -/
def Operation.written? (operation : Operation) (model : Model) (id : NodeId) : Option Buffer :=
  match operation with
  | setInput target values =>
      if target = id ∧ (model.setInput target values).isOk then some values else none
  | _ => none

namespace Model

/-- The values of the last successful write to a node in a history of a model. -/
def lastWritten? (id : NodeId) : List Operation → Model → Option Buffer
  | [], _ => none
  | operation :: rest, model =>
      (lastWritten? id rest (operation.perform model)).or (operation.written? model id)

/-- Where the buffers of a node come from after a history in which some values, if any, were
written to it last: from that write, from the model before the history, or from the addition of
the node. -/
inductive Remembers (model : Model) (written : Option Buffer) (entry : Entry) : Prop
  | written {values : Buffer} (last : written = some values) (holds : entry.outputs = [values])
  | kept (unwritten : written = none) (mem : entry ∈ model.entries)
  | fresh (unwritten : written = none) (later : model.nextId ≤ entry.id)
      (holds : entry = freshEntry entry.id entry.node)

variable {model : Model}

/-! ## Writing -/

theorem isOk_setInput_iff {id : NodeId} {values : Buffer} :
    (model.setInput id values).isOk = true ↔
      ∃ state, outcome (Edit.setInput id values) model = (.ok (), state) := by
  constructor
  · intro succeeds
    cases set : model.setInput id values with
    | error error => simp [set, Except.isOk, Except.toBool] at succeeds
    | ok after =>
        simp only [setInput, bind_eq_ok_iff, pure_eq_ok_iff, Prod.exists, edit_eq_ok_iff,
          Succeeds] at set
        obtain ⟨_, state, done, _⟩ := set
        exact ⟨state, done⟩
  · rintro ⟨state, done⟩
    have set : model.setInput id values = .ok state := by
      simp only [setInput, bind_eq_ok_iff, pure_eq_ok_iff, Prod.exists, edit_eq_ok_iff, Succeeds]
      exact ⟨(), state, done, rfl⟩
    rw [set]
    rfl

/-- What is written is written to a node of the model. -/
theorem WellFormed.lt_nextId_of_written? (wellFormed : model.WellFormed) {operation : Operation}
    {id : NodeId} {values : Buffer} (written : operation.written? model id = some values) :
    id < model.nextId := by
  unfold Operation.written? at written
  split at written
  · rename_i target attempted
    split at written
    · rename_i succeeds
      obtain ⟨rfl, succeeds⟩ := succeeds
      obtain ⟨state, done⟩ := isOk_setInput_iff.mp succeeds
      rcases outcome_setInput model target attempted with
        ⟨error, failed⟩ | ⟨entry, _, found, _, _, _⟩
      · simp [failed] at done
      · obtain ⟨mem, same⟩ := wellFormed.coherent.entry_eq_ok_iff.mp found
        exact wellFormed.ids_below target (mem_ids_iff.mpr ⟨entry, mem, same⟩)
    · contradiction
  · contradiction

/-- Writing to an input node replaces its only buffer. -/
theorem WellFormed.outputs_eq_of_setOutput (wellFormed : model.WellFormed) {entry : Entry}
    (mem : entry ∈ model.entries) {type : ScalarType} {size : Nat}
    (input : entry.node = Node.input type size) {values : Buffer} {outputs : List Buffer}
    (writes : setOutput entry.outputs 0 values = .ok outputs) : outputs = [values] := by
  have fits := fits_of_setOutput (wellFormed.buffered entry mem) writes
  have before := wellFormed.buffered entry mem
  rw [input] at fits before
  obtain ⟨slot, rest, _, restFits, old⟩ := List.forall₂_cons_right_iff.mp before
  obtain rfl := List.forall₂_nil_right_iff.mp restFits
  rw [old] at writes
  unfold setOutput at writes
  simp only [List.getElem?_cons_zero] at writes
  split at writes
  · contradiction
  · split at writes
    · contradiction
    · exact (Except.ok.inj writes).symm

/-! ## Computing -/

/-- Computing does not touch input nodes, also when it fails. -/
theorem WellFormed.mem_of_computeNode (wellFormed : model.WellFormed) {id : NodeId} {entry : Entry}
    {type : ScalarType} {size : Nat} (input : entry.node = Node.input type size)
    (mem : entry ∈ (model.computeNode id).model.entries) : entry ∈ model.entries := by
  unfold Model.computeNode at mem
  split at mem
  · exact mem
  · rename_i found foundEq
    split at mem
    · exact mem
    · rename_i inputs _
      obtain ⟨foundMem, rfl⟩ := wellFormed.coherent.entry_eq_ok_iff.mp foundEq
      obtain ⟨old, oldMem, rfl⟩ := wellFormed.coherent.mem_entries_withOutputs.mp mem
      split at input
      · rename_i same
        obtain rfl := wellFormed.coherent.entry_unique oldMem foundMem same
        -- an input operator leaves the buffers as they are
        have unchanged : (old.node.operator.evaluate inputs old.outputs).outputs = old.outputs := by
          rw [input]
          rfl
        rwa [if_pos rfl, unchanged]
      · rename_i different
        rwa [if_neg different]

theorem WellFormed.mem_of_computeNodes (ids : List NodeId) (wellFormed : model.WellFormed)
    {entry : Entry} {type : ScalarType} {size : Nat} (input : entry.node = Node.input type size)
    (mem : entry ∈ (Model.computeNodes ids model).model.entries) : entry ∈ model.entries := by
  induction ids generalizing model with
  | nil => exact mem
  | cons id rest ih =>
      unfold Model.computeNodes at mem
      simp only at mem
      split at mem
      · exact wellFormed.mem_of_computeNode input mem
      · exact wellFormed.mem_of_computeNode input (ih (wellFormed.computeNode id).1 mem)

/-! ## Histories -/

/-- A failing operation writes nothing. -/
theorem written?_of_failed {operation : Operation} {error : ModelError}
    (failed : outcome operation.action model = (.error error, model)) (id : NodeId) :
    operation.written? model id = none := by
  cases operation with
  | setInput target values =>
      refine if_neg fun ⟨_, succeeds⟩ => ?_
      obtain ⟨state, done⟩ := isOk_setInput_iff.mp succeeds
      simp [Operation.action, outcome_map, done] at failed
  | _ => rfl

/-- One operation: it writes to the node, or it adds the node, or it leaves it alone. -/
theorem WellFormed.remembers_perform (wellFormed : model.WellFormed) (operation : Operation)
    {entry : Entry} {type : ScalarType} {size : Nat} (input : entry.node = Node.input type size)
    (mem : entry ∈ (operation.perform model).entries) :
    model.Remembers (operation.written? model entry.id) entry := by
  have inserted : ∀ id node, model.nextId ≤ id →
      entry ∈ (model.extend (freshEntry id node)).entries → model.Remembers none entry := by
    intro id node later mem
    rw [wellFormed.coherent.entries_extend, List.mem_append, List.mem_singleton] at mem
    rcases mem with old | rfl
    · exact .kept rfl old
    · exact .fresh rfl later rfl
  have steps := wellFormed.coherent.steps_perform operation
  generalize operation.perform model = after at steps mem
  cases steps with
  | refused failed => exact .kept (written?_of_failed failed entry.id) mem
  | added _ => exact inserted _ _ (Nat.le_refl _) mem
  | inserted later _ => exact inserted _ _ later mem
  | removed found _ =>
      rw [wellFormed.coherent.entries_without found] at mem
      exact .kept rfl (List.mem_filter.mp mem).1
  | written found writes done =>
      have succeeds := isOk_setInput_iff.mpr ⟨_, done⟩
      obtain ⟨targetMem, rfl⟩ := wellFormed.coherent.entry_eq_ok_iff.mp found
      obtain ⟨old, oldMem, rfl⟩ := wellFormed.coherent.mem_entries_withOutputs.mp mem
      split at input
      · rename_i same
        obtain rfl := wellFormed.coherent.entry_unique oldMem targetMem same
        rw [if_pos rfl]
        exact .written (by simp [Operation.written?, succeeds])
          (wellFormed.outputs_eq_of_setOutput oldMem input writes)
      · rename_i different
        rw [if_neg different]
        exact .kept (by simp [Operation.written?, Ne.symm different]) oldMem
  | computed => exact .kept rfl (wellFormed.mem_of_computeNodes model.ids input mem)
  | cloned => exact .kept rfl (wellFormed.ordered.entries_clone.2 ▸ mem)

/-- Whatever is done to a model, its input nodes hold what was last written to them.  The
induction is on the history: what its rest does not write to a node was there after the first
operation, and what was added later cannot have been written before. -/
theorem WellFormed.remembers (wellFormed : model.WellFormed) (history : List Operation)
    {entry : Entry} {type : ScalarType} {size : Nat} (input : entry.node = Node.input type size)
    (mem : entry ∈ (model.after history).entries) :
    model.Remembers (lastWritten? entry.id history model) entry := by
  induction history generalizing model with
  | nil => exact .kept rfl mem
  | cons operation rest ih =>
      obtain ⟨stepped, grows⟩ := wellFormed.perform operation
      cases ih stepped mem with
      | written last holds => exact .written (by simp [lastWritten?, last]) holds
      | kept unwritten before =>
          have first := wellFormed.remembers_perform operation input before
          rwa [lastWritten?, unwritten, Option.none_or]
      | fresh unwritten later holds =>
          refine .fresh ?_ (grows.trans later) holds
          rw [lastWritten?, unwritten, Option.none_or, Option.eq_none_iff_forall_ne_some]
          intro values written
          have below := wellFormed.lt_nextId_of_written? written
          exact absurd (grows.trans later) (Nat.not_le.mpr below)

end Model

end Dataflow
