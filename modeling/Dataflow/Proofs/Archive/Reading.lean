import Dataflow.Archive.Models
import Dataflow.Proofs.Graph.Sound

/-!
# Reading archives

A record is read with the builder of its kind, and the nodes of a model are inserted one by one.
So whatever a record says, a model that is read from it is sound.
-/

namespace Dataflow

section Reading

variable {record : Record} {registry : Registry} {kind : NodeKind} {node : Node} {model after : Model}

/-- A record is read with the builder of its kind. -/
theorem standard_of_readNode (read : record.readNode kind = .ok node) : node.Standard := by
  cases kind with
  | input type =>
      simp only [Record.readNode, bind_eq_ok_iff, pure_eq_ok_iff] at read
      obtain ⟨size, _, rfl⟩ := read
      exact .input type size
  | constant type =>
      simp only [Record.readNode, bind_eq_ok_iff] at read
      obtain ⟨values, _, rest⟩ := read
      split at rest
      · simp only [archivedNode, bind_eq_ok_iff, mapError_eq_ok_iff] at rest
        obtain ⟨_, _, done⟩ := rest
        obtain ⟨fits, rfl⟩ := shapedConstant_eq_ok_iff.mp done
        exact .constant _ _ fits
      · obtain rfl := pure_eq_ok_iff.mp rest
        exact standard_constant values
  | arithmetic type =>
      simp only [Record.readNode, archivedNode, bind_eq_ok_iff, mapError_eq_ok_iff] at read
      obtain ⟨_, _, _, _, _, _, _, _, done⟩ := read
      obtain ⟨same, rfl⟩ := arithmetic_eq_ok_iff.mp done
      exact .arithmetic _ _ _ _ same
  | comparison type =>
      simp only [Record.readNode, archivedNode, bind_eq_ok_iff, mapError_eq_ok_iff] at read
      obtain ⟨_, _, _, _, _, _, _, _, done⟩ := read
      obtain ⟨same, rfl⟩ := comparison_eq_ok_iff.mp done
      exact .comparison _ _ _ _ same
  | coordinatewise type =>
      simp only [Record.readNode, archivedNode, bind_eq_ok_iff, mapError_eq_ok_iff] at read
      obtain ⟨_, _, _, _, _, _, _, _, done⟩ := read
      obtain ⟨same, rfl⟩ := coordinatewise_eq_ok_iff.mp done
      exact .coordinatewise _ _ _ _ same
  | sum type =>
      simp only [Record.readNode, bind_eq_ok_iff, pure_eq_ok_iff] at read
      obtain ⟨groups, _, rfl⟩ := read
      exact .sum type groups
  | concatenation type =>
      simp only [Record.readNode, archivedNode, bind_eq_ok_iff, mapError_eq_ok_iff] at read
      obtain ⟨_, _, _, _, done⟩ := read
      obtain ⟨fits, rfl⟩ := shapedConcatenation_eq_ok_iff.mp done
      exact .concatenation _ _ _ fits
  | hamming type =>
      simp only [Record.readNode, bind_eq_ok_iff, pure_eq_ok_iff] at read
      obtain ⟨input, _, rfl⟩ := read
      exact .hamming type input
  | sink type =>
      simp only [Record.readNode, archivedNode, bind_eq_ok_iff, mapError_eq_ok_iff] at read
      obtain ⟨_, _, _, _, _, _, done⟩ := read
      obtain ⟨single, rfl⟩ := sink_eq_ok_iff.mp done
      exact .sink _ _ _ _ _ single.symm

theorem Registry.unarchiveNode_eq_ok_iff {id : NodeId} :
    registry.unarchiveNode record = .ok (id, node) ↔
      record.read "id" = .ok id ∧ ∃ kind registration,
        registry.find? record.typeTag = some (kind, registration) ∧
          record.version ∈ registration.accepted ∧ record.readNode kind = .ok node := by
  simp only [unarchiveNode, bind_eq_ok_iff]
  constructor
  · rintro ⟨read, named, rest⟩
    split at rest
    · simp at rest
    · rename_i kind registration found
      split at rest
      · simp at rest
      · rename_i accepted
        simp only [bind_eq_ok_iff, pure_eq_ok_iff, Prod.mk.injEq] at rest
        obtain ⟨_, done, rfl, rfl⟩ := rest
        exact ⟨named, kind, registration, found, not_not.mp accepted, done⟩
  · rintro ⟨named, kind, registration, found, accepted, done⟩
    exact ⟨id, named, by simp [found, accepted, done]⟩

theorem Registry.insertNodes_cons_eq_ok_iff {rest : List Record} :
    registry.insertNodes (record :: rest) model = .ok after ↔
      ∃ id node between, registry.unarchiveNode record = .ok (id, node) ∧
        model.insert id node = .ok between ∧ registry.insertNodes rest between = .ok after := by
  simp only [insertNodes, bind_eq_ok_iff, mapError_eq_ok_iff, Prod.exists]
  constructor
  · rintro ⟨id, node, read, between, inserted, others⟩
    exact ⟨id, node, between, read, inserted, others⟩
  · rintro ⟨id, node, between, read, inserted, others⟩
    exact ⟨id, node, read, between, inserted, others⟩

theorem Registry.unarchiveModel_eq_ok_iff :
    registry.unarchiveModel record = .ok model ↔
      record.typeTag = modelTag ∧ acceptsModelVersion record.version = true ∧
        ∃ records, record.read "nodes" = .ok records ∧
          registry.insertNodes records .empty = .ok model := by
  by_cases tagged : record.typeTag = modelTag
  · by_cases accepted : acceptsModelVersion record.version = true
    · have unfolded : registry.unarchiveModel record =
          (record.read "nodes" >>= fun records => registry.insertNodes records .empty) := by
        simp [unarchiveModel, tagged, accepted]
      simp [unfolded, tagged, accepted]
    · simp [unarchiveModel, tagged, accepted, bind, Except.bind, throw, throwThe,
        MonadExceptOf.throw]
  · simp [unarchiveModel, tagged, bind, Except.bind, throw, throwThe, MonadExceptOf.throw]

theorem Model.Sound.insertNodes (sound : model.Sound) {records : List Record}
    (inserted : registry.insertNodes records model = .ok after) : after.Sound := by
  induction records generalizing model with
  | nil =>
      obtain rfl : model = after := by simpa [Registry.insertNodes] using inserted
      exact sound
  | cons record rest ih =>
      obtain ⟨id, node, next, read, added, others⟩ :=
        Registry.insertNodes_cons_eq_ok_iff.mp inserted
      obtain ⟨_, _, _, _, _, made⟩ := Registry.unarchiveNode_eq_ok_iff.mp read
      exact ih (sound.insert (.inl (standard_of_readNode made)) added) others

/-- Whatever a record says, the model that is read from it is sound. -/
theorem Model.sound_of_unarchiveModel (read : registry.unarchiveModel record = .ok model) :
    model.Sound := by
  obtain ⟨_, _, _, _, inserted⟩ := Registry.unarchiveModel_eq_ok_iff.mp read
  exact sound_empty.insertNodes inserted

end Reading

end Dataflow
