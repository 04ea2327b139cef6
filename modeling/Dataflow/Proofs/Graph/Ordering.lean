import Dataflow.Proofs.Graph.WellFormed

/-!
# Ordered models

Whatever the nodes of a model read, the three parts of the model hold the same nodes, and ids
increase along the creation order and stay below the next id.  This part of the invariant speaks of
no wiring, so it is kept by everything that happens to a model, also when a node is replaced in
place by one that reads anything.
-/

namespace Dataflow

namespace Model

variable {model : Model} {id : NodeId}

/-- The invariant of models, as far as it does not speak of ports. -/
structure Ordered (model : Model) : Prop where
  coherent : model.Coherent
  ids_increasing : model.ids.Pairwise (· < ·)
  ids_below : ∀ id ∈ model.ids, id < model.nextId

theorem WellFormed.ordered (wellFormed : model.WellFormed) : model.Ordered :=
  ⟨wellFormed.coherent, wellFormed.ids_increasing, wellFormed.ids_below⟩

theorem ordered_empty : empty.Ordered :=
  ⟨coherent_empty, .nil, fun _ mem => by simp [ids] at mem⟩

theorem Ordered.ids_nodup (ordered : model.Ordered) : model.ids.Nodup :=
  ordered.ids_increasing.imp Nat.ne_of_lt

theorem entries_with_nextId (model : Model) (nextId : NodeId) :
    { model with nextId }.entries = model.entries :=
  rfl

theorem Coherent.with_nextId (coherent : model.Coherent) (nextId : NodeId) :
    { model with nextId }.Coherent :=
  ⟨coherent.order_nodup, coherent.mem_order_iff, coherent.keys_nodup, coherent.mem_keys_iff⟩

/-! ## Adding and taking out -/

/-- An entry can be appended under an id that was not used before. -/
theorem Ordered.append (ordered : model.Ordered) {entry : Entry} (later : model.nextId ≤ entry.id) :
    { model.extend entry with nextId := entry.id + 1 }.Ordered := by
  have below : ∀ old ∈ model.ids, old < entry.id :=
    fun old mem => Nat.lt_of_lt_of_le (ordered.ids_below old mem) later
  have fresh : entry.id ∉ model.ids := fun mem => Nat.lt_irrefl _ (below _ mem)
  have ids : { model.extend entry with nextId := entry.id + 1 }.ids = model.ids ++ [entry.id] := by
    simp only [Model.ids, entries_with_nextId, ordered.coherent.entries_extend, List.map_append]
    rfl
  refine ⟨(ordered.coherent.extend fresh).with_nextId _, ?_, ?_⟩
  · rw [ids]
    exact List.pairwise_append.mpr ⟨ordered.ids_increasing, List.pairwise_singleton _ _,
      fun old mem new newMem => by simpa [List.mem_singleton.mp newMem] using below old mem⟩
  · rw [ids]
    intro other mem
    rcases List.mem_append.mp mem with old | new
    · exact Nat.lt_succ_of_lt (below other old)
    · exact List.mem_singleton.mp new ▸ Nat.lt_succ_self entry.id

theorem Ordered.without (ordered : model.Ordered) {key : NodeKey} {entry : Entry}
    (found : model.arena.get? key = some entry) : (model.without entry.id key).Ordered := by
  have ids : (model.without entry.id key).ids.Sublist model.ids := by
    simp only [Model.ids, ordered.coherent.entries_without found]
    exact List.filter_sublist.map _
  exact ⟨ordered.coherent.without found, ordered.ids_increasing.sublist ids,
    fun id mem => ordered.ids_below id (ids.subset mem)⟩

/-! ## Changing entries -/

section Changing

variable {change : Entry → Entry}

theorem Coherent.ids_modifyEntry (coherent : model.Coherent)
    (keeps : ∀ entry, (change entry).id = entry.id) : (model.modifyEntry id change).ids = model.ids := by
  simp only [ids, coherent.entries_modifyEntry, List.map_map]
  refine List.map_congr_left fun entry _ => ?_
  simp only [Function.comp_apply]
  split
  · exact keeps entry
  · rfl

/-- An entry can be changed in any way, as long as it keeps its id. -/
theorem Ordered.modifyEntry (ordered : model.Ordered)
    (keeps : ∀ entry, (change entry).id = entry.id) : (model.modifyEntry id change).Ordered := by
  have ids : (model.modifyEntry id change).ids = model.ids := ordered.coherent.ids_modifyEntry keeps
  refine ⟨ordered.coherent.modifyEntry keeps, ids ▸ ordered.ids_increasing, ?_⟩
  rw [ids, nextId_modifyEntry]
  exact ordered.ids_below

theorem Ordered.computeNode (ordered : model.Ordered) (id : NodeId) :
    (model.computeNode id).model.Ordered := by
  unfold Model.computeNode
  split
  · exact ordered
  · split
    · exact ordered
    · exact ordered.modifyEntry fun _ => rfl

theorem Ordered.computeNodes (ordered : model.Ordered) (ids : List NodeId) :
    (Model.computeNodes ids model).model.Ordered := by
  induction ids generalizing model with
  | nil => exact ordered
  | cons id rest ih =>
      simp only [Model.computeNodes]
      split
      · exact ordered.computeNode id
      · exact ih (ordered.computeNode id)

theorem Ordered.compute (ordered : model.Ordered) : model.compute.model.Ordered :=
  ordered.computeNodes model.ids

end Changing

/-! ## Copies -/

/-- Appending entries with new ids one after the other. -/
theorem Coherent.outcome_forM_append {entries : List Entry} (coherent : model.Coherent)
    (nodup : (entries.map Entry.id).Nodup) (fresh : ∀ entry ∈ entries, entry.id ∉ model.ids) :
    ∃ after, outcome (forM entries Edit.append) model = (.ok (), after) ∧ after.Coherent ∧
      after.entries = model.entries ++ entries := by
  induction entries generalizing model with
  | nil => exact ⟨model, rfl, coherent, (List.append_nil _).symm⟩
  | cons entry rest ih =>
      rw [List.map_cons, List.nodup_cons] at nodup
      have extended := coherent.extend (fresh entry List.mem_cons_self)
      have still : ∀ other ∈ rest, other.id ∉ (model.extend entry).ids := by
        intro other mem
        rw [mem_ids_iff, coherent.entries_extend]
        rintro ⟨old, oldMem, same⟩
        rcases List.mem_append.mp oldMem with before | last
        · exact fresh other (List.mem_cons_of_mem _ mem) (mem_ids_iff.mpr ⟨old, before, same⟩)
        · rw [List.mem_singleton.mp last] at same
          exact nodup.1 (same ▸ List.mem_map_of_mem mem)
      obtain ⟨after, done, afterCoherent, entries⟩ := ih extended nodup.2 still
      refine ⟨after, ?_, afterCoherent, ?_⟩
      · rw [List.forM_cons, outcome_bind, outcome_append]
        exact done
      · rw [entries, coherent.entries_extend, List.append_assoc, List.singleton_append]

/-- A copy has the same entries. -/
theorem Ordered.entries_clone (ordered : model.Ordered) :
    model.clone.Coherent ∧ model.clone.entries = model.entries := by
  have fresh : ∀ entry ∈ model.entries, entry.id ∉ empty.ids :=
    fun entry _ mem => by simp [ids] at mem
  obtain ⟨after, done, coherent, entries⟩ :=
    coherent_empty.outcome_forM_append ordered.ids_nodup fresh
  have copied : model.clone = { after with nextId := model.nextId } :=
    congrArg (fun copy : _ × Model => { copy.2 with nextId := model.nextId }) done
  rw [copied]
  exact ⟨coherent.with_nextId _, entries⟩

theorem Ordered.clone (ordered : model.Ordered) : model.clone.Ordered := by
  obtain ⟨coherent, entries⟩ := ordered.entries_clone
  have ids : model.clone.ids = model.ids := by simp only [Model.ids, entries]
  exact ⟨coherent, ids ▸ ordered.ids_increasing, fun id mem => ordered.ids_below id (ids ▸ mem)⟩

end Model

end Dataflow
