import Dataflow.Proofs.Graph.Solution
import Dataflow.Proofs.Graph.Verification

/-!
# Readers and removals

The wiring of a model can be searched from both ends: from a node to the nodes that read it, and
from a node to the nodes that it reads.  Both searches describe one relation.  A node can be taken
out when the first search finds nothing.  The last node of a model is never read, so that a model
can be taken apart from its end.
-/

namespace Dataflow

/-- Collecting names that are not there yet keeps them apart. -/
theorem nodup_collect {α β : Type} [DecidableEq β] (name : α → β) {items : List α} {start : List β}
    (nodup : start.Nodup) :
    (items.foldl
      (fun names item => if name item ∈ names then names else names ++ [name item]) start).Nodup := by
  induction items generalizing start with
  | nil => exact nodup
  | cons item rest ih =>
      refine ih ?_
      dsimp only
      split
      · exact nodup
      · rename_i fresh
        exact nodup.append (List.nodup_singleton _) (List.disjoint_singleton.mpr fresh)

namespace Model

variable {model : Model} {id source reader : NodeId}

/-! ## Two searches for one relation -/

theorem reads_iff {node : Node} :
    reads node source ↔
      ∃ input ∈ node.inputs, ∃ coordinate ∈ input.elements, coordinate.node = source := by
  simp [reads]

theorem mem_dependents_iff :
    reader ∈ model.dependents source ↔
      ∃ entry ∈ model.entries, entry.id = reader ∧ ∃ input ∈ entry.node.inputs,
        ∃ coordinate ∈ input.elements, coordinate.node = source := by
  simp only [dependents, List.mem_map, List.mem_filter, reads_iff]
  constructor
  · rintro ⟨entry, ⟨mem, reading⟩, same⟩
    exact ⟨entry, mem, same, reading⟩
  · rintro ⟨entry, mem, same, reading⟩
    exact ⟨entry, ⟨mem, reading⟩, same⟩

theorem Coherent.mem_dependents_iff_mem_dependencies (coherent : model.Coherent) :
    reader ∈ model.dependents source ↔ source ∈ model.dependencies reader :=
  mem_dependents_iff.trans coherent.mem_dependencies_iff.symm

theorem nodup_dependencies (model : Model) (id : NodeId) : (model.dependencies id).Nodup := by
  unfold dependencies
  cases model.node? id with
  | none => exact List.nodup_nil
  | some node =>
      refine List.foldlRecOn node.inputs _ List.nodup_nil fun sources nodup input _ => ?_
      exact nodup_collect (fun source => source) nodup

theorem dependents_sublist (model : Model) (id : NodeId) :
    (model.dependents id).Sublist model.ids :=
  List.filter_sublist.map _

theorem WellFormed.lt_of_mem_dependents (wellFormed : model.WellFormed)
    (reading : reader ∈ model.dependents source) : source < reader :=
  wellFormed.lt_of_mem_dependencies
    (wellFormed.coherent.mem_dependents_iff_mem_dependencies.mp reading)

/-- The readers of a node come after it, in the order of the model. -/
theorem WellFormed.cons_dependents_sublist (wellFormed : model.WellFormed) (mem : id ∈ model.ids) :
    (id :: model.dependents id).Sublist model.ids := by
  obtain ⟨earlier, later, ids⟩ := List.append_of_mem mem
  have sublist := model.dependents_sublist id
  have increasing := wellFormed.ids_increasing
  rw [ids] at sublist increasing ⊢
  -- no reader is among the earlier nodes or the node itself
  have readers : (model.dependents id).Sublist later := by
    obtain ⟨before, after, parted, first, second⟩ := List.sublist_append_iff.mp sublist
    have low : ∀ other ∈ earlier, other < id := fun other otherMem =>
      (List.pairwise_append.mp increasing).2.2 other otherMem id List.mem_cons_self
    obtain rfl : before = [] := List.eq_nil_iff_forall_not_mem.mpr fun other otherMem =>
      Nat.lt_asymm (low other (first.subset otherMem))
        (wellFormed.lt_of_mem_dependents (parted ▸ List.mem_append_left _ otherMem))
    rw [parted, List.nil_append]
    refine (List.sublist_cons_iff.mp second).resolve_right ?_
    rintro ⟨rest, rfl, _⟩
    have self : id ∈ model.dependents id := parted ▸ List.mem_cons_self
    exact Nat.lt_irrefl _ (wellFormed.lt_of_mem_dependents self)
  exact (readers.cons_cons id).trans (List.sublist_append_right _ _)

/-! ## Taking out one node -/

theorem Coherent.ids_without (coherent : model.Coherent) {key : NodeKey} {entry : Entry}
    (found : model.arena.get? key = some entry) :
    (model.without entry.id key).ids = model.ids.filter (· ≠ entry.id) := by
  simp only [ids, coherent.entries_without found, List.filter_map]
  rfl

/-- A node that nobody reads can be taken out, and the other nodes stay. -/
theorem WellFormed.remove_of_unread (wellFormed : model.WellFormed) (mem : id ∈ model.ids)
    (unread : model.dependents id = []) :
    ∃ node after, model.remove id = .ok (node, after) ∧ after.WellFormed ∧
      after.ids = model.ids.filter (· ≠ id) ∧ after.nextId = model.nextId := by
  obtain ⟨entry, entryMem, rfl⟩ := mem_ids_iff.mp mem
  obtain ⟨key, found⟩ := wellFormed.coherent.mem_entries_iff.mp entryMem
  have keyed : model.key? entry.id = some key :=
    wellFormed.coherent.key?_eq_some_iff.mpr ⟨entry, found, rfl⟩
  refine ⟨entry.node, model.without entry.id key, ?_, wellFormed.takeOut found unread,
    wellFormed.coherent.ids_without found, rfl⟩
  rw [remove, edit_eq_ok_iff]
  simp [Succeeds, Edit.remove, outcome_bind, outcome_map, keyed, unread, found, without]

theorem Coherent.remove_of_read (coherent : model.Coherent) (mem : id ∈ model.ids)
    (read : model.dependents id ≠ []) :
    model.remove id = .error (.dependencyViolation id (model.dependents id)) := by
  obtain ⟨key, keyed⟩ := Option.isSome_iff_exists.mp (coherent.contains_iff.mpr mem)
  have failed : outcome (Edit.remove id) model =
      (.error (.dependencyViolation id (model.dependents id)), model) := by
    simp [Edit.remove, outcome_bind, keyed, read]
  simp only [remove, edit]
  rw [show (Edit.remove id).run.run model = _ from failed]

/-! ## Taking a model apart -/

/-- Takes out nodes one after the other. -/
def removeAll (model : Model) (ids : List NodeId) : Except ModelError Model :=
  ids.foldlM (fun model id => do return (← model.remove id).2) model

/-- The last node of a model is not read. -/
theorem WellFormed.dependents_last (wellFormed : model.WellFormed) {earlier : List NodeId}
    (ids : model.ids = earlier ++ [id]) : model.dependents id = [] := by
  have sublist := wellFormed.cons_dependents_sublist (ids ▸ List.mem_append_right _ List.mem_cons_self)
  have increasing := wellFormed.ids_increasing
  refine List.eq_nil_iff_forall_not_mem.mpr fun reader reading => ?_
  have later := wellFormed.lt_of_mem_dependents reading
  rw [ids] at sublist increasing
  rcases List.mem_append.mp (sublist.subset (List.mem_cons_of_mem _ reading)) with before | last
  · have low := (List.pairwise_append.mp increasing).2.2 reader before id List.mem_cons_self
    exact Nat.lt_asymm low later
  · exact Nat.lt_irrefl _ (List.mem_singleton.mp last ▸ later)

/-- The induction is on the ids from the end: the last node is taken out first. -/
theorem WellFormed.exists_removeAll (wellFormed : model.WellFormed) :
    ∃ after, model.removeAll model.ids.reverse = .ok after ∧ after.WellFormed ∧ after.ids = [] ∧
      after.nextId = model.nextId := by
  generalize listed : model.ids = ids
  induction ids using List.reverseRecOn generalizing model with
  | nil => exact ⟨model, rfl, wellFormed, listed, rfl⟩
  | append_singleton earlier last ih =>
      obtain ⟨node, between, removed, betweenWellFormed, ids, nextId⟩ :=
        wellFormed.remove_of_unread (listed ▸ List.mem_append_right _ List.mem_cons_self)
          (wellFormed.dependents_last listed)
      have fresh : last ∉ earlier := by
        have nodup := wellFormed.ids_nodup
        rw [listed, List.nodup_append] at nodup
        exact fun mem => nodup.2.2 last mem last List.mem_cons_self rfl
      have left : between.ids = earlier := by
        have stay : ∀ other ∈ earlier, other ≠ last := fun other mem same => fresh (same ▸ mem)
        rw [ids, listed, List.filter_append]
        simpa using stay
      obtain ⟨after, done, rest⟩ := ih betweenWellFormed left
      refine ⟨after, ?_, nextId ▸ rest⟩
      rw [List.reverse_append, List.reverse_singleton, List.singleton_append]
      simpa [removeAll, removed] using done

/-- Without entries the arena, the creation order and the keys are empty. -/
theorem Coherent.vacant (coherent : model.Coherent) (none : model.ids = []) :
    model.order = [] ∧ model.keys = [] ∧ ∀ key, model.arena.get? key = .none := by
  have absent : ∀ key, model.arena.get? key = .none := by
    refine fun key => Option.eq_none_iff_forall_ne_some.mpr fun entry found => ?_
    have mem := mem_ids_iff.mpr ⟨entry, coherent.mem_entries_iff.mpr ⟨key, found⟩, rfl⟩
    exact List.not_mem_nil (none ▸ mem)
  refine ⟨List.eq_nil_iff_forall_not_mem.mpr fun key mem => ?_,
    List.eq_nil_iff_forall_not_mem.mpr fun pair mem => ?_, absent⟩
  · obtain ⟨entry, found⟩ := (coherent.mem_order_iff key).mp mem
    simp [absent] at found
  · obtain ⟨entry, found, _⟩ := (coherent.mem_keys_iff pair.1 pair.2).mp mem
    simp [absent] at found

/-- In every model that operations can make, the readers of a node are the nodes that list it as a
dependency, once each and in creation order after it.  A node can be taken out if and only if it has
no readers, and all nodes can be taken out from the last to the first. -/
theorem removals_follow_readers (reachable : model.Reachable) :
    (∀ source reader, reader ∈ model.dependents source ↔ source ∈ model.dependencies reader) ∧
      (∀ id ∈ model.ids, (id :: model.dependents id).Sublist model.ids ∧
        (model.dependents id).Nodup ∧ (∀ reader ∈ model.dependents id, id < reader) ∧
        (model.dependencies id).Nodup) ∧
      (∀ id ∈ model.ids,
        ((∃ node after, model.remove id = .ok (node, after)) ↔ model.dependents id = []) ∧
        (model.dependents id ≠ [] →
          model.remove id = .error (.dependencyViolation id (model.dependents id)))) ∧
      ∃ after, model.removeAll model.ids.reverse = .ok after ∧ after.order = [] ∧
        after.keys = [] ∧ (∀ key, after.arena.get? key = none) ∧ after.nextId = model.nextId := by
  have wellFormed := reachable.sound.wellFormed
  refine ⟨fun source reader => wellFormed.coherent.mem_dependents_iff_mem_dependencies,
    fun id mem => ?_, fun id mem => ⟨⟨?_, fun unread => ?_⟩, ?_⟩, ?_⟩
  · exact ⟨wellFormed.cons_dependents_sublist mem,
      wellFormed.ids_nodup.sublist (model.dependents_sublist id),
      fun reader => wellFormed.lt_of_mem_dependents, model.nodup_dependencies id⟩
  · rintro ⟨node, after, removed⟩
    by_contra read
    rw [wellFormed.coherent.remove_of_read mem read] at removed
    contradiction
  · obtain ⟨node, after, removed, _⟩ := wellFormed.remove_of_unread mem unread
    exact ⟨node, after, removed⟩
  · exact wellFormed.coherent.remove_of_read mem
  · obtain ⟨after, done, afterWellFormed, empty, nextId⟩ := wellFormed.exists_removeAll
    obtain ⟨order, keys, arena⟩ := afterWellFormed.coherent.vacant empty
    exact ⟨after, done, order, keys, arena, nextId⟩

/-- The input of the announcer is read by node 3, and without any nodes the next id stays 5. -/
theorem removals_follow_readers_announcer :
    announcer.Reachable ∧ announcer.dependents 0 = [3] ∧
      announcer.remove 0 = .error (.dependencyViolation 0 [3]) ∧
      ∃ after, announcer.removeAll [4, 3, 1, 0] = .ok after ∧ after.order = [] ∧
        after.nextId = 5 := by
  obtain ⟨_, _, removals, after, done, order, _, _, nextId⟩ :=
    removals_follow_readers reachable_announcer
  refine ⟨reachable_announcer, rfl, (removals 0 ?_).2 ?_, after, done, order, nextId⟩
  · decide
  · decide

end Model

end Dataflow
