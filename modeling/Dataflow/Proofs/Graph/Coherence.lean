import Dataflow.Graph.Model
import Dataflow.Proofs.Actions

/-!
# The three parts of a model

A model keeps its nodes three times: in the arena, in the creation order and under
their ids.  A model is coherent when all three hold the same nodes, each of them once.
A coherent model is known by the list of its entries: looking up an id finds the entry
with that id, and every operation changes the list as its name says.
-/

namespace Dataflow

/-- In a list without repeated keys, looking up a key finds what is listed for it. -/
theorem lookup_eq_some_iff_mem {α β : Type} [DecidableEq α] {pairs : List (α × β)}
    (nodup : (pairs.map Prod.fst).Nodup) {key : α} {value : β} :
    pairs.lookup key = some value ↔ (key, value) ∈ pairs := by
  induction pairs with
  | nil => simp
  | cons first rest ih =>
      rcases first with ⟨other, stored⟩
      rw [List.map_cons, List.nodup_cons] at nodup
      rw [List.lookup_cons]
      by_cases same : key = other
      · subst other
        have absent : (key, value) ∉ rest :=
          fun mem => nodup.1 (List.mem_map.mpr ⟨(key, value), mem, rfl⟩)
        simp [absent, eq_comm]
      · simp [beq_false_of_ne same, same, ih nodup.2]

namespace Model

/-- The arena, the creation order and the keys of the ids hold the same nodes, each of
them once. -/
structure Coherent (model : Model) : Prop where
  order_nodup : model.order.Nodup
  mem_order_iff : ∀ key, key ∈ model.order ↔ ∃ entry, model.arena.get? key = some entry
  keys_nodup : (model.keys.map Prod.fst).Nodup
  mem_keys_iff : ∀ id key,
    (id, key) ∈ model.keys ↔ ∃ entry, model.arena.get? key = some entry ∧ entry.id = id

/-! ## Looking up entries -/

section Lookup

variable {model : Model} {id : NodeId} {key : NodeKey} {entry : Entry}

theorem Coherent.key?_eq_some_iff (coherent : model.Coherent) :
    model.key? id = some key ↔ ∃ entry, model.arena.get? key = some entry ∧ entry.id = id := by
  rw [key?, lookup_eq_some_iff_mem coherent.keys_nodup, coherent.mem_keys_iff]

theorem Coherent.mem_entries_iff (coherent : model.Coherent) :
    entry ∈ model.entries ↔ ∃ key, model.arena.get? key = some entry := by
  simp only [entries, List.mem_filterMap]
  constructor
  · rintro ⟨key, _, found⟩
    exact ⟨key, found⟩
  · rintro ⟨key, found⟩
    exact ⟨key, (coherent.mem_order_iff key).mpr ⟨entry, found⟩, found⟩

/-- Two places of the arena never hold nodes of one id. -/
theorem Coherent.key_unique (coherent : model.Coherent) {other : NodeKey} {second : Entry}
    (found : model.arena.get? key = some entry) (also : model.arena.get? other = some second)
    (same : entry.id = second.id) : key = other := by
  have first := coherent.key?_eq_some_iff.mpr ⟨entry, found, rfl⟩
  have again := coherent.key?_eq_some_iff.mpr ⟨second, also, same.symm⟩
  exact Option.some.inj (first.symm.trans again)

theorem Coherent.entry?_eq_some_iff (coherent : model.Coherent) :
    model.entry? id = some entry ↔ entry ∈ model.entries ∧ entry.id = id := by
  rw [ entry?, Option.bind_eq_bind, Option.bind_eq_some_iff, coherent.mem_entries_iff]
  constructor
  · rintro ⟨key, keyed, found⟩
    obtain ⟨stored, storedFound, rfl⟩ := coherent.key?_eq_some_iff.mp keyed
    obtain rfl := Option.some.inj (storedFound.symm.trans found)
    exact ⟨⟨key, found⟩, rfl⟩
  · rintro ⟨⟨key, found⟩, rfl⟩
    exact ⟨key, coherent.key?_eq_some_iff.mpr ⟨entry, found, rfl⟩, found⟩

theorem Coherent.entry_eq_ok_iff (coherent : model.Coherent) :
    model.entry id = .ok entry ↔ entry ∈ model.entries ∧ entry.id = id := by
  rw [← coherent.entry?_eq_some_iff, Model.entry]
  cases model.entry? id <;> simp

theorem Coherent.entry_of_mem (coherent : model.Coherent) (mem : entry ∈ model.entries) :
    model.entry entry.id = .ok entry :=
  coherent.entry_eq_ok_iff.mpr ⟨mem, rfl⟩

theorem Coherent.node?_eq_some_iff (coherent : model.Coherent) {node : Node} :
    model.node? id = some node ↔ ∃ entry ∈ model.entries, entry.id = id ∧ entry.node = node := by
  simp only [node?, Option.map_eq_some_iff, coherent.entry?_eq_some_iff, and_assoc]

/-- Entries are told apart by their ids. -/
theorem Coherent.entry_unique (coherent : model.Coherent) {other : Entry}
    (mem : entry ∈ model.entries) (otherMem : other ∈ model.entries)
    (same : entry.id = other.id) : entry = other := by
  have first := coherent.entry?_eq_some_iff.mpr ⟨mem, rfl⟩
  have again := coherent.entry?_eq_some_iff.mpr ⟨otherMem, same.symm⟩
  exact Option.some.inj (first.symm.trans again)

theorem mem_ids_iff : id ∈ model.ids ↔ ∃ entry ∈ model.entries, entry.id = id := by
  simp [ids]

theorem Coherent.contains_iff (coherent : model.Coherent) :
    model.contains id ↔ id ∈ model.ids := by
  rw [contains, Option.isSome_iff_exists, mem_ids_iff]
  simp only [coherent.key?_eq_some_iff, coherent.mem_entries_iff]
  constructor
  · rintro ⟨key, entry, found, rfl⟩
    exact ⟨entry, ⟨key, found⟩, rfl⟩
  · rintro ⟨entry, ⟨key, found⟩, rfl⟩
    exact ⟨key, entry, found, rfl⟩

theorem Coherent.length_entries (coherent : model.Coherent) :
    model.entries.length = model.size := by
  have all : ∀ key ∈ model.order, ∃ entry, model.arena.get? key = some entry :=
    fun key => (coherent.mem_order_iff key).mp
  rw [entries, size]
  generalize model.order = order at all
  induction order with
  | nil => rfl
  | cons key rest ih =>
      obtain ⟨entry, found⟩ := all key List.mem_cons_self
      rw [List.filterMap_cons_some found, List.length_cons, List.length_cons,
        ih fun other mem => all other (List.mem_cons_of_mem _ mem)]

end Lookup

/-! ## Appending -/

/-- A model with one more node at its end. -/
def extend (model : Model) (entry : Entry) : Model where
  arena := model.arena.push entry
  order := model.order ++ [model.arena.nextKey]
  keys := (entry.id, model.arena.nextKey) :: model.keys
  nextId := model.nextId

theorem outcome_append (model : Model) (entry : Entry) :
    outcome (Edit.append entry) model = (.ok (), model.extend entry) :=
  rfl

theorem coherent_empty : empty.Coherent where
  order_nodup := List.nodup_nil
  mem_order_iff key := by simp [empty]
  keys_nodup := List.nodup_nil
  mem_keys_iff id key := by simp [empty]

@[simp]
theorem entries_empty : empty.entries = [] :=
  rfl

section Extend

variable {model : Model} {entry : Entry}

theorem Coherent.lt_nextKey (coherent : model.Coherent) {key : NodeKey}
    (mem : key ∈ model.order) : key < model.arena.nextKey := by
  obtain ⟨entry, found⟩ := (coherent.mem_order_iff key).mp mem
  exact Arena.lt_nextKey_of_get?_eq_some found

theorem Coherent.entries_extend (coherent : model.Coherent) :
    (model.extend entry).entries = model.entries ++ [entry] := by
  have old : ∀ key ∈ model.order, (model.arena.push entry).get? key = model.arena.get? key := by
    intro key mem
    rw [Arena.get?_push, if_neg (Nat.ne_of_lt (coherent.lt_nextKey mem))]
  simp only [entries, extend, List.filterMap_append, List.filterMap_congr old]
  simp [Arena.get?_push]

theorem Coherent.extend (coherent : model.Coherent) (fresh : entry.id ∉ model.ids) :
    (model.extend entry).Coherent where
  order_nodup := by
    refine coherent.order_nodup.append (List.nodup_singleton _) ?_
    rw [List.disjoint_singleton]
    exact fun mem => Nat.lt_irrefl _ (coherent.lt_nextKey mem)
  mem_order_iff key := by
    simp only [Model.extend, List.mem_append, List.mem_singleton, Arena.get?_push,
      coherent.mem_order_iff]
    split <;> simp [*]
  keys_nodup := by
    simp only [Model.extend, List.map_cons, List.nodup_cons, coherent.keys_nodup, and_true]
    intro mem
    obtain ⟨⟨id, key⟩, pairMem, same⟩ := List.mem_map.mp mem
    obtain ⟨other, found, otherId⟩ := (coherent.mem_keys_iff id key).mp pairMem
    exact fresh (mem_ids_iff.mpr
      ⟨other, coherent.mem_entries_iff.mpr ⟨key, found⟩, otherId.trans same⟩)
  mem_keys_iff id key := by
    simp only [Model.extend, List.mem_cons, Prod.mk.injEq, Arena.get?_push,
      coherent.mem_keys_iff]
    by_cases last : key = model.arena.nextKey
    · have unused : model.arena.get? key = none := by
        rw [Option.eq_none_iff_forall_ne_some]
        intro other found
        exact Nat.lt_irrefl _ (last ▸ Arena.lt_nextKey_of_get?_eq_some found)
      rw [last] at unused
      simp [last, unused, eq_comm]
    · simp [last]

end Extend

/-! ## Changing entries -/

section Modify

variable {model : Model} {id : NodeId} {change : Entry → Entry}

theorem Coherent.entries_modifyEntry (coherent : model.Coherent) :
    (model.modifyEntry id change).entries =
      model.entries.map fun entry => if entry.id = id then change entry else entry := by
  simp only [modifyEntry]
  cases keyed : model.key? id with
  | none =>
      have others : ∀ entry ∈ model.entries, entry.id ≠ id := by
        rintro entry mem rfl
        obtain ⟨key, found⟩ := coherent.mem_entries_iff.mp mem
        have also := coherent.key?_eq_some_iff.mpr ⟨entry, found, rfl⟩
        simp [keyed] at also
      exact (List.map_congr_left fun entry mem => if_neg (others entry mem)).trans
        (List.map_id _) |>.symm
  | some key =>
      obtain ⟨changed, changedFound, rfl⟩ := coherent.key?_eq_some_iff.mp keyed
      simp only [entries, List.map_filterMap]
      refine List.filterMap_congr fun other _ => ?_
      rw [Arena.get?_modify]
      by_cases same : other = key
      · simp [same, changedFound]
      · cases found : model.arena.get? other with
        | none => simp [same]
        | some entry =>
            have different : entry.id ≠ changed.id :=
              fun equal => same (coherent.key_unique found changedFound equal)
            simp [same, different]

theorem Coherent.modifyEntry (coherent : model.Coherent)
    (keeps : ∀ entry, (change entry).id = entry.id) : (model.modifyEntry id change).Coherent := by
  simp only [Model.modifyEntry]
  cases keyed : model.key? id with
  | none => exact coherent
  | some key =>
      refine ⟨coherent.order_nodup, fun other => ?_, coherent.keys_nodup, fun other place => ?_⟩
      · simp only [coherent.mem_order_iff, Arena.get?_modify]
        split <;> simp
      · simp only [coherent.mem_keys_iff, Arena.get?_modify]
        split <;> simp [keeps]

@[simp]
theorem nextId_modifyEntry : (model.modifyEntry id change).nextId = model.nextId := by
  simp only [modifyEntry]
  split <;> rfl

end Modify

/-! ## Taking out -/

/-- A model without one of its nodes. -/
def without (model : Model) (id : NodeId) (key : NodeKey) : Model where
  arena := model.arena.erase key
  order := model.order.filter (· ≠ key)
  keys := model.keys.filter (·.1 ≠ id)
  nextId := model.nextId

section Without

variable {model : Model} {key : NodeKey} {entry : Entry}

theorem Coherent.entries_without (coherent : model.Coherent)
    (found : model.arena.get? key = some entry) :
    (model.without entry.id key).entries = model.entries.filter (·.id ≠ entry.id) := by
  simp only [entries, without, List.filterMap_filter, List.filter_filterMap]
  refine List.filterMap_congr fun other _ => ?_
  rw [Arena.get?_erase]
  by_cases same : other = key
  · simp [same, found, Option.filter]
  · cases also : model.arena.get? other with
    | none => simp [same]
    | some second =>
        have different : second.id ≠ entry.id :=
          fun equal => same (coherent.key_unique also found equal)
        simp [same, different, Option.filter]

theorem Coherent.without (coherent : model.Coherent) (found : model.arena.get? key = some entry) :
    (model.without entry.id key).Coherent where
  order_nodup := coherent.order_nodup.filter _
  mem_order_iff other := by
    simp only [Model.without, List.mem_filter, coherent.mem_order_iff, Arena.get?_erase]
    by_cases same : other = key <;> simp [same]
  keys_nodup := coherent.keys_nodup.sublist (List.filter_sublist.map _)
  mem_keys_iff id other := by
    simp only [Model.without, List.mem_filter, coherent.mem_keys_iff, Arena.get?_erase]
    by_cases same : other = key
    · subst other
      simp only [found, if_true, Option.some.injEq, exists_eq_left', reduceCtorEq, false_and,
        exists_false, iff_false, not_and, decide_eq_true_eq, not_not]
      exact Eq.symm
    · simp only [same, if_false, decide_eq_true_eq, and_iff_left_iff_imp, forall_exists_index,
        and_imp]
      rintro second also rfl equal
      exact same (coherent.key_unique also found equal)

end Without

end Model

end Dataflow
