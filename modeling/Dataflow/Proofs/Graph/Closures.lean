import Dataflow.Proofs.Graph.Solution
import Dataflow.Proofs.Graph.Sorting
import Dataflow.Proofs.Graph.Verification

/-!
# What a node depends on

The closure of a node is what the sort lists for it: the node itself and all that it reads, directly
or not.  Nodes of the closure are read by others of it, so they cannot be taken out while the node
is there, and nothing else changes what they read.  Whatever is done outside of the closure, the
closure stays the same list, and its nodes compute the same buffers.
-/

namespace Dataflow

/-- An operation that leaves a node and what it depends on alone: it adds a standard node, takes out
another node, writes to an input outside of the closure, or computes. -/
def Operation.Avoids (operation : Operation) (id : NodeId) (closure : List NodeId) : Prop :=
  match operation with
  | add node => node.Standard
  | insert _ node => node.Standard
  | remove other => other ≠ id
  | setInput other _ => other ∉ closure
  | compute => True
  | clone => True

namespace Model

variable {model other later : Model} {id node : NodeId} {closure roots order : List NodeId}

/-! ## Orders -/

/-- The nodes of a model are all that have dependencies. -/
theorem Coherent.covers (coherent : model.Coherent) (roots : List NodeId) :
    Covers model.dependencies model.ids roots := by
  intro node _ inner
  obtain ⟨source, read⟩ := List.exists_mem_of_ne_nil _ inner
  obtain ⟨entry, mem, same, _⟩ := coherent.mem_dependencies_iff.mp read
  exact mem_ids_iff.mpr ⟨entry, mem, same⟩

theorem Coherent.submodelOrder_eq_ok_iff (coherent : model.Coherent) :
    model.submodelOrder roots = .ok order ↔
      Walks model.dependencies [] roots [] (.ok order) := by
  rw [(coherent.covers roots).walks_iff, submodelOrder, mapError_eq_ok_iff]

/-- The nodes that some nodes need are those that they reach. -/
theorem Coherent.mem_submodelOrder_iff (coherent : model.Coherent)
    (sorted : model.submodelOrder roots = .ok order) :
    node ∈ order ↔ Reaches model.dependencies roots node :=
  ((coherent.covers roots).of_ok (mapError_eq_ok_iff.mp sorted)).2 node

/-- What nodes of a model reach are nodes of the model. -/
theorem WellFormed.mem_ids_of_reaches (wellFormed : model.WellFormed) (known : roots ⊆ model.ids)
    (reaches : Reaches model.dependencies roots node) : node ∈ model.ids := by
  obtain ⟨root, mem, path⟩ := reaches
  cases path with
  | refl => exact known mem
  | tail _ read =>
      obtain ⟨entry, entryMem, _, input, inputMem, coordinate, coordinateMem, rfl⟩ :=
        wellFormed.coherent.mem_dependencies_iff.mp read
      obtain ⟨_, source, sourceMem, same, _⟩ :=
        wellFormed.provided entry entryMem input inputMem coordinate coordinateMem
      exact mem_ids_iff.mpr ⟨source, sourceMem, same⟩

/-! ## Closures -/

/-- In a well-formed model of standard nodes, a node depends on the nodes of a list. -/
structure RestsOn (model : Model) (id : NodeId) (closure : List NodeId) : Prop where
  wellFormed : model.WellFormed
  standard : model.Standard
  mem : id ∈ model.ids
  order : model.submodelOrder [id] = .ok closure

namespace RestsOn

theorem mem_iff (rests : model.RestsOn id closure) :
    node ∈ closure ↔ Reaches model.dependencies [id] node :=
  rests.wellFormed.coherent.mem_submodelOrder_iff rests.order

theorem self_mem (rests : model.RestsOn id closure) : id ∈ closure :=
  rests.mem_iff.mpr (reaches_of_mem List.mem_cons_self)

/-- What a node of the closure reads belongs to the closure. -/
theorem mem_of_read (rests : model.RestsOn id closure) {entry : Entry} (mem : entry ∈ model.entries)
    (within : entry.id ∈ closure) {input : InputPort} (inputMem : input ∈ entry.node.inputs)
    {coordinate : Coordinate} (coordinateMem : coordinate ∈ input.elements) :
    coordinate.node ∈ closure := by
  have read := rests.wellFormed.coherent.mem_dependencies_iff.mpr
    ⟨entry, mem, rfl, input, inputMem, coordinate, coordinateMem, rfl⟩
  exact rests.mem_iff.mpr ((rests.mem_iff.mp within).step read)

/-- A node of the closure is the node itself, or a node of the closure reads it. -/
theorem eq_or_read (rests : model.RestsOn id closure) (within : node ∈ closure) :
    node = id ∨ ∃ entry ∈ model.entries, ∃ input ∈ entry.node.inputs,
      ∃ coordinate ∈ input.elements, coordinate.node = node := by
  obtain ⟨root, rootMem, path⟩ := rests.mem_iff.mp within
  obtain rfl := List.mem_singleton.mp rootMem
  cases path with
  | refl => exact .inl rfl
  | tail _ read =>
      obtain ⟨entry, mem, _, reads⟩ := rests.wellFormed.coherent.mem_dependencies_iff.mp read
      exact .inr ⟨entry, mem, reads⟩

theorem exists_entry (rests : model.RestsOn id closure) (within : node ∈ closure) :
    ∃ entry ∈ model.entries, entry.id = node :=
  mem_ids_iff.mp <|
    rests.wellFormed.mem_ids_of_reaches (by simpa using rests.mem) (rests.mem_iff.mp within)

end RestsOn

/-! ## Retained nodes -/

theorem Refreshed.refl (entry : Entry) : Refreshed entry entry :=
  ⟨rfl, rfl, fun _ => rfl⟩

theorem Refreshed.trans {before between last : Entry} (first : Refreshed before between)
    (second : Refreshed between last) : Refreshed before last where
  id_eq := second.id_eq.trans first.id_eq
  node_eq := second.node_eq.trans first.node_eq
  kept input := (second.kept (first.node_eq ▸ input)).trans (first.kept input)

/-- What has become of an entry in two ways differs by buffers that inputs keep. -/
theorem Refreshed.between {before left right : Entry} (first : Refreshed before left)
    (second : Refreshed before right) : Refreshed left right where
  id_eq := second.id_eq.trans first.id_eq.symm
  node_eq := second.node_eq.trans first.node_eq.symm
  kept input := by
    rw [first.node_eq] at input
    rw [second.kept input, first.kept input]

/-- Another model has the nodes of a closure too, and its input nodes hold the same. -/
def Retains (closure : List NodeId) (model other : Model) : Prop :=
  ∀ entry ∈ model.entries, entry.id ∈ closure → ∃ twin ∈ other.entries, Refreshed entry twin

theorem Retains.of_subset (kept : model.entries ⊆ other.entries) : Retains closure model other :=
  fun entry mem _ => ⟨entry, kept mem, .refl entry⟩

theorem Retains.trans (first : Retains closure model other) (second : Retains closure other later) :
    Retains closure model later := by
  intro entry mem within
  obtain ⟨twin, twinMem, refreshed⟩ := first entry mem within
  obtain ⟨last, lastMem, again⟩ := second twin twinMem (refreshed.id_eq ▸ within)
  exact ⟨last, lastMem, refreshed.trans again⟩

/-- A computation of the first model does not matter. -/
theorem Retains.of_refreshed (retains : Retains closure model other)
    (refreshed : List.Forall₂ Refreshed model.entries later.entries) : Retains closure later other := by
  intro entry mem within
  obtain ⟨before, beforeMem, first⟩ := exists_of_mem_right refreshed mem
  obtain ⟨twin, twinMem, second⟩ := retains before beforeMem (first.id_eq ▸ within)
  exact ⟨twin, twinMem, first.between second⟩

namespace RestsOn

/-- A model that retains the closure of a node has the same closure for it, because the sort only
follows the dependencies of nodes in the closure. -/
theorem of_retains (rests : model.RestsOn id closure) (wellFormed : other.WellFormed)
    (standard : other.Standard) (retains : Retains closure model other) :
    other.RestsOn id closure := by
  have sameNode : ∀ node ∈ closure, other.node? node = model.node? node := by
    intro node within
    obtain ⟨entry, mem, rfl⟩ := rests.exists_entry within
    obtain ⟨twin, twinMem, refreshed⟩ := retains entry mem within
    rw [rests.wellFormed.coherent.node?_eq_some_iff.mpr ⟨entry, mem, rfl, rfl⟩]
    exact wellFormed.coherent.node?_eq_some_iff.mpr
      ⟨twin, twinMem, refreshed.id_eq, refreshed.node_eq⟩
  obtain ⟨entry, mem, rfl⟩ := mem_ids_iff.mp rests.mem
  obtain ⟨twin, twinMem, refreshed⟩ := retains entry mem rests.self_mem
  refine ⟨wellFormed, standard, mem_ids_iff.mpr ⟨twin, twinMem, refreshed.id_eq⟩, ?_⟩
  rw [wellFormed.coherent.submodelOrder_eq_ok_iff]
  refine (rests.wellFormed.coherent.submodelOrder_eq_ok_iff.mp rests.order).congr
    fun node reaches => ?_
  simp only [dependencies, sameNode node (rests.mem_iff.mpr reaches)]

/-- One operation outside of the closure retains it. -/
theorem retains_of_steps (rests : model.RestsOn id closure) {operation : Operation}
    (avoids : operation.Avoids id closure) (steps : Steps model operation later) :
    Retains closure model later ∧ later.Standard := by
  have coherent := rests.wellFormed.coherent
  have extended : ∀ {id : NodeId} {node : Node}, node.Standard →
      Retains closure model { model.extend (freshEntry id node) with nextId := id + 1 } ∧
        { model.extend (freshEntry id node) with nextId := id + 1 }.Standard := by
    intro id node standard
    have entries : { model.extend (freshEntry id node) with nextId := id + 1 }.entries =
        model.entries ++ [freshEntry id node] := coherent.entries_extend
    refine ⟨.of_subset (entries ▸ List.subset_append_left _ _), fun entry mem => ?_⟩
    rcases List.mem_append.mp (entries ▸ mem) with old | new
    · exact rests.standard entry old
    · exact List.mem_singleton.mp new ▸ standard
  cases steps with
  | refused _ => exact ⟨.of_subset (List.Subset.refl _), rests.standard⟩
  | added _ => exact extended avoids
  | inserted _ _ => exact extended avoids
  | @removed _ removed found free =>
      have entries := coherent.entries_without found
      refine ⟨fun entry mem within => ⟨entry, ?_, .refl entry⟩, fun entry mem => ?_⟩
      · rw [entries, List.mem_filter]
        refine ⟨mem, decide_eq_true fun same => ?_⟩
        rcases rests.eq_or_read (same ▸ within) with self |
          ⟨reader, readerMem, input, inputMem, coordinate, coordinateMem, reading⟩
        · exact avoids self
        · exact not_read_of_dependents_eq_nil free readerMem inputMem coordinateMem reading
      · exact rests.standard entry (List.mem_filter.mp (entries ▸ mem)).1
  | @written target _ _ outputs _ _ _ =>
      refine ⟨fun entry mem within => ⟨entry, ?_, .refl entry⟩, fun entry mem => ?_⟩
      · refine coherent.mem_entries_withOutputs.mpr ⟨entry, mem, (if_neg fun same => ?_).symm⟩
        exact avoids (same ▸ within)
      · obtain ⟨old, oldMem, rfl⟩ := coherent.mem_entries_withOutputs.mp mem
        split <;> exact rests.standard old oldMem
  | computed =>
      obtain ⟨_, _, _, refreshed, _⟩ := rests.wellFormed.compute_standard rests.standard
      exact ⟨fun entry mem _ => exists_of_mem_left refreshed mem,
        rests.standard.of_skeleton_eq (skeleton_eq_of_refreshed refreshed)⟩
  | cloned =>
      have entries := rests.wellFormed.ordered.entries_clone.2
      exact ⟨.of_subset (entries ▸ List.Subset.refl _), fun entry mem =>
        rests.standard entry (entries ▸ mem)⟩

/-- The induction is on the history.  The closure of the node stays the same list, so what avoids it
at the beginning avoids it later. -/
theorem after (rests : model.RestsOn id closure) (history : List Operation)
    (avoids : ∀ operation ∈ history, operation.Avoids id closure) :
    (model.after history).RestsOn id closure ∧ Retains closure model (model.after history) := by
  induction history generalizing model with
  | nil => exact ⟨rests, .of_subset (List.Subset.refl _)⟩
  | cons operation rest ih =>
      obtain ⟨stepped, standard⟩ := rests.retains_of_steps (avoids operation List.mem_cons_self)
        (rests.wellFormed.coherent.steps_perform operation)
      have next := rests.of_retains (rests.wellFormed.perform operation).1 standard stepped
      obtain ⟨last, retains⟩ := ih next fun other mem => avoids other (List.mem_cons_of_mem _ mem)
      exact ⟨last, stepped.trans retains⟩

/-! ## Values -/

/-- Settled models that have a closure in common hold the same in it.  The induction is on the id of
a node: it reads nodes of the closure with smaller ids. -/
theorem mem_of_settled (rests : model.RestsOn id closure) (settled : model.Settled)
    (wellFormed : other.WellFormed) (otherSettled : other.Settled)
    (retains : Retains closure model other) (entry : Entry) (mem : entry ∈ model.entries)
    (within : entry.id ∈ closure) : entry ∈ other.entries := by
  induction number : entry.id using Nat.strong_induction_on generalizing entry with
  | _ number' ih =>
      subst number
      obtain ⟨twin, twinMem, refreshed⟩ := retains entry mem within
      have sameInputs : other.gatherInputs entry.node = model.gatherInputs entry.node := by
        refine gatherInputs_congr fun input inputMem coordinate coordinateMem => ?_
        have provides := rests.wellFormed.provided entry mem input inputMem coordinate coordinateMem
        obtain ⟨scalar, value, _⟩ := rests.wellFormed.exists_value provides
        rw [value]
        obtain ⟨source, sourceMem, same, buffer, holds, read⟩ :=
          rests.wellFormed.coherent.value_eq_ok_iff.mp value
        have sourceWithin := rests.mem_of_read mem within inputMem coordinateMem
        have kept := ih coordinate.node provides.1 source sourceMem (same ▸ sourceWithin) same
        exact wellFormed.coherent.value_eq_ok_iff.mpr ⟨source, kept, same, buffer, holds, read⟩
      rw [← settled.eq_of_gatherInputs_eq otherSettled mem twinMem (rests.standard entry mem)
        refreshed sameInputs]
      exact twinMem

/-- After a computation the nodes of a closure hold the same in two models that have it in common. -/
theorem entry_compute_eq (rests : model.RestsOn id closure) (others : other.RestsOn id closure)
    (retains : Retains closure model other) (within : node ∈ closure) :
    ∃ entry, model.compute.model.entry node = .ok entry ∧
      other.compute.model.entry node = .ok entry := by
  obtain ⟨_, computed, settled, refreshed, _⟩ := rests.wellFormed.compute_standard rests.standard
  obtain ⟨_, otherComputed, otherSettled, otherRefreshed, _⟩ :=
    others.wellFormed.compute_standard others.standard
  have finished : Retains closure other other.compute.model :=
    fun entry mem _ => exists_of_mem_left otherRefreshed mem
  have both := (retains.trans finished).of_refreshed refreshed
  have computedRests := rests.of_retains computed
    (rests.standard.of_skeleton_eq (skeleton_eq_of_refreshed refreshed))
    fun entry mem _ => exists_of_mem_left refreshed mem
  obtain ⟨entry, mem, rfl⟩ := computedRests.exists_entry within
  refine ⟨entry, computed.coherent.entry_of_mem mem, otherComputed.coherent.entry_of_mem ?_⟩
  exact computedRests.mem_of_settled settled otherComputed otherSettled both entry mem within

end RestsOn

/-- A value depends on the closure of its node only.  For every node of a reachable model of standard
nodes, and for every history of operations that add standard nodes, take out other nodes, write to
inputs outside of the closure or compute, and that succeed or fail, the closure is the same list
before and after the history, and so is what the node holds after a computation. -/
theorem closure_determines (reachable : model.Reachable)
    (kinds : ∀ entry ∈ model.entries, entry.node.operator.kind?.isSome) (mem : id ∈ model.ids) :
    ∃ closure, model.submodelOrder [id] = .ok closure ∧
      ∀ history : List Operation, (∀ operation ∈ history, operation.Avoids id closure) →
        (model.after history).submodelOrder [id] = .ok closure ∧
          model.compute.result = .ok () ∧ (model.after history).compute.result = .ok () ∧
            ∃ entry, model.compute.model.entry id = .ok entry ∧
              (model.after history).compute.model.entry id = .ok entry := by
  have wellFormed := reachable.sound.wellFormed
  have standard : model.Standard := fun entry mem =>
    (reachable.sound.made entry mem).standard (kinds entry mem)
  obtain ⟨closure, order⟩ := wellFormed.exists_submodelOrder [id]
  have rests : model.RestsOn id closure := ⟨wellFormed, standard, mem, order⟩
  refine ⟨closure, order, fun history avoids => ?_⟩
  obtain ⟨last, retains⟩ := rests.after history avoids
  exact ⟨last.order, (wellFormed.compute_standard standard).1,
    (last.wellFormed.compute_standard last.standard).1,
    rests.entry_compute_eq last retains last.self_mem⟩

/-- The sum of the announcer needs its input and nothing else. -/
theorem submodelOrder_announcer : announcer.submodelOrder [3] = .ok [0, 3] := by
  rw [sound_announcer.wellFormed.coherent.submodelOrder_eq_ok_iff]
  have input : Walks announcer.dependencies [3] [0] [] (.ok [0]) :=
    .lists (by decide) (by decide) .done .done
  exact .lists (by decide) (by decide) input .done

/-- The sum of the announcer computes the same when the sink and its trigger are taken out, when its
own input stays because it is read, and when another input is added and written to. -/
theorem closure_determines_announcer :
    announcer.submodelOrder [3] = .ok [0, 3] ∧
      ∃ entry, announcer.compute.model.entry 3 = .ok entry ∧
        (announcer.after [.remove 4, .remove 1, .remove 0, .add (.input .bool 1),
          .setInput 5 (.bool #[true]), .compute]).compute.model.entry 3 = .ok entry := by
  obtain ⟨closure, same, determines⟩ :=
    closure_determines reachable_announcer (by decide) (show 3 ∈ announcer.ids by decide)
  obtain rfl := Except.ok.inj (submodelOrder_announcer.symm.trans same)
  refine ⟨same, (determines _ ?_).2.2.2⟩
  have standard : (Node.input .bool 1).Standard := .input .bool 1
  simpa [Operation.Avoids] using standard

end Model

end Dataflow
