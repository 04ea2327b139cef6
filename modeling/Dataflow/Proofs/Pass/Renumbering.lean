import Dataflow.Proofs.Pass.Refining

/-!
# Renumbered copies

A copy has the nodes of its source in the same order, and each of them has its position as its id.
What the nodes read is renamed in the same way, and nothing else about them changes.  The induction
is on the nodes that were copied: the port map renames them and only them, and later nodes read
nothing else.
-/

namespace Dataflow

open Pass

variable {number : NodeId → NodeId} {nodes : List (NodeId × Node)} {type : ScalarType}
  {coordinate : Coordinate}

/-! ## Renaming -/

/-- The same element of a node with another id. -/
def Coordinate.renumber (number : NodeId → NodeId) (coordinate : Coordinate) : Coordinate :=
  { coordinate with node := number coordinate.node }

/-- The same node, which reads nodes with other ids. -/
def Node.renumber (number : NodeId → NodeId) (node : Node) : Node :=
  { node with wiring := node.wiring.map fun elements => elements.map (·.renumber number) }

/-- The position of a node among some nodes. -/
def position (nodes : List (NodeId × Node)) (id : NodeId) : NodeId :=
  (nodes.map Prod.fst).idxOf id

/-- The same nodes with other ids. -/
def renumbered (number : NodeId → NodeId) (nodes : List (NodeId × Node)) : List (NodeId × Node) :=
  nodes.map fun pair => (number pair.1, pair.2.renumber number)

/-- A renamed node has the same input ports, which read renamed elements. -/
theorem Node.inputs_renumber (node : Node) :
    (node.renumber number).inputs =
      node.inputs.map fun input =>
        { input with elements := input.elements.map (·.renumber number) } := by
  simp only [Node.inputs, Node.renumber, List.length_map, List.zipWith_map_right, List.map_zipWith]

theorem Coordinate.renumber_eq_self (same : number coordinate.node = coordinate.node) :
    coordinate.renumber number = coordinate := by
  rw [Coordinate.renumber, same]

theorem Node.renumber_eq_self {node : Node}
    (same : ∀ elements ∈ node.wiring, ∀ coordinate ∈ elements,
      number coordinate.node = coordinate.node) : node.renumber number = node := by
  have kept : ∀ elements ∈ node.wiring, elements.map (·.renumber number) = elements := by
    refine fun elements mem => (List.map_congr_left fun coordinate coordinateMem => ?_).trans
      (List.map_id' elements)
    exact Coordinate.renumber_eq_self (same elements mem coordinate coordinateMem)
  simp only [Node.renumber, List.map_congr_left kept, List.map_id']

@[simp]
theorem renumbered_append (left right : List (NodeId × Node)) :
    renumbered number (left ++ right) = renumbered number left ++ renumbered number right :=
  List.map_append

/-- What some nodes offer is offered by the renamed nodes under its new name. -/
theorem offered_renumbered (offered : Offered nodes type coordinate) :
    Offered (renumbered number nodes) type (coordinate.renumber number) := by
  obtain ⟨node, mem, port⟩ := offered
  exact ⟨node.renumber number, List.mem_map_of_mem mem, port⟩

/-! ## Port maps that rename -/

namespace PortMap

/-- The map that sends every element of some nodes to the same element of the renamed node. -/
def renumbering (number : NodeId → NodeId) (nodes : List (NodeId × Node)) : PortMap where
  entries := nodes.flatMap fun pair => pair.2.outputs.mapIdx fun index port =>
    (⟨pair.1, index⟩, (⟨number pair.1, index⟩ : OutputRef).elements port.size)

theorem renumbering_congr {other : NodeId → NodeId}
    (same : ∀ pair ∈ nodes, number pair.1 = other pair.1) :
    renumbering number nodes = renumbering other nodes := by
  simp only [renumbering]
  rw [List.flatMap_congr fun pair mem => by rw [same pair mem]]

theorem keys_renumbering (number : NodeId → NodeId) (nodes : List (NodeId × Node)) :
    (renumbering number nodes).entries.map Prod.fst =
      nodes.flatMap fun pair => (List.range pair.2.outputs.length).map (OutputRef.mk pair.1) := by
  simp only [renumbering, List.map_flatMap]
  refine List.flatMap_congr fun pair _ => ?_
  exact List.ext_getElem (by simp) fun index _ _ => by simp

theorem nodup_keys_renumbering (once : (nodes.map Prod.fst).Nodup) :
    ((renumbering number nodes).entries.map Prod.fst).Nodup := by
  rw [keys_renumbering, List.nodup_flatMap]
  refine ⟨fun pair _ => List.nodup_range.map fun _ _ same => congrArg OutputRef.port same, ?_⟩
  refine (List.pairwise_map.mp once).imp fun different => ?_
  simp only [Function.onFun, List.disjoint_left, List.mem_map]
  rintro _ ⟨_, _, rfl⟩ ⟨_, _, same⟩
  exact different (congrArg OutputRef.node same).symm

/-- A port of one of the nodes is sent to the same port of the renamed node. -/
theorem get?_renumbering (once : (nodes.map Prod.fst).Nodup) {id : NodeId} {node : Node}
    (mem : (id, node) ∈ nodes) {index : Nat} {port : OutputPort}
    (ported : node.outputs[index]? = some port) :
    (renumbering number nodes).get? ⟨id, index⟩ =
      some ((⟨number id, index⟩ : OutputRef).elements port.size) := by
  refine get?_of_mem (nodup_keys_renumbering once) (List.mem_flatMap.mpr ⟨_, mem, ?_⟩)
  obtain ⟨inside, rfl⟩ := List.getElem?_eq_some_iff.mp ported
  exact List.mem_mapIdx.mpr ⟨index, inside, rfl⟩

/-- An element of one of the nodes is renamed. -/
theorem translateCoordinate_renumbering (once : (nodes.map Prod.fst).Nodup)
    (offered : Offered nodes type coordinate) :
    (renumbering number nodes).translateCoordinate coordinate = .ok (coordinate.renumber number) := by
  obtain ⟨node, mem, port, ported, inside, _⟩ := offered
  rw [translateCoordinate_eq_ok_iff]
  refine ⟨_, get?_renumbering once mem ported, ?_⟩
  simp [OutputRef.elements, OutputRef.element, Coordinate.renumber, inside]

theorem translate_renumbering (once : (nodes.map Prod.fst).Nodup) {elements : Elements}
    (offered : ∀ coordinate ∈ elements, ∃ type, Offered nodes type coordinate) :
    (renumbering number nodes).translate elements = .ok (elements.map (·.renumber number)) := by
  rw [translate_eq_ok_iff, List.forall₂_map_right_iff, List.forall₂_same]
  intro coordinate mem
  obtain ⟨type, offered⟩ := offered coordinate mem
  exact translateCoordinate_renumbering once offered

end PortMap

/-! ## Copying -/

/-- The positions of the items of a list are the numbers from zero on. -/
theorem map_idxOf_eq_range {items : List NodeId} (once : items.Nodup) :
    items.map items.idxOf = List.range items.length :=
  List.ext_getElem (by simp) fun index _ _ => by simp [once.idxOf_getElem]

/-- A pass has copied some nodes under other ids, and its port map renames them. -/
structure Copied (number : NodeId → NodeId) (nodes : List (NodeId × Node))
    (transformer : Transformer) : Prop where
  wellFormed : transformer.target.WellFormed
  nextId : transformer.target.nextId = nodes.length
  skeleton : transformer.target.skeleton = renumbered number nodes
  portMap : transformer.portMap = .renumbering number nodes

section Copying

variable {source : Model} {before last : Transformer} {done : List (NodeId × Node)} {entry : Entry}

/-- Translated wiring is renamed wiring. -/
theorem wiring_eq_renumbered {node : Node} {wiring : List Elements} (standard : node.Standard)
    (once : (nodes.map Prod.fst).Nodup)
    (reads : ∀ input ∈ node.inputs, ∀ coordinate ∈ input.elements,
      Offered nodes input.type coordinate)
    (translated : List.Forall₂
      (fun elements images => (PortMap.renumbering number nodes).translate elements = .ok images)
      node.wiring wiring) :
    ({ node with wiring } : Node) = node.renumber number := by
  have same : node.wiring.map (fun elements => elements.map (·.renumber number)) = wiring := by
    rw [← List.forall₂_eq_eq_eq, List.forall₂_map_left_iff]
    refine ((List.forall₂_and_left _ _).mpr ⟨fun _ mem => mem, translated⟩).imp
      fun elements images both => ?_
    obtain ⟨mem, translation⟩ := both
    rw [← standard.elements_inputs] at mem
    obtain ⟨input, inputMem, rfl⟩ := List.mem_map.mp mem
    rw [PortMap.translate_renumbering once fun coordinate coordinateMem =>
      ⟨input.type, reads input inputMem coordinate coordinateMem⟩] at translation
    exact Except.ok.inj translation
  simp only [Node.renumber, same]

theorem Node.Standard.renumber {node : Node} (standard : node.Standard) :
    (node.renumber number).Standard := by
  have sameLengths : (node.renumber number).wiring.map List.length = node.wiring.map List.length := by
    simp [Node.renumber]
  have made : (node.renumber number).Made := Node.Made.rewire (.inl standard) sameLengths
  exact made.standard standard.isSome_kind?

theorem standard_of_renumbered {model : Model} (same : model.skeleton = renumbered number nodes)
    (standard : ∀ pair ∈ nodes, pair.2.Standard) : model.Standard := by
  rw [Model.standard_iff_skeleton, same]
  intro pair mem
  obtain ⟨old, oldMem, rfl⟩ := List.mem_map.mp mem
  exact (standard old oldMem).renumber

/-- Visiting the next node copies it under its number. -/
theorem Copied.exists_visit (copied : Copied number done before) (coherent : source.Coherent)
    (once : (done.map Prod.fst).Nodup) (mem : entry ∈ source.entries)
    (standard : entry.node.Standard) (fresh : entry.id ∉ done.map Prod.fst)
    (reads : ∀ input ∈ entry.node.inputs, ∀ coordinate ∈ input.elements,
      Offered done input.type coordinate)
    (next : number entry.id = done.length) :
    ∃ after, Succeeds (visit source copying entry.id) before false after ∧
      Copied number (done ++ [(entry.id, entry.node)]) after := by
  let current : CurrentNode := ⟨entry.id, entry.node.outputs.map OutputPort.size⟩
  have unmapped : before.portMap.get? ⟨entry.id, 0⟩ = none := by
    rw [PortMap.get?_eq_none_iff, copied.portMap, PortMap.keys_renumbering, List.mem_flatMap]
    rintro ⟨pair, pairMem, keyed⟩
    obtain ⟨_, _, same⟩ := List.mem_map.mp keyed
    exact fresh (List.mem_map.mpr ⟨pair, pairMem, congrArg OutputRef.node same⟩)
  have awaits : Awaits { before with current := some current } entry.id entry.node := by
    refine ⟨copied.wellFormed, rfl, unmapped, fun input inputMem coordinate coordinateMem => ?_⟩
    have offered := reads input inputMem coordinate coordinateMem
    refine ⟨coordinate.renumber number, ?_, ?_⟩
    · simp only [copied.portMap, PortMap.translateCoordinate_renumbering once offered]
    · simpa only [Model.Offers, copied.skeleton] using offered_renumbered offered
  obtain ⟨port, wiring, target, single, translated, wellFormed, nextId, skeleton, called⟩ :=
    exists_copy awaits standard
  simp only [copied.portMap] at translated
  have rewired := wiring_eq_renumbered standard once reads translated
  have place : before.target.nextId = number entry.id := copied.nextId.trans next.symm
  refine ⟨_, succeeds_visit coherent mem single called ?_, wellFormed, ?_, ?_, ?_⟩
  · rw [(awaits.mapped _).2]
    simp
  · simp only [nextId, copied.nextId, List.length_append, List.length_singleton]
  · simp only [skeleton, copied.skeleton, rewired, place, renumbered_append]
    rfl
  · simp [copied.portMap, place, PortMap.renumbering, single]

/-- Nodes of a model that read only each other are copied under their positions. -/
theorem exists_copied (coherent : source.Coherent)
    (within : ∀ pair ∈ nodes, pair ∈ source.skeleton) (standard : ∀ pair ∈ nodes, pair.2.Standard)
    (once : (nodes.map Prod.fst).Nodup) (closed : Closed nodes) (before : Transformer) :
    ∃ refined last, Succeeds (transformNodes source (nodes.map Prod.fst) copying) before
        (last.target, refined) { last with target := .empty } ∧
      Copied (position nodes) nodes last := by
  have visiting : Visiting source copying nodes (Copied (position nodes)) := by
    intro done pair rest split middle copied
    obtain ⟨entry, mem, rfl⟩ : ∃ entry ∈ source.entries, (entry.id, entry.node) = pair := by
      simpa [Model.skeleton] using within pair (by simp [split])
    have fresh := not_mem_done once split
    have next : (nodes.map Prod.fst).idxOf entry.id = done.length := by
      rw [split, List.map_append, List.idxOf_append_of_notMem fresh]
      simp
    have doneOnce : (done.map Prod.fst).Nodup := by
      rw [split, List.map_append, List.nodup_append] at once
      exact once.1
    exact ⟨false, copied.exists_visit coherent doneOnce mem
      (standard (entry.id, entry.node) (by simp [split])) fresh (closed done _ rest split) next⟩
  exact visiting.exists_transformNodes before
    ⟨Model.wellFormed_empty, rfl, by simp [renumbered, Model.skeleton], rfl⟩

/-- The copies have the ids from zero on. -/
theorem Copied.ids_eq_range (copied : Copied (position nodes) nodes last)
    (once : (nodes.map Prod.fst).Nodup) : last.target.ids = List.range nodes.length := by
  rw [Model.ids_eq_skeleton, copied.skeleton, ← List.length_map Prod.fst,
    ← map_idxOf_eq_range once]
  simp [renumbered, position]

end Copying

/-! ## Copies of models -/

namespace Model

variable {source : Model}

/-- A copy is its source with the position of each node as its id, and a port map renames the
elements of the source. -/
structure Renumbers (source copy : Model) (map : PortMap) : Prop where
  wellFormed : copy.WellFormed
  ids_eq : copy.ids = List.range source.size
  skeleton_eq : copy.skeleton = renumbered (position source.skeleton) source.skeleton
  nodes : ∀ (index : Nat) (entry : Entry), source.entries[index]? = some entry →
    ∃ twin, copy.entries[index]? = some twin ∧ twin.id = index ∧
      twin.node.operator = entry.node.operator ∧ twin.node.outputs = entry.node.outputs ∧
      twin.node.inputs = entry.node.inputs.map fun input =>
        { input with elements := input.elements.map (·.renumber (position source.skeleton)) }
  portMap_eq : map = .renumbering (position source.skeleton) source.skeleton
  keys_eq : map.entries.map Prod.fst = source.outputRefs
  once : source.outputRefs.Nodup
  translates : ∀ type coordinate, source.Offers type coordinate →
    map.translateCoordinate coordinate = .ok (coordinate.renumber (position source.skeleton))

theorem outputRefs_eq_keys (source : Model) (number : NodeId → NodeId) :
    (PortMap.renumbering number source.skeleton).entries.map Prod.fst = source.outputRefs := by
  rw [PortMap.keys_renumbering, skeleton, List.flatMap_map]
  rfl

theorem WellFormed.position_eq (wellFormed : source.WellFormed) {index : Nat}
    (inside : index < source.ids.length) : position source.skeleton source.ids[index] = index := by
  rw [position, ← ids_eq_skeleton]
  exact wellFormed.ids_nodup.idxOf_getElem index inside

/-- A model of the renumbered nodes has, at each position, the renumbered node of the source. -/
theorem WellFormed.exists_renumbered (wellFormed : source.WellFormed) {copy : Model}
    (same : copy.skeleton = renumbered (position source.skeleton) source.skeleton) {index : Nat}
    {entry : Entry} (here : source.entries[index]? = some entry) :
    ∃ twin, copy.entries[index]? = some twin ∧ twin.id = index ∧
      twin.node = entry.node.renumber (position source.skeleton) := by
  obtain ⟨inside, rfl⟩ := List.getElem?_eq_some_iff.mp here
  have inIds : index < source.ids.length := by simpa [ids] using inside
  have place : position source.skeleton source.entries[index].id = index := by
    simpa [ids] using wellFormed.position_eq inIds
  generalize position source.skeleton = number at same place ⊢
  have listed := congrArg (fun nodes : List (NodeId × Node) => nodes[index]?) same
  simpa only [skeleton, renumbered, List.getElem?_map, here, Option.map_some, place,
    Option.map_eq_some_iff, Prod.mk.injEq] using listed

/-- Copying a model renumbers it. -/
theorem WellFormed.exists_copyModel (wellFormed : source.WellFormed) (standard : source.Standard)
    (before : Transformer) :
    ∃ copy after, Succeeds (copyModel source) before copy after ∧
      source.Renumbers copy after.portMap := by
  have once : (source.skeleton.map Prod.fst).Nodup := by
    rw [← ids_eq_skeleton]
    exact wellFormed.ids_nodup
  obtain ⟨refined, last, passed, copied⟩ := exists_copied wellFormed.coherent (fun _ mem => mem)
    (standard_iff_skeleton.mp standard) once wellFormed.closed before
  refine ⟨last.target, { last with target := .empty }, ?_, copied.wellFormed, ?_, copied.skeleton,
    fun index entry here => ?_, copied.portMap, ?_, ?_, ?_⟩
  · rw [← ids_eq_skeleton] at passed
    simp only [copyModel, succeeds_bind_iff, succeeds_pure_iff]
    exact ⟨_, _, passed, rfl, rfl⟩
  · rw [copied.ids_eq_range once, ← wellFormed.coherent.length_entries, skeleton, List.length_map]
  · obtain ⟨twin, there, id, node⟩ := wellFormed.exists_renumbered copied.skeleton here
    refine ⟨twin, there, id, ?_⟩
    rw [node, ← Node.inputs_renumber]
    exact ⟨rfl, rfl, rfl⟩
  · exact copied.portMap ▸ source.outputRefs_eq_keys _
  · exact source.outputRefs_eq_keys (position source.skeleton) ▸ PortMap.nodup_keys_renumbering once
  · intro type coordinate offered
    exact copied.portMap ▸ PortMap.translateCoordinate_renumbering once offered

/-- In a copy every id is its own position. -/
theorem Renumbers.position_eq {copy : Model} {map : PortMap} (renumbers : source.Renumbers copy map)
    {id : NodeId} (mem : id ∈ copy.ids) : position copy.skeleton id = id := by
  have inside : id < copy.ids.length := by
    rw [renumbers.ids_eq] at mem ⊢
    simpa using mem
  simpa [renumbers.ids_eq] using renumbers.wellFormed.position_eq inside

/-- Nodes that keep their ids are not changed, because they read only each other. -/
theorem WellFormed.renumbered_eq_self (wellFormed : source.WellFormed) (standard : source.Standard)
    (same : ∀ id ∈ source.ids, number id = id) :
    renumbered number source.skeleton = source.skeleton := by
  refine (List.map_congr_left fun pair mem => ?_).trans (List.map_id' _)
  obtain ⟨entry, entryMem, rfl⟩ := List.mem_map.mp mem
  have kept : entry.node.renumber number = entry.node := by
    refine Node.renumber_eq_self fun elements wired coordinate coordinateMem => same _ ?_
    rw [← (standard entry entryMem).elements_inputs] at wired
    obtain ⟨input, inputMem, rfl⟩ := List.mem_map.mp wired
    obtain ⟨_, other, otherMem, id, _⟩ :=
      wellFormed.provided entry entryMem input inputMem coordinate coordinateMem
    exact mem_ids_iff.mpr ⟨other, otherMem, id⟩
  rw [same entry.id (mem_ids_iff.mpr ⟨entry, entryMem, rfl⟩), kept]

/-- Copying is a dense renumbering.  For every well-formed model of standard nodes it succeeds.  The
copy is well formed, its ids are the numbers from zero on, and its nodes are those of the source in
their order, with every coordinate that they read renumbered and nothing else changed.  The port map
has one entry for each output port of the source, and it renumbers the elements of the port.  A copy
of the copy has the same nodes under the same ids, and its port map leaves every element as it is. -/
theorem copyModel_renumbers (wellFormed : source.WellFormed) (standard : source.Standard)
    (before : Transformer) :
    ∃ copy after, Succeeds (copyModel source) before copy after ∧
      source.Renumbers copy after.portMap ∧
      ∀ start : Transformer, ∃ again last, Succeeds (copyModel copy) start again last ∧
        again.skeleton = copy.skeleton ∧ last.portMap = .renumbering id copy.skeleton ∧
        ∀ type coordinate, copy.Offers type coordinate →
          last.portMap.translateCoordinate coordinate = .ok coordinate := by
  obtain ⟨copy, after, copied, renumbers⟩ := wellFormed.exists_copyModel standard before
  refine ⟨copy, after, copied, renumbers, fun start => ?_⟩
  have copyStandard :=
    standard_of_renumbered renumbers.skeleton_eq (standard_iff_skeleton.mp standard)
  have member : ∀ pair ∈ copy.skeleton, pair.1 ∈ copy.ids := fun pair mem => by
    rw [ids_eq_skeleton]
    exact List.mem_map_of_mem mem
  obtain ⟨again, last, copiedAgain, twice⟩ := renumbers.wellFormed.exists_copyModel copyStandard start
  refine ⟨again, last, copiedAgain, ?_, ?_, fun type coordinate offered => ?_⟩
  · rw [twice.skeleton_eq,
      renumbers.wellFormed.renumbered_eq_self copyStandard fun _ => renumbers.position_eq]
  · rw [twice.portMap_eq]
    exact PortMap.renumbering_congr fun pair mem => renumbers.position_eq (member pair mem)
  · obtain ⟨node, mem, _⟩ := offered
    rw [twice.translates type coordinate ⟨node, mem, ‹_›⟩,
      Coordinate.renumber_eq_self (renumbers.position_eq (member _ mem))]

/-- The announcer has a gap before its sum, and the copy closes it. -/
theorem copyModel_renumbers_announcer :
    ∃ copy after, Succeeds (copyModel announcer) (.start hasCode) copy after ∧
      copy.ids = [0, 1, 2, 3] ∧
      (2, (⟨.coordinatewise .f64 .shift #[1], [[⟨0, 0, 0⟩]]⟩ : Node)) ∈ copy.skeleton ∧
      after.portMap.translateCoordinate ⟨3, 0, 0⟩ = .ok ⟨2, 0, 0⟩ := by
  have standard : announcer.Standard := fun entry mem =>
    (sound_announcer.made entry mem).standard (by revert entry; decide)
  obtain ⟨copy, after, copied, renumbers, _⟩ :=
    copyModel_renumbers sound_announcer.wellFormed standard (.start hasCode)
  refine ⟨copy, after, copied, renumbers.ids_eq, ?_, ?_⟩
  · rw [renumbers.skeleton_eq]
    exact .tail _ (.tail _ (.head _))
  · exact renumbers.translates .f64 ⟨3, 0, 0⟩
      ⟨_, .tail _ (.tail _ (.head _)), _, rfl, Nat.zero_lt_one, rfl⟩

end Model

end Dataflow
