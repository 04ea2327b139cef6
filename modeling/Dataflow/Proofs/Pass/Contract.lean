import Dataflow.Proofs.Pass.Renumbering
import Dataflow.Proofs.Pass.Stages

/-!
# The contract of port maps

A pass maps every output port of its source once, whatever its callback asks for.  Entries are only
appended to the port map, each of them for the node that the pass is at, and the pass refuses to
leave a node before all ports of the node are mapped.  So a port map never speaks of nodes that the
pass has not come to, and after a pass that succeeds it speaks of all ports.
-/

namespace Dataflow

namespace Model

variable {model : Model} {port : OutputRef} {size : Nat}

theorem outputSize_eq_ok_iff :
    model.outputSize port = .ok size ↔ ∃ entry, model.entry port.node = .ok entry ∧
      (entry.node.outputs.map OutputPort.size)[port.port]? = some size := by
  simp only [outputSize, bind_eq_ok_iff]
  refine exists_congr fun entry => and_congr_right fun _ => ?_
  cases found : entry.node.outputs[port.port]? with
  | none => simp [found]
  | some output => simp [found]

theorem Coherent.mem_outputRefs_iff (coherent : model.Coherent) :
    port ∈ model.outputRefs ↔
      ∃ entry, model.entry port.node = .ok entry ∧ port.port < entry.node.outputs.length := by
  simp only [outputRefs, List.mem_flatMap, List.mem_map, List.mem_range, coherent.entry_eq_ok_iff]
  constructor
  · rintro ⟨entry, mem, index, inside, rfl⟩
    exact ⟨entry, ⟨mem, rfl⟩, inside⟩
  · rintro ⟨entry, ⟨mem, same⟩, inside⟩
    exact ⟨entry, mem, port.port, inside, by rw [same]⟩

theorem WellFormed.nodup_outputRefs (wellFormed : model.WellFormed) : model.outputRefs.Nodup := by
  rw [← outputRefs_eq_keys model id]
  exact PortMap.nodup_keys_renumbering (ids_eq_skeleton model ▸ wellFormed.ids_nodup)

/-- A port map has one entry for each output port of a model, and the entry has as many elements as
the port. -/
structure MappedBy (model : Model) (map : PortMap) : Prop where
  keys_perm : (map.entries.map Prod.fst).Perm model.outputRefs
  once : (map.entries.map Prod.fst).Nodup
  sized : ∀ entry ∈ map.entries, model.outputSize entry.1 = .ok entry.2.length

/-- All output ports of a node are mapped. -/
def NodeMapped (model : Model) (map : PortMap) (id : NodeId) : Prop :=
  ∀ entry, model.entry id = .ok entry →
    ∀ port < entry.node.outputs.length, map.get? ⟨id, port⟩ ≠ none

theorem NodeMapped.mono {before after : PortMap} {id : NodeId} (mapped : model.NodeMapped before id)
    (kept : after.Extends before) : model.NodeMapped after id := by
  intro entry found port inside absent
  obtain ⟨elements, here⟩ := Option.ne_none_iff_exists'.mp (mapped entry found port inside)
  simp [kept _ _ here] at absent

/-- A map that knows only ports of a model knows each of them when all nodes are mapped. -/
theorem WellFormed.mappedBy (wellFormed : model.WellFormed) {map : PortMap}
    (once : (map.entries.map Prod.fst).Nodup)
    (sized : ∀ entry ∈ map.entries, model.outputSize entry.1 = .ok entry.2.length)
    (all : ∀ id ∈ model.ids, model.NodeMapped map id) : model.MappedBy map := by
  have coherent := wellFormed.coherent
  refine ⟨(List.perm_ext_iff_of_nodup once wellFormed.nodup_outputRefs).mpr fun port => ?_, once, sized⟩
  rw [coherent.mem_outputRefs_iff]
  constructor
  · intro keyed
    obtain ⟨entry, mem, rfl⟩ := List.mem_map.mp keyed
    obtain ⟨owner, found, listed⟩ := outputSize_eq_ok_iff.mp (sized entry mem)
    obtain ⟨inside, _⟩ := List.getElem?_eq_some_iff.mp listed
    exact ⟨owner, found, by simpa using inside⟩
  · rintro ⟨entry, found, inside⟩
    obtain ⟨mem, same⟩ := coherent.entry_eq_ok_iff.mp found
    have mapped := all port.node (mem_ids_iff.mpr ⟨entry, mem, same⟩) entry found _ inside
    exact not_not.mp fun absent => mapped (PortMap.get?_eq_none_iff.mpr absent)

end Model

namespace Pass

variable {source : Model} {scripts : Node → Script Bool} {order : List NodeId}
  {first second : Moment} {before : Transformer}

/-! ## What a pass keeps -/

/-- The target is well formed, no port is mapped twice, and what is mapped are ports of visited nodes,
to as many elements as they have. -/
structure Records (source : Model) (visited : List NodeId) (transformer : Transformer) : Prop where
  wellFormed : transformer.target.WellFormed
  once : (transformer.portMap.entries.map Prod.fst).Nodup
  visited : ∀ entry ∈ transformer.portMap.entries, entry.1.node ∈ visited
  sized : ∀ entry ∈ transformer.portMap.entries, source.outputSize entry.1 = .ok entry.2.length

/-- The nodes that a pass has left are mapped, and within a callback the transformer is at the node
that the pass came to last. -/
def Stage.Follows (source : Model) (order visited : List NodeId) (transformer : Transformer) :
    Stage → Prop
  | .between rest =>
      visited ++ rest = order ∧ ∀ id ∈ visited, source.NodeMapped transformer.portMap id
  | .within id node _ rest =>
      ∃ done entry, visited = done ++ [id] ∧ visited ++ rest = order ∧
        (∀ earlier ∈ done, source.NodeMapped transformer.portMap earlier) ∧
        source.entry id = .ok entry ∧ entry.node = node ∧
        transformer.current = some ⟨id, node.outputs.map OutputPort.size⟩
  | .over (.ok _) => visited = order ∧ ∀ id ∈ visited, source.NodeMapped transformer.portMap id
  | .over (.error _) => True

/-- What holds at every point of a pass. -/
structure Moment.Tracks (source : Model) (order : List NodeId) (moment : Moment) : Prop where
  records : Records source moment.visited moment.transformer
  follows : moment.stage.Follows source order moment.visited moment.transformer

theorem tracks_start (source : Model) (order : List NodeId) (before : Transformer) :
    (Moment.start order before).Tracks source order :=
  ⟨⟨Model.wellFormed_empty, .nil, nofun, nofun⟩, rfl, nofun⟩

/-- Mapping a port of the last node that was visited. -/
theorem Records.map {done : List NodeId} {id : NodeId} {entry : Entry} {port : Nat}
    {elements : Elements} (records : Records source (done ++ [id]) before)
    (found : source.entry id = .ok entry)
    (sized : (entry.node.outputs.map OutputPort.size)[port]? = some elements.length)
    (fresh : before.portMap.get? ⟨id, port⟩ = none) :
    Records source (done ++ [id])
      { before with portMap := ⟨before.portMap.entries ++ [(⟨id, port⟩, elements)]⟩ } := by
  refine ⟨records.wellFormed, ?_, ?_, ?_⟩
  · rw [List.map_append, List.map_singleton]
    exact records.once.append (List.nodup_singleton _)
      (List.disjoint_singleton.mpr (PortMap.get?_eq_none_iff.mp fresh))
  · simp only [List.forall_mem_append, List.forall_mem_singleton]
    exact ⟨records.visited, by simp⟩
  · simp only [List.forall_mem_append, List.forall_mem_singleton]
    exact ⟨records.sized, Model.outputSize_eq_ok_iff.mpr ⟨entry, found, sized⟩⟩

/-- A request of the callback keeps what holds. -/
theorem Moment.Tracks.ask {visited rest : List NodeId} {refined : Nat} {transformer after : Transformer}
    {id : NodeId} {node : Node} {script next : Script Bool} {request : Request}
    (tracks : Moment.Tracks source order
      ⟨visited, refined, .within id node script rest, transformer⟩)
    (changes : request.Changes transformer after) :
    Moment.Tracks source order ⟨visited, refined, .within id node next rest, after⟩ := by
  obtain ⟨records, follows⟩ := tracks
  cases changes with
  | stays => exact ⟨records, follows⟩
  | notes => exact ⟨⟨records.wellFormed, records.once, records.visited, records.sized⟩, follows⟩
  | adds added =>
      have grown := records.wellFormed.insert (Model.add_eq_ok_iff.mp added).2
      exact ⟨⟨grown, records.once, records.visited, records.sized⟩, follows⟩
  | @maps port elements current isCurrent fits fresh =>
      obtain ⟨done, entry, split, ordered, mapped, found, rfl, atNode⟩ := follows
      obtain rfl := Option.some.inj (isCurrent.symm.trans atNode)
      obtain rfl : visited = done ++ [id] := split
      have kept := PortMap.extends_append transformer.portMap ⟨id, port⟩ elements
      exact ⟨records.map found fits fresh, done, entry, rfl, ordered,
        fun earlier mem => Model.NodeMapped.mono (mapped earlier mem) kept, found, rfl, atNode⟩

/-- A node that the pass can leave is mapped like those before it. -/
theorem Moment.Tracks.leave {visited rest : List NodeId} {refined count : Nat}
    {transformer : Transformer} {id : NodeId} {node : Node} {script : Script Bool}
    (tracks : Moment.Tracks source order
      ⟨visited, refined, .within id node script rest, transformer⟩)
    (allMapped : firstUnmapped transformer.portMap id node = none) :
    Moment.Tracks source order ⟨visited, count, .between rest, transformer.leave⟩ := by
  obtain ⟨records, done, entry, split, ordered, mapped, found, rfl, _⟩ := tracks
  refine ⟨⟨records.wellFormed, records.once, records.visited, records.sized⟩, ordered,
    fun other mem => ?_⟩
  rw [split, List.mem_append, List.mem_singleton] at mem
  rcases mem with earlier | rfl
  · exact mapped other earlier
  · intro again foundAgain port inside
    obtain rfl := Except.ok.inj (found.symm.trans foundAgain)
    exact firstUnmapped_eq_none_iff.mp allMapped port inside

theorem Moment.Tracks.step (tracks : first.Tracks source order)
    (step : Step source scripts first second) : second.Tracks source order := by
  obtain ⟨wellFormed, once, visited, sized⟩ := tracks.records
  cases step with
  | finish => exact ⟨tracks.records, by simpa using tracks.follows.1, tracks.follows.2⟩
  | miss missing => exact ⟨tracks.records, trivial⟩
  | enter found =>
      obtain ⟨split, mapped⟩ := tracks.follows
      exact ⟨⟨wellFormed, once, fun entry mem => List.mem_append_left _ (visited entry mem), sized⟩,
        _, _, rfl, by simpa using split, mapped, found, rfl, rfl⟩
  | look => exact ⟨tracks.records, tracks.follows⟩
  | ask => exact tracks.ask (changes_perform _ _)
  | fail => exact ⟨⟨wellFormed, once, visited, sized⟩, trivial⟩
  | refuse => exact ⟨⟨wellFormed, once, visited, sized⟩, trivial⟩
  | leave allMapped => exact tracks.leave allMapped

theorem Moment.Tracks.steps (tracks : first.Tracks source order)
    (steps : Steps source scripts first second) : second.Tracks source order := by
  induction steps with
  | refl => exact tracks
  | tail _ step ih => exact ih.step step

/-! ## What a pass never does -/

/-- Entries of the port map are only appended. -/
theorem Request.Changes.grows {request : Request} {transformer after : Transformer}
    (changes : request.Changes transformer after) :
    transformer.portMap.entries <+: after.portMap.entries := by
  cases changes with
  | maps => exact List.prefix_append _ _
  | _ => exact List.prefix_rfl

theorem Step.grows (step : Step source scripts first second) :
    first.transformer.portMap.entries <+: second.transformer.portMap.entries := by
  cases step with
  | ask =>
      exact (changes_perform _ _).grows
  | _ => exact List.prefix_rfl

theorem Steps.grows (steps : Steps source scripts first second) :
    first.transformer.portMap.entries <+: second.transformer.portMap.entries := by
  induction steps with
  | refl => exact List.prefix_rfl
  | tail _ step ih => exact ih.trans step.grows

/-- Nothing that belongs to a node that was not visited is translated. -/
theorem Moment.Tracks.translate_ne_ok (tracks : first.Tracks source order) {elements images : Elements}
    {coordinate : Coordinate} (mem : coordinate ∈ elements) (ahead : coordinate.node ∉ first.visited) :
    first.transformer.portMap.translate elements ≠ .ok images := by
  intro translated
  obtain ⟨image, _, step⟩ := exists_of_mem_left (PortMap.translate_eq_ok_iff.mp translated) mem
  have unmapped : first.transformer.portMap.get? coordinate.output = none := by
    rw [PortMap.get?_eq_none_iff]
    intro keyed
    obtain ⟨entry, entryMem, same⟩ := List.mem_map.mp keyed
    have visited := tracks.records.visited entry entryMem
    rw [same] at visited
    exact ahead visited
  simp [PortMap.translateCoordinate_of_get?_eq_none unmapped] at step

/-! ## Passes -/

/-- A pass that comes to the end of a callback with a port that is not mapped stops there. -/
theorem outcome_of_unmapped {visited rest : List NodeId} {refined : Nat} {id : NodeId} {node : Node}
    {changed : Bool} {transformer : Transformer} {port : OutputRef}
    (steps : Steps source scripts (.start order before)
      ⟨visited, refined, .within id node (.stop (.ok changed)) rest, transformer⟩)
    (unmapped : firstUnmapped transformer.portMap id node = some port) :
    outcome (transformNodes source order fun node => (scripts node).run) before =
      (.error (.unmappedPort port), transformer.leave) := by
  obtain ⟨all, count, result, last, toEnd, returned⟩ :=
    exists_steps_transformNodes source scripts order before
  have refused := steps.tail (.refuse unmapped)
  rcases Relation.ReflTransGen.cases_head (Steps.before_over refused toEnd rfl) with same | ⟨_, step, _⟩
  · cases same
    exact returned
  · exact absurd step Step.not_over

/-- A pass over a model that succeeds has mapped all output ports, and its target is well formed. -/
theorem mapped_of_transformModel (wellFormed : source.WellFormed) {target : Model} {refined : Nat}
    {after : Transformer}
    (succeeded : Succeeds (transformModel source fun node => (scripts node).run) before
      (target, refined) after) : source.MappedBy after.portMap ∧ target.WellFormed := by
  obtain ⟨visited, count, result, last, steps, returned⟩ :=
    exists_steps_transformNodes source scripts source.ids before
  have returned := succeeded.symm.trans returned
  have tracks := (tracks_start source source.ids before).steps steps
  cases result with
  | error error => cases returned
  | ok total =>
      cases returned
      obtain ⟨rfl, all⟩ := tracks.follows
      exact ⟨wellFormed.mappedBy tracks.records.once tracks.records.sized all,
        tracks.records.wellFormed⟩

/-- A pass with a scripted callback that succeeds has mapped all output ports. -/
theorem mapped_of_scripted (wellFormed : source.WellFormed) {callback : Node → Pass Bool}
    (scripted : ∀ node, Scripted (callback node)) {target : Model} {refined : Nat} {after : Transformer}
    (succeeded : Succeeds (transformModel source callback) before (target, refined) after) :
    source.MappedBy after.portMap ∧ target.WellFormed := by
  obtain ⟨scripts, rfl⟩ := exists_scripts scripted
  exact mapped_of_transformModel wellFormed succeeded

theorem mapped_of_refinePass (wellFormed : source.WellFormed) {target : Model} {refined : Nat}
    {after : Transformer} (succeeded : Succeeds (refinePass source) before (target, refined) after) :
    source.MappedBy after.portMap ∧ target.WellFormed :=
  mapped_of_scripted wellFormed scripted_refining succeeded

theorem mapped_of_byRules (wellFormed : source.WellFormed) {rules : List (String × Recipe)}
    {target : Model} {refined : Nat} {after : Transformer}
    (succeeded : Succeeds (transformModel source (byRules rules)) before (target, refined) after) :
    source.MappedBy after.portMap ∧ target.WellFormed :=
  mapped_of_scripted wellFormed (scripted_byRules rules) succeeded

/-- A pass that copies standard nodes succeeds. -/
theorem exists_copies (wellFormed : source.WellFormed) (standard : source.Standard)
    (before : Transformer) :
    ∃ target refined after,
      Succeeds (transformModel source copying) before (target, refined) after := by
  have once : (source.skeleton.map Prod.fst).Nodup :=
    Model.ids_eq_skeleton source ▸ wellFormed.ids_nodup
  obtain ⟨target, refined, after, passed, _⟩ :=
    exists_transformNodes wellFormed.coherent replacing_copying (fun _ mem => mem)
      (Model.standard_iff_skeleton.mp standard) once wellFormed.closed before
  rw [← Model.ids_eq_skeleton] at passed
  exact ⟨target, refined, after, passed⟩

/-- The contract of port maps.  For every well-formed source and every callback that works through
requests to the transformer, whatever it makes of their failures: a pass over the source that succeeds
has mapped each output port of the source once, to as many elements as the port has, and its target is
well formed.  A pass over any nodes goes through moments to its end, and returns what the last one
has.  If it comes to the end of a callback that does not fail and a port of the node is not mapped, it
stops there and names the lowest such port.  At no moment is a port mapped twice, what is mapped stays
as it is at all later moments, and elements of a node that was not visited yet cannot be
translated. -/
theorem passes_map_each_port_once (wellFormed : source.WellFormed) (scripts : Node → Script Bool)
    (before : Transformer) :
    (∀ target refined after,
      Succeeds (transformModel source fun node => (scripts node).run) before (target, refined) after →
        source.MappedBy after.portMap ∧ target.WellFormed) ∧
    ∀ order,
      (∃ visited refined result last,
        Steps source scripts (.start order before) ⟨visited, refined, .over result, last⟩ ∧
          outcome (transformNodes source order fun node => (scripts node).run) before =
            conclusion result last) ∧
      (∀ visited refined id node changed rest transformer port,
        Steps source scripts (.start order before)
          ⟨visited, refined, .within id node (.stop (.ok changed)) rest, transformer⟩ →
        port < node.outputs.length → transformer.portMap.get? ⟨id, port⟩ = none →
        (∀ lower < port, transformer.portMap.get? ⟨id, lower⟩ ≠ none) →
          outcome (transformNodes source order fun node => (scripts node).run) before =
            (.error (.unmappedPort ⟨id, port⟩), transformer.leave)) ∧
      ∀ moment, Steps source scripts (.start order before) moment →
        (moment.transformer.portMap.entries.map Prod.fst).Nodup ∧
        (∀ later, Steps source scripts moment later →
          moment.transformer.portMap.entries <+: later.transformer.portMap.entries) ∧
        ∀ elements, (∃ coordinate ∈ elements, coordinate.node ∉ moment.visited) →
          ∀ images, moment.transformer.portMap.translate elements ≠ .ok images := by
  refine ⟨fun target refined after => mapped_of_transformModel wellFormed, fun order =>
    ⟨exists_steps_transformNodes source scripts order before, ?_, fun moment steps => ?_⟩⟩
  · intro visited refined id node changed rest transformer port steps inside unmapped lowest
    exact outcome_of_unmapped steps (firstUnmapped_eq_some inside unmapped lowest)
  · have tracks := (tracks_start source order before).steps steps
    refine ⟨tracks.records.once, fun later => Steps.grows, fun elements ahead images => ?_⟩
    obtain ⟨coordinate, mem, notVisited⟩ := ahead
    exact tracks.translate_ne_ok mem notVisited

/-- The announcer is mapped by a copy.  A callback that asks for nothing is stopped at the first port
of the announcer. -/
theorem passes_map_each_port_once_announcer :
    announcer.WellFormed ∧
      (∃ target refined after,
        Succeeds (transformModel announcer copying) (.start hasCode) (target, refined) after ∧
          announcer.MappedBy after.portMap ∧ target.WellFormed) ∧
      (outcome (transformModel announcer fun _ => (Script.stop (.ok false)).run)
        (.start hasCode)).1 = .error (.unmappedPort ⟨0, 0⟩) := by
  have wellFormed := sound_announcer.wellFormed
  refine ⟨wellFormed, ?_, ?_⟩
  · obtain ⟨scripts, same⟩ := exists_scripts scripted_copying
    obtain ⟨target, refined, after, copied⟩ :=
      exists_copies wellFormed standard_announcer (.start hasCode)
    refine ⟨target, refined, after, copied, ?_⟩
    rw [same] at copied
    exact (passes_map_each_port_once wellFormed scripts (.start hasCode)).1 _ _ _ copied
  · have entered : Steps announcer (fun _ => .stop (.ok false))
        (.start announcer.ids (.start hasCode)) _ := .single (.enter rfl)
    rw [transformModel, ((passes_map_each_port_once wellFormed _ _).2 _).2.1 _ _ _ _ _ _ _ 0 entered
      (by decide) rfl fun _ below => absurd below (Nat.not_lt_zero _)]

end Pass

end Dataflow
