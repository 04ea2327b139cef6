import Dataflow.Proofs.Pass.Convergence
import Dataflow.Proofs.Pass.Grounding
import Dataflow.Proofs.Pass.Submodels

/-!
# What a transformer remembers

Every operation on a transformer runs passes, and a pass starts with an empty port map.  So an
operation forgets the port map of the one before it, also when it fails.  After an operation that
completed the port map is the one of that operation.  After one that failed it is what the pass that
failed had mapped so far, or all that a pass had mapped before a later step failed.
-/

namespace Dataflow

open Pass

/-! ## Complete and partial port maps -/

namespace Model

variable {source : Model} {complete nodes visited : List NodeId} {map second composed : PortMap}

/-- A port map speaks of output ports of visited nodes, of each of them at most once and with as many
elements as the port has, and it speaks of all ports of complete nodes. -/
structure Maps (source : Model) (complete visited : List NodeId) (map : PortMap) : Prop where
  once : (map.entries.map Prod.fst).Nodup
  sized : ∀ entry ∈ map.entries, source.outputSize entry.1 = .ok entry.2.length
  visited : ∀ entry ∈ map.entries, entry.1.node ∈ visited
  complete : ∀ id ∈ complete, source.NodeMapped map id

/-- A port map as a pass over some nodes leaves it half-way: it speaks of the first nodes, and only
the last of them can have ports that are not mapped. -/
def MapsPart (source : Model) (nodes : List NodeId) (map : PortMap) : Prop :=
  ∃ visited, visited <+: nodes ∧ source.Maps visited.dropLast visited map

theorem Maps.part (maps : source.Maps nodes nodes map) : source.MapsPart nodes map :=
  ⟨nodes, List.prefix_rfl, maps.once, maps.sized, maps.visited,
    fun id mem => maps.complete id (List.mem_of_mem_dropLast mem)⟩

theorem Maps.mappedBy (maps : source.Maps source.ids source.ids map)
    (wellFormed : source.WellFormed) : source.MappedBy map :=
  wellFormed.mappedBy maps.once maps.sized maps.complete

/-- The composition with another map speaks of the same ports. -/
theorem Maps.compose (maps : source.Maps complete visited map)
    (composition : map.compose second = .ok composed) : source.Maps complete visited composed := by
  have pointwise := PortMap.compose_eq_ok_iff.mp composition
  have sameKeys : composed.entries.map Prod.fst = map.entries.map Prod.fst := by
    rw [← List.forall₂_eq_eq_eq, List.forall₂_map_left_iff, List.forall₂_map_right_iff]
    exact pointwise.flip.imp fun _ _ step => step.1
  refine ⟨sameKeys ▸ maps.once, fun image mem => ?_, fun image mem => ?_, fun id mem => ?_⟩
  · obtain ⟨entry, entryMem, key, translated⟩ := exists_of_mem_right pointwise mem
    rw [key, length_of_translate translated]
    exact maps.sized entry entryMem
  · obtain ⟨entry, entryMem, key, _⟩ := exists_of_mem_right pointwise mem
    rw [key]
    exact maps.visited entry entryMem
  · intro entry found port inside
    have mapped := maps.complete id mem entry found port inside
    rw [Ne, PortMap.get?_eq_none_iff] at mapped ⊢
    rwa [sameKeys]

end Model

/-! ## Passes -/

namespace Pass

section Passes

variable {source model : Model} {scripts : Node → Script Bool} {nodes : List NodeId} {moment : Moment}
  {callback : Node → Pass Bool} {before after : Transformer} {error : ModelError}

/-- A pass that has not come to its end has mapped the nodes that it left. -/
theorem Moment.Tracks.mapsPart (tracks : moment.Tracks source nodes)
    (goesOn : ∀ result, moment.stage ≠ .over result) :
    source.MapsPart nodes moment.transformer.portMap := by
  obtain ⟨visited, refined, stage, transformer⟩ := moment
  obtain ⟨⟨_, once, within, sized⟩, follows⟩ := tracks
  refine ⟨visited, ?_⟩
  rcases stage with rest | ⟨id, node, script, rest⟩ | result
  · obtain ⟨split, mapped⟩ := follows
    exact ⟨⟨rest, split⟩, once, sized, within, fun id mem => mapped id (List.mem_of_mem_dropLast mem)⟩
  · obtain ⟨done, entry, isLast, split, mapped, _⟩ := follows
    obtain rfl : visited = done ++ [id] := isLast
    exact ⟨⟨rest, split⟩, once, sized, within, by simpa using mapped⟩
  · exact absurd rfl (goesOn result)

/-- The last step of a pass that fails changes nothing about the port map. -/
theorem mapsPart_of_steps {visited : List NodeId} {refined : Nat}
    (steps : Steps source scripts (.start nodes before)
      ⟨visited, refined, .over (.error error), after⟩) :
    source.MapsPart nodes after.portMap := by
  rcases Relation.ReflTransGen.cases_tail steps with same | ⟨last, earlier, step⟩
  · cases same
  · have tracks := (tracks_start source nodes before).steps earlier
    cases step with
    | miss => exact tracks.mapsPart nofun
    | fail => exact tracks.mapsPart nofun
    | refuse => exact tracks.mapsPart nofun

/-- A pass that completes has mapped all of its nodes. -/
theorem maps_of_transformNodes (scripted : ∀ node, Scripted (callback node)) {result : Model × Nat}
    (succeeded : Succeeds (transformNodes source nodes callback) before result after) :
    source.Maps nodes nodes after.portMap := by
  obtain ⟨scripts, rfl⟩ := exists_scripts scripted
  obtain ⟨visited, count, last, stop, steps, returned⟩ :=
    exists_steps_transformNodes source scripts nodes before
  rw [succeeded] at returned
  obtain ⟨⟨_, once, within, sized⟩, follows⟩ := (tracks_start source nodes before).steps steps
  cases last with
  | error error => cases returned
  | ok total =>
      cases returned
      obtain ⟨rfl, mapped⟩ := follows
      exact ⟨once, sized, within, mapped⟩

/-- A pass that fails leaves what it had mapped. -/
theorem mapsPart_of_transformNodes (scripted : ∀ node, Scripted (callback node))
    (failed : outcome (transformNodes source nodes callback) before = (.error error, after)) :
    source.MapsPart nodes after.portMap := by
  obtain ⟨scripts, rfl⟩ := exists_scripts scripted
  obtain ⟨visited, count, last, stop, steps, returned⟩ :=
    exists_steps_transformNodes source scripts nodes before
  rw [failed] at returned
  cases last with
  | error error =>
      cases returned
      exact mapsPart_of_steps steps
  | ok total => cases returned

/-- A pass does not depend on the target and the port map that it finds. -/
theorem outcome_transformNodes_cleared (source : Model) (nodes : List NodeId)
    (callback : Node → Pass Bool) (before : Transformer) :
    outcome (transformNodes source nodes callback) before.cleared =
      outcome (transformNodes source nodes callback) before := by
  simp only [transformNodes, outcome_bind, outcome_modify]
  rfl

end Passes

end Pass

/-! ## Operations -/

/-- An operation on a transformer.  The callback of a transformation is a script for each node. -/
inductive Transformer.Operation where
  | copy (source : Model)
  | copyPart (source : Model) (outputs : List Elements)
  | refine (source : Model) (options : RefineOptions)
  | transform (source : Model) (scripts : Node → Script Bool)

namespace Transformer.Operation

def source : Operation → Model
  | copy source | copyPart source _ | refine source _ | transform source _ => source

/-- Performs an operation and returns the model that it makes. -/
def perform : Operation → Pass Model
  | copy source => copyModel source
  | copyPart source outputs => Prod.fst <$> copySubmodel source outputs
  | refine source options => Refined.model <$> refineModel source options
  | transform source scripts => Prod.fst <$> transformModel source fun node => (scripts node).run

/-- The passes of an operation: the models that it can run a pass over, with the nodes that the pass
visits.  Only a refinement goes on with what an earlier pass made. -/
inductive Runs : Operation → Model → List NodeId → Prop
  | copy (source : Model) : Runs (.copy source) source source.ids
  | copyPart {source : Model} {outputs : List Elements} {needed : List NodeId}
      (sorted : source.submodelOrder (Model.roots outputs) = .ok needed) :
      Runs (.copyPart source outputs) source (source.ids.filter (· ∈ needed))
  | refine (source : Model) (options : RefineOptions) :
      Runs (.refine source options) source source.ids
  | again {source model target : Model} {options : RefineOptions} {nodes : List NodeId}
      {refined : Nat} {before after : Transformer}
      (earlier : Runs (.refine source options) model nodes)
      (passed : Succeeds (refinePass model) before (target, refined) after) :
      Runs (.refine source options) target target.ids
  | transform (source : Model) (scripts : Node → Script Bool) :
      Runs (.transform source scripts) source source.ids

/-! ## What an operation forgets -/

section Forgetting

variable {operation : Operation} {before : Transformer}

/-- An operation does not depend on the target and the port map that it finds. -/
theorem outcome_perform_cleared (wellFormed : operation.source.WellFormed) (before : Transformer) :
    outcome operation.perform before.cleared = outcome operation.perform before := by
  cases operation with
  | copy source =>
      simp only [perform, copyModel, transformModel, outcome_bind, outcome_transformNodes_cleared]
  | copyPart source outputs =>
      obtain ⟨needed, sorted⟩ : ∃ needed, source.submodelOrder (Model.roots outputs) = .ok needed :=
        wellFormed.exists_submodelOrder _
      simp only [perform, outcome_map, Model.outcome_copySubmodel sorted,
        outcome_transformNodes_cleared]
  | refine source options =>
      obtain ⟨_ | limit⟩ := options
      · simp only [perform, refineModel, copyModel, transformModel, outcome_map, outcome_bind,
          outcome_transformNodes_cleared]
      · simp only [perform, refineModel, refinePass, transformModel, outcome_map, outcome_bind,
          outcome_transformNodes_cleared]
  | transform source scripts =>
      simp only [perform, transformModel, outcome_map, outcome_transformNodes_cleared]

end Forgetting

/-! ## What an operation leaves when it completes -/

section Completing

variable {operation : Operation} {source model target : Model} {options : RefineOptions}
  {before after : Transformer} {total : PortMap} {limit iterations : Nat} {refined : Refined}
  {complete visited : List NodeId}

/-- Further passes translate what stands for the ports of the first source. -/
theorem maps_of_refineMore (maps : source.Maps complete visited total)
    (succeeded : Succeeds (refineMore limit model total iterations) before refined after) :
    source.Maps complete visited refined.portMap := by
  induction limit generalizing model total iterations before with
  | zero =>
      obtain ⟨rfl, _⟩ := succeeds_pure_iff.mp succeeded
      exact maps
  | succ limit ih =>
      obtain ⟨next, changed, between, composed, _, composition, rest⟩ := of_refineMore_succ succeeded
      rcases rest with ⟨_, rfl, _⟩ | ⟨_, others⟩
      · exact maps.compose composition
      · exact ih (maps.compose composition) others

/-- A refinement installs the port map that it returns. -/
theorem portMap_of_refineModel
    (succeeded : Succeeds (refineModel source options) before refined after) :
    after.portMap = refined.portMap := by
  obtain ⟨_ | limit⟩ := options
  · exact (of_refineModel_zero succeeded).2.2.2.symm
  · simp only [refineModel_eq, conclude, succeeds_bind_iff, succeeds_get_iff, succeeds_set_iff,
      succeeds_pure_iff] at succeeded
    obtain ⟨_, _, _, _, _, _, _, _, _, _, _, _, _, _, rfl, rfl, rfl⟩ := succeeded
    rfl

theorem maps_of_copyModel (succeeded : Succeeds (copyModel source) before target after) :
    source.Maps source.ids source.ids after.portMap := by
  simp only [copyModel, succeeds_bind_iff, succeeds_pure_iff] at succeeded
  obtain ⟨_, _, passed, _, rfl⟩ := succeeded
  exact maps_of_transformNodes scripted_copying passed

/-- A copy of a submodel that completes has the target and the port map of its pass. -/
theorem passed_of_copySubmodel {outputs : List Elements} {needed : List NodeId}
    {result : Model × List Elements}
    (sorted : source.submodelOrder (Model.roots outputs) = .ok needed)
    (succeeded : Succeeds (copySubmodel source outputs) before result after) :
    ∃ count, Succeeds (transformNodes source (source.ids.filter (· ∈ needed)) copying) before
      (result.1, count) after := by
  rw [Succeeds, Model.outcome_copySubmodel sorted] at succeeded
  split at succeeded
  · cases succeeded
  · rename_i passed
    obtain ⟨translated, rfl⟩ := Prod.mk.inj succeeded
    obtain ⟨_, _, rfl⟩ := map_eq_ok_iff.mp translated
    exact ⟨_, passed⟩

theorem maps_of_copySubmodel {outputs : List Elements} {needed : List NodeId}
    {result : Model × List Elements}
    (sorted : source.submodelOrder (Model.roots outputs) = .ok needed)
    (succeeded : Succeeds (copySubmodel source outputs) before result after) :
    source.Maps (source.ids.filter (· ∈ needed)) (source.ids.filter (· ∈ needed)) after.portMap := by
  obtain ⟨_, passed⟩ := passed_of_copySubmodel sorted succeeded
  exact maps_of_transformNodes scripted_copying passed

theorem maps_of_refineModel
    (succeeded : Succeeds (refineModel source options) before refined after) :
    source.Maps source.ids source.ids after.portMap := by
  obtain ⟨_ | limit⟩ := options
  · exact maps_of_copyModel (of_refineModel_zero succeeded).1
  · rw [portMap_of_refineModel succeeded]
    obtain ⟨model, changed, between, last, stop, passed, finished, concludes⟩ :=
      of_refineModel_succ succeeded
    have maps : source.Maps source.ids source.ids between.portMap :=
      maps_of_transformNodes scripted_refining passed
    rw [concludes.portMap_eq]
    rcases finished with ⟨_, rfl, _⟩ | ⟨_, others⟩
    · exact maps
    · exact maps_of_refineMore maps others

/-- After an operation that completes all ports of the nodes that it visits are mapped. -/
theorem maps_of_perform (wellFormed : operation.source.WellFormed)
    (succeeded : Succeeds operation.perform before target after) :
    ∃ nodes, operation.Runs operation.source nodes ∧
      operation.source.Maps nodes nodes after.portMap := by
  cases operation with
  | copy source => exact ⟨_, .copy source, maps_of_copyModel succeeded⟩
  | copyPart source outputs =>
      obtain ⟨result, succeeded, _⟩ := succeeds_map_iff.mp succeeded
      obtain ⟨needed, sorted⟩ : ∃ needed, source.submodelOrder (Model.roots outputs) = .ok needed :=
        wellFormed.exists_submodelOrder _
      exact ⟨_, .copyPart sorted, maps_of_copySubmodel sorted succeeded⟩
  | refine source options =>
      obtain ⟨refined, succeeded, _⟩ := succeeds_map_iff.mp succeeded
      exact ⟨_, .refine source options, maps_of_refineModel succeeded⟩
  | transform source scripts =>
      obtain ⟨result, succeeded, _⟩ := succeeds_map_iff.mp succeeded
      exact ⟨_, .transform source scripts,
        maps_of_transformNodes (fun node => ⟨scripts node, fun _ => rfl⟩) succeeded⟩

/-- What stands for the ports of a model in one that represents it has their types. -/
theorem grounded_of_represents {map : PortMap} (represents : Represents map source target)
    (wellFormed : source.WellFormed) (mapped : source.MappedBy map) : map.Grounded source target := by
  intro entry mem owner output found listed image imageMem
  obtain ⟨index, inside, rfl⟩ := List.getElem_of_mem imageMem
  obtain ⟨again, foundAgain, sized⟩ := Model.outputSize_eq_ok_iff.mp (mapped.sized entry mem)
  obtain rfl := Except.ok.inj (found.symm.trans foundAgain)
  have sameSize : output.size = entry.2.length := by simpa [listed] using sized
  obtain ⟨ownerMem, same⟩ := wellFormed.coherent.entry_eq_ok_iff.mp found
  have offered : source.Offers output.type (entry.1.element index) :=
    ⟨owner.node, Model.mem_skeleton_iff.mpr ⟨owner, ownerMem, same, rfl⟩, output, listed,
      sameSize ▸ inside, rfl⟩
  obtain ⟨image, translated, offers⟩ := represents.translates _ _ offered
  obtain ⟨elements, keyed, read⟩ := PortMap.translateCoordinate_eq_ok_iff.mp translated
  obtain rfl := Option.some.inj ((PortMap.get?_of_mem mapped.once mem).symm.trans keyed)
  obtain ⟨_, rfl⟩ := List.getElem?_eq_some_iff.mp read
  exact offers

theorem represents_of_refineModel (wellFormed : source.WellFormed) (standard : source.Standard)
    (succeeded : Succeeds (refineModel source options) before refined after) :
    Represents after.portMap source refined.model := by
  obtain ⟨other, last, again, represents⟩ := exists_refineModel wellFormed standard options before
  obtain ⟨rfl, rfl⟩ := succeeded.unique again
  rwa [portMap_of_refineModel succeeded]

/-- An operation that maps ports to elements of its target only.  Copies do, and refinements of
standard nodes; of other transformations it has to be known. -/
def MapsInside (before : Transformer) : Operation → Prop
  | copy _ | copyPart .. => True
  | refine source _ => source.Standard
  | transform source scripts => GroundedCourse source scripts source.ids before

/-- After an operation that completes the port map leads to elements of the model that it made. -/
theorem grounded_of_perform (wellFormed : operation.source.WellFormed)
    (inside : operation.MapsInside before)
    (succeeded : Succeeds operation.perform before target after) :
    after.portMap.Grounded operation.source target := by
  cases operation with
  | copy source => exact (leads_of_copyModel wellFormed succeeded).grounded
  | copyPart source outputs =>
      obtain ⟨result, copied, rfl⟩ := succeeds_map_iff.mp succeeded
      obtain ⟨needed, sorted⟩ : ∃ needed, source.submodelOrder (Model.roots outputs) = .ok needed :=
        wellFormed.exists_submodelOrder _
      obtain ⟨_, passed⟩ := passed_of_copySubmodel sorted copied
      rw [copying_eq_run] at passed
      exact grounded_of_transformNodes groundedCourse_copyScript passed
  | refine source options =>
      obtain ⟨refined, finished, rfl⟩ := succeeds_map_iff.mp succeeded
      exact grounded_of_represents (represents_of_refineModel wellFormed inside finished) wellFormed
        ((maps_of_refineModel finished).mappedBy wellFormed)
  | transform source scripts =>
      obtain ⟨result, passed, rfl⟩ := succeeds_map_iff.mp succeeded
      exact grounded_of_transformNodes inside passed

end Completing

/-! ## What an operation leaves when it fails -/

section Failing

variable {operation : Operation} {source model target : Model} {options : RefineOptions}
  {before after : Transformer} {total : PortMap} {limit iterations : Nat} {error : ModelError}

/-- A refinement that fails leaves the port map of its last pass.  The induction is on the number of
passes that are left. -/
theorem mapsPart_of_refineMore (runs : Runs (.refine source options) model model.ids)
    (failed : outcome (refineMore limit model total iterations) before = (.error error, after)) :
    ∃ last nodes, Runs (.refine source options) last nodes ∧ last.MapsPart nodes after.portMap := by
  induction limit generalizing model total iterations before with
  | zero => cases failed
  | succ limit ih =>
      rcases outcome_bind_eq_error_iff.mp failed with
        inPass | ⟨⟨next, changed⟩, between, passed, rest⟩
      · exact ⟨model, _, runs, mapsPart_of_transformNodes scripted_refining inPass⟩
      · simp only [outcome_bind, outcome_get, outcome_lift] at rest
        cases composition : total.compose between.portMap with
        | error other =>
            rw [composition] at rest
            cases rest
            exact ⟨model, _, runs, (maps_of_transformNodes scripted_refining passed).part⟩
        | ok composed =>
            rw [composition] at rest
            dsimp only at rest
            split at rest
            · cases rest
            · exact ih (.again runs passed) rest

theorem mapsPart_of_copyModel (failed : outcome (copyModel source) before = (.error error, after)) :
    source.MapsPart source.ids after.portMap := by
  rcases outcome_bind_eq_error_iff.mp failed with inPass | ⟨_, _, _, rest⟩
  · exact mapsPart_of_transformNodes scripted_copying inPass
  · cases rest

/-- A copy of a submodel can also fail after its pass, when it translates the requested elements. -/
theorem mapsPart_of_copySubmodel {outputs : List Elements} {needed : List NodeId}
    (sorted : source.submodelOrder (Model.roots outputs) = .ok needed)
    (failed : outcome (copySubmodel source outputs) before = (.error error, after)) :
    source.MapsPart (source.ids.filter (· ∈ needed)) after.portMap := by
  rw [Model.outcome_copySubmodel sorted] at failed
  split at failed
  · rename_i inPass
    cases failed
    exact mapsPart_of_transformNodes scripted_copying inPass
  · rename_i passed
    obtain ⟨_, rfl⟩ := Prod.mk.inj failed
    exact (maps_of_transformNodes scripted_copying passed).part

theorem mapsPart_of_refineModel
    (failed : outcome (refineModel source options) before = (.error error, after)) :
    ∃ last nodes, Runs (.refine source options) last nodes ∧ last.MapsPart nodes after.portMap := by
  have runs : Runs (.refine source options) source source.ids := .refine source options
  obtain ⟨_ | limit⟩ := options
  · rcases outcome_bind_eq_error_iff.mp failed with inCopy | ⟨_, _, _, rest⟩
    · exact ⟨source, _, runs, mapsPart_of_copyModel inCopy⟩
    · cases rest
  · rw [refineModel_eq] at failed
    rcases outcome_bind_eq_error_iff.mp failed with inPass | ⟨⟨model, changed⟩, between, passed, rest⟩
    · exact ⟨source, _, runs, mapsPart_of_transformNodes scripted_refining inPass⟩
    · rw [outcome_bind, outcome_get] at rest
      rcases outcome_bind_eq_error_iff.mp rest with inMore | ⟨_, _, _, concluded⟩
      · split at inMore
        · cases inMore
        · exact mapsPart_of_refineMore (.again runs passed) inMore
      · cases concluded

/-- After an operation that fails the port map is the one of a pass of the operation. -/
theorem mapsPart_of_perform (wellFormed : operation.source.WellFormed)
    (failed : outcome operation.perform before = (.error error, after)) :
    ∃ model nodes, operation.Runs model nodes ∧ model.MapsPart nodes after.portMap := by
  cases operation with
  | copy source => exact ⟨source, _, .copy source, mapsPart_of_copyModel failed⟩
  | copyPart source outputs =>
      obtain ⟨needed, sorted⟩ : ∃ needed, source.submodelOrder (Model.roots outputs) = .ok needed :=
        wellFormed.exists_submodelOrder _
      exact ⟨source, _, .copyPart sorted,
        mapsPart_of_copySubmodel sorted (outcome_map_eq_error_iff.mp failed)⟩
  | refine source options => exact mapsPart_of_refineModel (outcome_map_eq_error_iff.mp failed)
  | transform source scripts =>
      exact ⟨source, _, .transform source scripts, mapsPart_of_transformNodes
        (fun node => ⟨scripts node, fun _ => rfl⟩) (outcome_map_eq_error_iff.mp failed)⟩

end Failing

/-! ## The port map of a transformer -/

/-- The port map of a transformer is that of its last operation, whether the operation completed or
not.  What an operation does, its failure included, does not depend on the target and the port map
that it finds.  If it completes, all output ports of the nodes that it visits are mapped once, to as
many elements as they have, and for copies and refinements of standard nodes these are elements of the
model that it made, with the types of the ports.  If it fails, the port map is that of one of its
passes, over the source or, in a refinement, over what an earlier pass made: it speaks of the first
nodes of the pass, and only ports of the last of these can be missing. -/
theorem operations_leave_their_own_map {operation : Operation}
    (wellFormed : operation.source.WellFormed) (before : Transformer) :
    (∀ target portMap, outcome operation.perform { before with target, portMap } =
      outcome operation.perform before) ∧
    (∀ target after, Succeeds operation.perform before target after →
      (∃ nodes, operation.Runs operation.source nodes ∧
        operation.source.Maps nodes nodes after.portMap) ∧
      (operation.MapsInside before → after.portMap.Grounded operation.source target)) ∧
    ∀ error after, outcome operation.perform before = (.error error, after) →
      ∃ model nodes, operation.Runs model nodes ∧ model.MapsPart nodes after.portMap := by
  refine ⟨fun target portMap => ?_, fun target after succeeded => ?_,
    fun error after => mapsPart_of_perform wellFormed⟩
  · have cleared := outcome_perform_cleared wellFormed { before with target, portMap }
    exact cleared.symm.trans (outcome_perform_cleared wellFormed before)
  · exact ⟨maps_of_perform wellFormed succeeded,
      fun inside => grounded_of_perform wellFormed inside succeeded⟩

/-- After a copy of the announcer that completed, a transformation that fails leaves nothing of the
port map of the copy. -/
theorem exists_forgotten_map :
    ∃ model between after,
      Succeeds (copy announcer).perform (.start hasCode) model between ∧
      outcome (transform announcer fun _ => .stop (.ok false)).perform between =
        (.error (.unmappedPort ⟨0, 0⟩), after) ∧
      after.portMap = .empty ∧ between.portMap ≠ .empty := by
  obtain ⟨target, refined, between, copied⟩ :=
    exists_copies sound_announcer.wellFormed standard_announcer (.start hasCode)
  have completed : Succeeds (copyModel announcer) (.start hasCode) target between := by
    simp only [copyModel, succeeds_bind_iff, succeeds_pure_iff]
    exact ⟨_, _, copied, rfl, rfl⟩
  have entered : Steps announcer (fun _ => .stop (.ok false)) (.start announcer.ids between) _ :=
    .single (.enter rfl)
  have failed : outcome (transformModel announcer fun _ => (Script.stop (.ok false)).run) between =
      (.error (.unmappedPort ⟨0, 0⟩), _) := outcome_of_unmapped entered rfl
  refine ⟨target, between, _, completed, outcome_map_eq_error_iff.mpr failed, rfl, ?_⟩
  intro forgotten
  have mapped := (maps_of_copyModel completed).complete 0 (by decide) _ rfl 0 (by decide)
  rw [forgotten] at mapped
  exact mapped rfl

end Transformer.Operation

end Dataflow
