import Dataflow.Proofs.Pass.Forgetting
import Dataflow.Proofs.Reachable

/-!
# Composed port maps

Translating by the composition of two port maps is translating by the one and then by the other, with
the same failures.  Two maps compose when the second one translates all that the first one yields.

The driver of a refinement composes the map of each pass with all maps before it.  The map of a pass
translates every element of the model that the pass starts from, and nothing else.  So the driver can
go on exactly when what stands for the ports of the source are elements of the model so far.  A node
that describes its own refinement can let its ports stand for elements that are not there; no pass
looks, and the next one fails.
-/

namespace Dataflow

namespace PortMap

variable {first second composed : PortMap} {elements images : Elements} {coordinate middle : Coordinate}
  {error : ModelError}

/-! ## Translating by a composition -/

theorem exists_compose_iff :
    (∃ composed, first.compose second = .ok composed) ↔
      ∀ entry ∈ first.entries, ∃ images, second.translate entry.2 = .ok images := by
  constructor
  · rintro ⟨composed, composition⟩ entry mem
    obtain ⟨image, _, _, translated⟩ := exists_of_mem_left (compose_eq_ok_iff.mp composition) mem
    exact ⟨image.2, translated⟩
  · intro translates
    refine exists_compose fun entry mem coordinate coordinateMem => ?_
    obtain ⟨images, translated⟩ := translates entry mem
    obtain ⟨image, _, step⟩ := exists_of_mem_left (translate_eq_ok_iff.mp translated) coordinateMem
    exact ⟨image, step⟩

theorem mem_of_get?_eq_some {map : PortMap} {port : OutputRef} (found : map.get? port = some elements) :
    (port, elements) ∈ map.entries := by
  simp only [get?, Option.map_eq_some_iff] at found
  obtain ⟨⟨key, own⟩, foundOwn, rfl⟩ := found
  obtain rfl : key = port := by simpa using List.find?_some foundOwn
  exact List.mem_of_find?_eq_some foundOwn

/-! ## Maps into models -/

/-- What stands for ports are elements of a model. -/
def Lands (map : PortMap) (target : Model) : Prop :=
  ∀ entry ∈ map.entries, ∀ image ∈ entry.2, ∃ type, target.Offers type image

/-- A composition ends where the second map does. -/
theorem Lands.compose {target : Model} (lands : second.Lands target)
    (composition : first.compose second = .ok composed) : composed.Lands target := by
  intro entry mem image imageMem
  obtain ⟨_, _, _, translated⟩ := exists_of_mem_right (compose_eq_ok_iff.mp composition) mem
  obtain ⟨middle, _, step⟩ := exists_of_mem_right (translate_eq_ok_iff.mp translated) imageMem
  obtain ⟨elements, found, read⟩ := translateCoordinate_eq_ok_iff.mp step
  exact lands _ (mem_of_get?_eq_some found) image (List.mem_of_getElem? read)

theorem Grounded.lands {map : PortMap} {source target : Model} (grounded : map.Grounded source target)
    (sized : ∀ entry ∈ map.entries, source.outputSize entry.1 = .ok entry.2.length) :
    map.Lands target := by
  intro entry mem image imageMem
  obtain ⟨owner, found, listed⟩ := Model.outputSize_eq_ok_iff.mp (sized entry mem)
  rw [List.getElem?_map, Option.map_eq_some_iff] at listed
  obtain ⟨output, listed, _⟩ := listed
  exact ⟨output.type, grounded entry mem owner output found listed image imageMem⟩

end PortMap

namespace Model

variable {model : Model} {map total : PortMap} {coordinate : Coordinate}

/-- A map of all ports of a model translates the elements of the model, and nothing else. -/
theorem MappedBy.exists_translated_iff (mapped : model.MappedBy map) (wellFormed : model.WellFormed) :
    (∃ image, map.translateCoordinate coordinate = .ok image) ↔
      ∃ type, model.Offers type coordinate := by
  constructor
  · rintro ⟨image, step⟩
    obtain ⟨elements, found, read⟩ := PortMap.translateCoordinate_eq_ok_iff.mp step
    obtain ⟨owner, ownerFound, listed⟩ :=
      outputSize_eq_ok_iff.mp (mapped.sized _ (PortMap.mem_of_get?_eq_some found))
    rw [List.getElem?_map, Option.map_eq_some_iff] at listed
    obtain ⟨output, listed, sameSize⟩ := listed
    obtain ⟨ownerMem, same⟩ := wellFormed.coherent.entry_eq_ok_iff.mp ownerFound
    exact ⟨output.type, owner.node, mem_skeleton_iff.mpr ⟨owner, ownerMem, same, rfl⟩, output, listed,
      sameSize ▸ (List.getElem?_eq_some_iff.mp read).1, rfl⟩
  · rintro ⟨type, offered⟩
    obtain ⟨_, _, _, image, _, _, _, _, _, _, translated⟩ := mapped.exists_image wellFormed offered
    exact ⟨image, translated⟩

/-- A map composes with a map of all ports of a model exactly when it leads into the model. -/
theorem MappedBy.exists_compose_iff (mapped : model.MappedBy map) (wellFormed : model.WellFormed) :
    (∃ composed, total.compose map = .ok composed) ↔ total.Lands model := by
  rw [PortMap.exists_compose_iff]
  constructor
  · intro translates entry mem image imageMem
    obtain ⟨images, translated⟩ := translates entry mem
    obtain ⟨_, _, step⟩ := exists_of_mem_left (PortMap.translate_eq_ok_iff.mp translated) imageMem
    exact (mapped.exists_translated_iff wellFormed).mp ⟨_, step⟩
  · exact fun lands entry mem => exists_mapM_eq_ok fun image imageMem =>
      (mapped.exists_translated_iff wellFormed).mpr (lands entry mem image imageMem)

end Model

namespace Pass

variable {source model : Model} {before between after : Transformer} {total : Option PortMap}
  {passes limit : Nat} {error : ModelError}

/-! ## The course of a refinement -/

/-- Where the driver of a refinement stands when it starts a pass: the number of passes before, the
model so far, the transformer, and the port map of all passes before, if there were any.  The driver
goes on when a pass has refined something. -/
inductive Reaches (source : Model) (before : Transformer) :
    Nat → Model → Transformer → Option PortMap → Prop
  | start : Reaches source before 0 source before none
  | first {model : Model} {changed : Nat} {between : Transformer}
      (passed : Succeeds (refinePass source) before (model, changed) between) (busy : changed ≠ 0) :
      Reaches source before 1 model between (some between.portMap)
  | again {passes changed : Nat} {model next : Model} {between after : Transformer}
      {total composed : PortMap} (earlier : Reaches source before passes model between (some total))
      (passed : Succeeds (refinePass model) between (next, changed) after)
      (composition : total.compose after.portMap = .ok composed) (busy : changed ≠ 0) :
      Reaches source before (passes + 1) next after (some composed)

theorem Reaches.wellFormed (reaches : Reaches source before passes model between total)
    (wellFormed : source.WellFormed) : model.WellFormed := by
  induction reaches with
  | start => exact wellFormed
  | first passed => exact (mapped_of_refinePass wellFormed passed).2
  | again _ passed _ _ ih => exact (mapped_of_refinePass ih passed).2

/-- The driver can go on after a pass exactly when the maps of the passes before it lead into the model
that it started from. -/
theorem Reaches.exists_compose_iff {first : PortMap} {next : Model} {changed : Nat}
    (reaches : Reaches source before passes model between (some first))
    (wellFormed : source.WellFormed)
    (passed : Succeeds (refinePass model) between (next, changed) after) :
    (∃ composed, first.compose after.portMap = .ok composed) ↔ first.Lands model := by
  have modelWellFormed := reaches.wellFormed wellFormed
  exact (mapped_of_refinePass modelWellFormed passed).1.exists_compose_iff modelWellFormed

/-! ## Passes that map into their targets -/

/-- The first passes of a refinement let ports stand for elements of their targets only. -/
def LandingPasses (source : Model) (before : Transformer) (limit : Nat) : Prop :=
  ∀ passes model between total next changed after, passes < limit →
    Reaches source before passes model between total →
      Succeeds (refinePass model) between (next, changed) after → after.portMap.Lands next

theorem LandingPasses.lands (landing : LandingPasses source before limit)
    (reaches : Reaches source before passes model between total) (few : passes ≤ limit) :
    ∀ map ∈ total, map.Lands model := by
  cases reaches with
  | start => exact nofun
  | first passed =>
      rintro _ ⟨⟩
      exact landing _ _ _ _ _ _ _ few .start passed
  | again earlier passed composition =>
      rintro _ ⟨⟩
      exact (landing _ _ _ _ _ _ _ few earlier passed).compose composition

/-- Passes whose mappings name elements that the target has at that time. -/
theorem landingPasses_of_grounded {scripts : Node → Script Bool}
    (same : refining = fun node => (scripts node).run)
    (courses : ∀ passes model between total, Reaches source before passes model between total →
      GroundedCourse model scripts model.ids between) (limit : Nat) :
    LandingPasses source before limit := by
  intro passes model between total next changed after _ reaches passed
  have sized := (maps_of_transformNodes scripted_refining passed).sized
  rw [refinePass, transformModel, same] at passed
  exact (grounded_of_transformNodes (courses _ _ _ _ reaches) passed).lands sized

end Pass

end Dataflow
