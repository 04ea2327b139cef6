import Dataflow.Proofs.Pass.Contract

/-!
# Mapped elements

A pass checks which ports a callback maps, and to how many elements, but not whether the target has
these elements.  So a pass can succeed with a port map that leads nowhere.  A map leads to elements
of the target when every mapping that the pass grants names elements that the target has at that
time: nodes of the target stay, and no entry of the map is changed later.
-/

namespace Dataflow

/-- What stands for the ports of a source are elements of a target that have the types of the ports. -/
def PortMap.Grounded (map : PortMap) (source target : Model) : Prop :=
  ∀ entry ∈ map.entries, ∀ owner output, source.entry entry.1.node = .ok owner →
    owner.node.outputs[entry.1.port]? = some output →
      ∀ image ∈ entry.2, target.Offers output.type image

/-- A map leads from the elements of a source to elements of a target: it is grounded, and what stands
for elements of one type can be gathered. -/
structure PortMap.Leads (map : PortMap) (source target : Model) : Prop where
  grounded : map.Grounded source target
  translates : ∀ type elements, (∀ coordinate ∈ elements, source.Offers type coordinate) →
    ∃ images values, map.translate elements = .ok images ∧ target.gather images type = .ok values

/-- A map of all ports of a model has an element for each element of the model. -/
theorem Model.MappedBy.exists_image {model : Model} {map : PortMap} (mapped : model.MappedBy map)
    (wellFormed : model.WellFormed) {type : ScalarType} {coordinate : Coordinate}
    (offered : model.Offers type coordinate) :
    ∃ owner output entry image, model.entry coordinate.node = .ok owner ∧
      owner.node.outputs[coordinate.port]? = some output ∧ output.type = type ∧ entry ∈ map.entries ∧
        entry.1 = coordinate.output ∧ entry.2[coordinate.element]? = some image ∧
          map.translateCoordinate coordinate = .ok image := by
  obtain ⟨node, pairMem, output, listed, inside, rfl⟩ := offered
  obtain ⟨owner, ownerMem, same, rfl⟩ := Model.mem_skeleton_iff.mp pairMem
  have found : model.entry coordinate.node = .ok owner :=
    wellFormed.coherent.entry_eq_ok_iff.mpr ⟨ownerMem, same⟩
  have keyed : coordinate.output ∈ map.entries.map Prod.fst := by
    rw [mapped.keys_perm.mem_iff, wellFormed.coherent.mem_outputRefs_iff]
    exact ⟨owner, found, (List.getElem?_eq_some_iff.mp listed).1⟩
  obtain ⟨⟨port, images⟩, entryMem, rfl⟩ := List.mem_map.mp keyed
  obtain ⟨again, foundAgain, sized⟩ := Model.outputSize_eq_ok_iff.mp (mapped.sized _ entryMem)
  obtain rfl := Except.ok.inj (found.symm.trans foundAgain)
  have sameSize : output.size = images.length := by
    simpa [Coordinate.output, listed] using sized
  have there : images[coordinate.element]? = some images[coordinate.element] :=
    List.getElem?_eq_getElem (sameSize ▸ inside)
  exact ⟨owner, output, _, _, found, listed, rfl, entryMem, rfl, there,
    PortMap.translateCoordinate_eq_ok_iff.mpr
      ⟨images, PortMap.get?_of_mem mapped.once entryMem, there⟩⟩

namespace Pass

variable {source target : Model} {scripts : Node → Script Bool} {order : List NodeId}
  {before after : Transformer} {first second : Moment} {node : Node}

/-! ## Maps that lead nowhere -/

/-- A model of one input. -/
def single : Model where
  arena := ⟨#[some ⟨0, .input .f64 1, [.f64 #[0]]⟩]⟩
  order := [0]
  keys := [(0, 0)]
  nextId := 1

/-- A mapping that is granted names elements that the target has, with the type of the port. -/
def Request.Grounded (node : Node) (before : Transformer) : Request → Prop
  | .map port elements =>
      (outcome (mapOutput port elements) before).1 = .ok () →
        ∀ output, node.outputs[port]? = some output →
          ∀ image ∈ elements, before.target.Offers output.type image
  | _ => True

theorem Request.Changes.target_eq {port : Nat} {elements : Elements}
    (changes : Request.Changes before (.map port elements) after) : after.target = before.target := by
  cases changes <;> rfl

/-- Whatever is mapped in the course of a pass is grounded. -/
def GroundedCourse (source : Model) (scripts : Node → Script Bool) (order : List NodeId)
    (before : Transformer) : Prop :=
  ∀ visited refined id node request next rest transformer,
    Steps source scripts (.start order before)
        ⟨visited, refined, .within id node (.ask request next) rest, transformer⟩ →
      request.Grounded node transformer

/-- A grounded request of the callback at a node keeps the map grounded. -/
theorem Request.Grounded.keeps (grounded : before.portMap.Grounded source before.target)
    (wellFormed : before.target.WellFormed) {id : NodeId} {entry : Entry}
    (found : source.entry id = .ok entry)
    (atNode : before.current = some ⟨id, entry.node.outputs.map OutputPort.size⟩) {request : Request}
    (fits : request.Grounded entry.node before) (changes : request.Changes before after) :
    after.portMap.Grounded source after.target := by
  cases changes with
  | stays => exact grounded
  | notes => exact grounded
  | adds added =>
      have grown := wellFormed.coherent.skeleton_of_insert (Model.add_eq_ok_iff.mp added).2
      intro mapped mem owner output ownerFound listed image imageMem
      exact (grounded mapped mem owner output ownerFound listed image imageMem).mono
        fun pair pairMem => grown ▸ List.mem_append_left _ pairMem
  | maps isCurrent sized fresh =>
      have granted := congrArg Prod.fst (succeeds_mapOutput isCurrent sized fresh)
      obtain rfl := Option.some.inj (isCurrent.symm.trans atNode)
      intro mapped mem owner output ownerFound listed image imageMem
      rcases List.mem_append.mp mem with old | new
      · exact grounded mapped old owner output ownerFound listed image imageMem
      · obtain rfl := List.mem_singleton.mp new
        obtain rfl := Except.ok.inj (found.symm.trans ownerFound)
        exact fits granted output listed image imageMem

/-- At every point of a grounded pass the map is grounded. -/
theorem GroundedCourse.grounded (course : GroundedCourse source scripts order before)
    {moment : Moment} (steps : Steps source scripts (.start order before) moment) :
    moment.transformer.portMap.Grounded source moment.transformer.target := by
  induction steps with
  | refl => exact nofun
  | tail earlier step ih =>
      have tracks := (tracks_start source order before).steps earlier
      cases step with
      | ask =>
          obtain ⟨done, entry, _, _, _, found, rfl, atNode⟩ := tracks.follows
          have fits := course _ _ _ _ _ _ _ _ earlier
          exact fits.keeps ih tracks.records.wellFormed found atNode (changes_perform _ _)
      | _ => exact ih

/-- A grounded map of all ports of a source leads to elements of the target. -/
theorem leads_of_grounded {map : PortMap} (grounded : map.Grounded source target)
    (wellFormed : source.WellFormed) (targetWellFormed : target.WellFormed)
    (mapped : source.MappedBy map) : map.Leads source target := by
  refine ⟨grounded, fun type elements offered => ?_⟩
  have step : ∀ coordinate ∈ elements, ∃ image,
      map.translateCoordinate coordinate = .ok image ∧ target.Offers type image := by
    intro coordinate mem
    obtain ⟨owner, output, entry, image, found, listed, rfl, entryMem, port, there, translated⟩ :=
      mapped.exists_image wellFormed (offered coordinate mem)
    refine ⟨image, translated, grounded entry entryMem owner output ?_ ?_ image ?_⟩
    · rwa [port]
    · rwa [port]
    · exact List.mem_of_getElem? there
  obtain ⟨images, pointwise⟩ := exists_forall₂ step
  have translated := PortMap.translate_eq_ok_iff.mpr (pointwise.imp fun _ _ both => both.1)
  obtain ⟨values, gathered⟩ : ∃ values, target.gather images type = .ok values := by
    refine Model.exists_gather fun image mem => ?_
    obtain ⟨_, _, _, offers⟩ := exists_of_mem_right pointwise mem
    exact targetWellFormed.exists_value (targetWellFormed.provides_of_offers offers (Nat.le_refl _))
  exact ⟨images, values, translated, gathered⟩

/-! ## Grounded scripts -/

/-- Every request of a script that starts with a transformer is grounded. -/
def Script.Grounded {α : Type} (node : Node) : Script α → Transformer → Prop
  | .stop _, _ => True
  | .look next, before => (next before).Grounded node before
  | .ask request next, before =>
      request.Grounded node before ∧
        (next (outcome request.perform before).1).Grounded node (outcome request.perform before).2

namespace Script

variable {α β : Type}

theorem grounded_andThen_iff {script : Script α} {next : Except ModelError α → Script β} :
    (script.andThen next).Grounded node before ↔
      script.Grounded node before ∧
        (next (outcome script.run before).1).Grounded node (outcome script.run before).2 := by
  induction script generalizing before with
  | stop result => simp only [andThen, Grounded, outcome_run_stop, true_and]
  | look more ih => simp only [andThen, Grounded, outcome_run_look, ih]
  | ask request more ih => simp only [andThen, Grounded, outcome_run_ask, ih, and_assoc]

theorem grounded_bind {script : Script α} {next : α → Script β} (first : script.Grounded node before)
    (second : ∀ value between, Succeeds script.run before value between →
      (next value).Grounded node between) : (script.bind next).Grounded node before := by
  refine grounded_andThen_iff.mpr ⟨first, ?_⟩
  rcases ran : outcome script.run before with ⟨error | value, between⟩
  · trivial
  · exact second value between ran

theorem grounded_translateAll (lists : List Elements) (before : Transformer) :
    (translateAll lists).Grounded node before := by
  induction lists generalizing before with
  | nil => trivial
  | cons first rest ih =>
      exact grounded_bind ⟨trivial, trivial⟩ fun _ between _ =>
        grounded_bind (ih between) fun _ _ _ => trivial

/-- The ports of a copy stand for those of the node.  The induction is on the ports that are left. -/
theorem grounded_mapAll {id : NodeId} {twin : Node} (same : twin.outputs = node.outputs)
    {ports : List OutputPort} {port : Nat} (left : node.outputs.drop port = ports)
    (there : (id, twin) ∈ before.target.skeleton) :
    (mapAll id port (ports.map OutputPort.size)).Grounded node before := by
  induction ports generalizing port before with
  | nil => trivial
  | cons first rest ih =>
      have listed : node.outputs[port]? = some first := by
        rw [← List.head?_drop, left, List.head?_cons]
      refine grounded_bind ⟨fun _ output outputListed image mem => ?_, trivial⟩
        fun _ between ran => ih ?_ ?_
      · obtain rfl := Option.some.inj (listed.symm.trans outputListed)
        obtain ⟨index, inside, rfl⟩ := List.mem_map.mp mem
        exact ⟨twin, there, first, same ▸ listed, List.mem_range.mp inside, rfl⟩
      · rw [← List.tail_drop, left, List.tail_cons]
      · have mapped : (outcome (mapOutput port ((⟨id, port⟩ : OutputRef).elements first.size))
            before).2 = between := congrArg Prod.snd ((performs_ask (.map port _) before).symm.trans ran)
        rw [← mapped, (changes_map port _ before).target_eq]
        exact there

/-- A copy of the node that the pass is at maps the ports of the node to those of the copy. -/
theorem grounded_copy (coherent : before.target.Coherent) : (copy node).Grounded node before := by
  refine grounded_bind (grounded_translateAll _ _) fun wiring between ran => ?_
  obtain rfl : between = before := by
    have translated := (performs_translateAll node.wiring before).symm.trans ran
    rw [outcome_translateAll] at translated
    exact (congrArg Prod.snd translated).symm
  refine grounded_bind ⟨trivial, trivial⟩ fun id after ran => ?_
  have added : Succeeds (addNode { node with wiring }) between id after :=
    (performs_ask (.add { node with wiring }) between).symm.trans ran
  simp only [addNode, succeeds_bind_iff, succeeds_get_iff, succeeds_lift_iff, succeeds_modify_iff,
    succeeds_pure_iff] at added
  obtain ⟨_, _, ⟨rfl, rfl⟩, ⟨_, target⟩, _, ⟨inserted, rfl⟩, ⟨⟩, _, rfl, rfl, rfl⟩ := added
  have there : (id, { node with wiring }) ∈ target.skeleton := by
    rw [coherent.skeleton_of_insert (Model.add_eq_ok_iff.mp inserted).2]
    exact List.mem_append_right _ (List.mem_singleton_self _)
  have same : ({ node with wiring } : Node).outputs = node.outputs := rfl
  exact grounded_bind (grounded_mapAll same List.drop_zero there) fun _ _ _ => trivial

end Script

/-- A pass is grounded when the script for each node is, whatever was done before it. -/
theorem groundedCourse_of_scripts
    (grounded : ∀ id node (transformer : Transformer), transformer.target.WellFormed →
      (scripts node).Grounded node (transformer.enter id node)) :
    GroundedCourse source scripts order before := by
  -- within a callback, what is left of its script is grounded
  have within : ∀ moment, Steps source scripts (.start order before) moment →
      ∀ id node script rest, moment.stage = .within id node script rest →
        script.Grounded node moment.transformer := by
    intro moment steps
    induction steps with
    | refl => exact nofun
    | tail earlier step ih =>
        have tracks := (tracks_start source order before).steps earlier
        intro id node script rest stage
        cases step with
        | enter =>
            cases stage
            exact grounded _ _ _ tracks.records.wellFormed
        | look =>
            cases stage
            exact ih _ _ (.look _) _ rfl
        | ask =>
            cases stage
            exact (ih _ _ (.ask _ _) _ rfl).2
        | _ => cases stage
  intro visited refined id node request next rest transformer steps
  exact (within _ steps id node _ rest rfl).1

/-- The script that copies a node. -/
def copyScript (node : Node) : Script Bool :=
  (Script.copy node).bind fun _ => .stop (.ok false)

theorem copying_eq_run : copying = fun node => (copyScript node).run := by
  have performs : ∀ node, (copyScript node).Performs (copying node) := fun node =>
    (Script.performs_copy node).bind fun _ => Script.performs_stop (.ok false)
  exact funext fun node => funext fun before => (performs node before).symm

theorem groundedCourse_copyScript : GroundedCourse source copyScript order before :=
  groundedCourse_of_scripts fun _ _ _ wellFormed =>
    Script.grounded_bind (Script.grounded_copy wellFormed.coherent) fun _ _ _ => trivial

/-! ## Passes -/

/-- A grounded pass that succeeds leaves a grounded map. -/
theorem grounded_of_transformNodes (course : GroundedCourse source scripts order before) {refined : Nat}
    (succeeded : Succeeds (transformNodes source order fun node => (scripts node).run) before
      (target, refined) after) : after.portMap.Grounded source target := by
  obtain ⟨visited, count, result, last, steps, returned⟩ :=
    exists_steps_transformNodes source scripts order before
  have returned := succeeded.symm.trans returned
  cases result with
  | error error => cases returned
  | ok total =>
      cases returned
      exact course.grounded steps

/-- A grounded pass over a model that succeeds leads from the elements of the model to elements of its
target. -/
theorem leads_of_transformModel (wellFormed : source.WellFormed)
    (course : GroundedCourse source scripts source.ids before) {refined : Nat}
    (succeeded : Succeeds (transformModel source fun node => (scripts node).run) before
      (target, refined) after) : after.portMap.Leads source target := by
  have mapped := mapped_of_transformModel wellFormed succeeded
  exact leads_of_grounded (grounded_of_transformNodes course succeeded) wellFormed mapped.2 mapped.1

/-- Whatever the nodes of a model are, the map of a copy leads to elements of the copy. -/
theorem leads_of_copyModel (wellFormed : source.WellFormed)
    (succeeded : Succeeds (copyModel source) before target after) :
    after.portMap.Leads source target := by
  simp only [copyModel, succeeds_bind_iff, succeeds_pure_iff, copying_eq_run] at succeeded
  obtain ⟨_, _, passed, rfl, rfl⟩ := succeeded
  exact leads_of_transformModel wellFormed groundedCourse_copyScript passed

end Pass

end Dataflow
