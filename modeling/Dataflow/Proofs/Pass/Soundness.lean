import Dataflow.Pass.Refinement
import Dataflow.Proofs.Graph.Sound

/-!
# Passes make sound models

A pass adds nodes to its target one by one, and each of them comes from a builder or is a copy
of a node of the source.  So the target is sound at every moment, whatever the callback does,
and also when the pass fails.
-/

namespace Dataflow

namespace Pass

/-- The target that a pass builds is sound. -/
def SoundTarget (transformer : Transformer) : Prop :=
  transformer.target.Sound

section Actions

variable {α : Type} {node : Node} {source : Model}

theorem keeps_lift {outcome : Except ModelError α} :
    Keeps SoundTarget (lift outcome) fun value => outcome = .ok value := by
  cases outcome with
  | error error => exact keeps_throw error
  | ok value => exact keeps_pure rfl

theorem keeps_currentNode : Keeps SoundTarget currentNode fun _ => True := by
  refine keeps_get.bind fun transformer _ => ?_
  cases transformer.current with
  | none => exact keeps_throw _
  | some current => exact keeps_pure trivial

theorem keeps_addNode (made : node.Made) : Keeps SoundTarget (addNode node) fun _ => True := by
  refine keeps_get.bind fun transformer sound => keeps_lift.bind fun ⟨id, target⟩ added => ?_
  have set : Keeps SoundTarget (modify fun transformer => { transformer with target } : Pass PUnit)
      fun _ => True := keeps_modify fun _ _ => sound.add made added
  exact set.bind fun _ _ => keeps_pure trivial

/-- Translating keeps the number of elements. -/
theorem length_of_translate {map : PortMap} {elements translated : Elements}
    (success : map.translate elements = .ok translated) : translated.length = elements.length :=
  (mapM_eq_ok_iff.mp success).length_eq.symm

theorem keeps_translate {elements : Elements} :
    Keeps SoundTarget (translate elements) fun translated => translated.length = elements.length :=
  keeps_get.bind fun _ _ => keeps_lift.mono fun _ => length_of_translate

theorem keeps_mapOutput {port : Nat} {elements : Elements} :
    Keeps SoundTarget (mapOutput port elements) fun _ => True := by
  refine keeps_currentNode.bind fun current _ => ?_
  cases current.outputSizes[port]? with
  | none => exact keeps_throw _
  | some expected =>
      simp only
      split
      · exact (keeps_throw _).bind fun _ (impossible : False) => impossible.elim
      · refine keeps_get.bind fun transformer _ => keeps_lift.bind fun portMap _ => ?_
        exact keeps_modify fun _ sound => sound

theorem keeps_mapOutputs {target : NodeId} (port : Nat) (sizes : List Nat) :
    Keeps SoundTarget (mapOutputs target port sizes) fun _ => True := by
  induction sizes generalizing port with
  | nil => exact keeps_pure trivial
  | cons size sizes ih => exact keeps_mapOutput.bind fun _ _ => ih (port + 1)

theorem keeps_translateAll (wiring : List Elements) :
    Keeps SoundTarget (wiring.mapM translate) fun translated =>
      translated.map List.length = wiring.map List.length := by
  induction wiring with
  | nil => exact keeps_pure rfl
  | cons elements rest ih =>
      rw [List.mapM_cons]
      refine keeps_translate.bind fun first sameLength => ih.bind fun others sameLengths => ?_
      exact keeps_pure (by simp [sameLength, sameLengths])

theorem keeps_copyNode (made : node.Made) : Keeps SoundTarget (copyNode node) fun _ => True :=
  (keeps_translateAll node.wiring).bind fun _ sameLengths =>
    (keeps_addNode (made.rewire sameLengths)).bind fun _ _ =>
      (keeps_mapOutputs 0 _).bind fun _ _ => keeps_pure trivial

theorem keeps_note {notice : Notice} : Keeps SoundTarget (note notice) fun _ => True :=
  keeps_modify fun _ sound => sound

/-! ## Passes -/

theorem keeps_checkMapped {current : CurrentNode} :
    Keeps SoundTarget (checkMapped current) fun _ => True := by
  refine keeps_get.bind fun transformer _ => ?_
  simp only
  split
  · exact keeps_throw _
  · exact keeps_pure trivial

/-- A callback that adds only nodes from builders when it is given one. -/
def SoundCallback (callback : Node → Pass Bool) : Prop :=
  ∀ node : Node, node.Made → Keeps SoundTarget (callback node) fun _ => True

variable {callback : Node → Pass Bool}

theorem keeps_visit (sound : source.Sound) (callbackSound : SoundCallback callback) (id : NodeId) :
    Keeps SoundTarget (visit source callback id) fun _ => True := by
  refine keeps_lift.bind fun entry found => ?_
  have mem := (sound.wellFormed.coherent.entry_eq_ok_iff.mp found).1
  have leaves : Keeps SoundTarget
      (modify fun transformer => { transformer with current := none } : Pass PUnit)
      fun _ => True := keeps_modify fun _ sound => sound
  have enters : Keeps SoundTarget
      (modify fun transformer => { transformer with
        current := some ⟨id, entry.node.outputs.map OutputPort.size⟩ } : Pass PUnit)
      fun _ => True := keeps_modify fun _ sound => sound
  refine enters.bind fun _ _ => ?_
  refine ((callbackSound entry.node (sound.made entry mem)).tryCatch fun error =>
    leaves.bind fun _ _ => keeps_throw error).bind fun refined _ => ?_
  exact leaves.bind fun _ _ => keeps_checkMapped.bind fun _ _ => keeps_pure trivial

theorem keeps_visitAll (sound : source.Sound) (callbackSound : SoundCallback callback)
    (ids : List NodeId) (refined : Nat) :
    Keeps SoundTarget (visitAll source callback ids refined) fun _ => True := by
  induction ids generalizing refined with
  | nil => exact keeps_pure trivial
  | cons id rest ih => exact (keeps_visit sound callbackSound id).bind fun changed _ => ih _

/-- What a pass returns is sound.  It starts with an empty target, so it does not matter what was
there before. -/
theorem sound_of_transformNodes (sound : source.Sound) (callbackSound : SoundCallback callback)
    {order : List NodeId} {result : Model × Nat} {before after : Transformer}
    (succeeded : Succeeds (transformNodes source order callback) before result after) :
    result.1.Sound := by
  simp only [transformNodes, succeeds_bind_iff, succeeds_modify_iff, succeeds_get_iff,
    succeeds_pure_iff] at succeeded
  obtain ⟨_, cleared, rfl, refined, done, visited, _, _, ⟨rfl, rfl⟩, _, _, _, rfl, _⟩ := succeeded
  have start : SoundTarget { before with target := .empty, portMap := .empty } := Model.sound_empty
  have kept := (keeps_visitAll sound callbackSound order 0 _ start).1
  rw [visited] at kept
  exact kept

theorem soundCallback_copying : SoundCallback copying :=
  fun _ made => (keeps_copyNode made).bind fun _ _ => keeps_pure trivial

theorem sound_of_copyModel (sound : source.Sound) {result : Model} {before after : Transformer}
    (succeeded : Succeeds (copyModel source) before result after) : result.Sound := by
  simp only [copyModel, transformModel, succeeds_bind_iff, succeeds_pure_iff] at succeeded
  obtain ⟨copied, _, done, rfl, _⟩ := succeeded
  exact sound_of_transformNodes sound soundCallback_copying done

theorem sound_of_copySubmodel (sound : source.Sound) {outputs : List Elements}
    {result : Model × List Elements} {before after : Transformer}
    (succeeded : Succeeds (copySubmodel source outputs) before result after) : result.1.Sound := by
  simp only [copySubmodel, succeeds_bind_iff, succeeds_pure_iff] at succeeded
  obtain ⟨_, _, _, copied, _, done, _, _, _, rfl, _⟩ := succeeded
  exact sound_of_transformNodes sound soundCallback_copying done

/-! ## Refinement -/

theorem keeps_recipeScope {labels : List (String × NodeId)} :
    Keeps SoundTarget (recipeScope node labels) fun _ => True :=
  keeps_get.bind fun _ _ => keeps_pure trivial

theorem keeps_lookAround : Keeps SoundTarget (lookAround node) fun _ => True :=
  keeps_currentNode.bind fun _ _ => keeps_get.bind fun _ _ => keeps_note

theorem keeps_runSteps (made : node.Made) (steps : List RecipeStep)
    (labels : List (String × NodeId)) :
    Keeps SoundTarget (runSteps node steps labels) fun _ => True := by
  induction steps generalizing labels with
  | nil => exact keeps_pure trivial
  | cons step rest ih =>
      cases step with
      | copy label => exact (keeps_copyNode made).bind fun _ _ => ih _
      | add plan label =>
          exact keeps_recipeScope.bind fun scope _ => keeps_lift.bind fun planned built =>
            (keeps_addNode (made_of_plan built)).bind fun _ _ => ih _
      | map port elements =>
          exact keeps_recipeScope.bind fun scope _ => keeps_lift.bind fun _ _ =>
            keeps_mapOutput.bind fun _ _ => ih _
      | look => exact keeps_lookAround.bind fun _ _ => ih _

theorem keeps_recipe (made : node.Made) (recipe : Recipe) :
    Keeps SoundTarget (recipe.run node) fun _ => True :=
  (keeps_runSteps made recipe.steps []).bind fun _ _ => keeps_pure trivial

theorem soundCallback_byRules (rules : List (String × Recipe)) : SoundCallback (byRules rules) := by
  intro node made
  unfold byRules
  split
  · exact keeps_recipe made _
  · exact soundCallback_copying node made

theorem keeps_refineWithConstant {type : RealType} {values : Array type.Carrier} {input : Elements}
    {combine : (constant input : Elements) → Except NodeError Node}
    (combined : ∀ constant input node, combine constant input = .ok node → node.Made) :
    Keeps SoundTarget (refineWithConstant type values input combine) fun _ => True := by
  have constant : (Node.constant (.ofReals type values)).Made := .inl (standard_constant _)
  refine keeps_translate.bind fun translated _ => (keeps_addNode constant).bind fun id _ => ?_
  refine keeps_lift.bind fun result done => ?_
  simp only [built, mapError_eq_ok_iff] at done
  exact (keeps_addNode (combined _ _ _ done)).bind fun _ _ =>
    keeps_mapOutput.bind fun _ _ => keeps_pure trivial

theorem keeps_refine (made : node.Made) : Keeps SoundTarget node.refine fun _ => True := by
  unfold Node.refine
  split
  · exact keeps_refineWithConstant fun _ _ _ => made_of_arithmetic
  · exact keeps_refineWithConstant fun _ _ _ => made_of_arithmetic
  · split
    · exact keeps_recipe made _
    · exact keeps_pure trivial
  · exact keeps_pure trivial

theorem soundCallback_refining : SoundCallback refining := by
  intro node made
  refine keeps_get.bind fun transformer _ => ?_
  split
  · refine (keeps_refine made).bind fun refined _ => ?_
    split
    · exact keeps_pure trivial
    · exact soundCallback_copying node made
  · exact soundCallback_copying node made

end Actions

section Refinement

/-- The end of a refinement: whether it is complete is decided, and the transformer gets the port
map of all passes. -/
def conclude (last : Refined) : Pass Refined := do
  let transformer ← get
  set { transformer with portMap := last.portMap }
  return { last with
    converged := last.converged || last.model.entries.all (transformer.compilable ·.node) }

theorem refineModel_eq (source : Model) (limit : Nat) :
    refineModel source ⟨limit + 1⟩ = (do
      let pass ← refinePass source
      let transformer ← get
      (if pass.2 = 0 then pure ⟨pass.1, 1, true, transformer.portMap⟩
        else refineMore limit pass.1 transformer.portMap 1) >>= conclude) := by
  simp only [refineModel]
  refine bind_congr fun pass => ?_
  obtain ⟨model, changed⟩ := pass
  refine bind_congr fun transformer => ?_
  by_cases unchanged : changed = 0
  · subst unchanged
    rfl
  · simp only [unchanged, if_false]
    refine bind_congr fun last => ?_
    obtain ⟨model, iterations, converged, portMap⟩ := last
    cases converged <;> rfl
variable {before after : Transformer}

theorem sound_of_refineMore {limit iterations : Nat} {model : Model} {total : PortMap}
    {refined : Refined} (sound : model.Sound)
    (succeeded : Succeeds (refineMore limit model total iterations) before refined after) :
    refined.model.Sound := by
  induction limit generalizing model total iterations before with
  | zero =>
      obtain ⟨rfl, _⟩ := succeeds_pure_iff.mp succeeded
      exact sound
  | succ limit ih =>
      simp only [refineMore, succeeds_bind_iff] at succeeded
      obtain ⟨⟨next, changed⟩, _, passed, _, _, _, _, _, _, rest⟩ := succeeded
      have nextSound : next.Sound := sound_of_transformNodes sound soundCallback_refining passed
      split at rest
      · obtain ⟨rfl, _⟩ := succeeds_pure_iff.mp rest
        exact nextSound
      · exact ih nextSound rest

/-- Refinement of a sound model gives a sound model. -/
theorem sound_of_refineModel {source : Model} {options : RefineOptions} {refined : Refined}
    (sound : source.Sound)
    (succeeded : Succeeds (refineModel source options) before refined after) :
    refined.model.Sound := by
  obtain ⟨_ | limit⟩ := options
  · simp only [refineModel, succeeds_bind_iff, succeeds_pure_iff] at succeeded
    obtain ⟨model, _, copied, _, _, _, _, _, _, rfl, _⟩ := succeeded
    exact sound_of_copyModel sound copied
  · simp only [refineModel_eq, succeeds_bind_iff] at succeeded
    obtain ⟨⟨model, changed⟩, _, passed, _, _, _, last, _, finished, concluded⟩ := succeeded
    have modelSound : model.Sound := sound_of_transformNodes sound soundCallback_refining passed
    have lastSound : last.model.Sound := by
      split at finished
      · obtain ⟨rfl, _⟩ := succeeds_pure_iff.mp finished
        exact modelSound
      · exact sound_of_refineMore modelSound finished
    simp only [conclude, succeeds_bind_iff, succeeds_pure_iff] at concluded
    obtain ⟨_, _, _, _, _, _, rfl, _⟩ := concluded
    exact lastSound

end Refinement

end Pass

end Dataflow
