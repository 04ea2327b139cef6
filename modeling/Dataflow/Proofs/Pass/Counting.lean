import Dataflow.Proofs.Pass.Renumbering

/-!
# What a refinement pass does to the nodes of a model

A pass replaces a standard node when the node does not count as compilable and has to be replaced
before compilation; it copies all other nodes.  So the operators of its target and the number of
refined nodes can be read off the source.  A pass that refines no node copies its source.
-/

namespace Dataflow

open Pass

/-! ## Dense models -/

namespace Model

/-- The operators of the nodes in creation order. -/
def operators (model : Model) : List Operator :=
  model.entries.map fun entry => entry.node.operator

/-- A well-formed model whose ids are the numbers from zero on. -/
structure Dense (model : Model) : Prop where
  wellFormed : model.WellFormed
  ids_eq : model.ids = List.range model.nextId

variable {model after : Model} {id : NodeId} {node : Node}

theorem dense_empty : empty.Dense :=
  ⟨wellFormed_empty, by rw [ids, entries_empty]; rfl⟩

theorem operators_eq_skeleton (model : Model) :
    model.operators = model.skeleton.map fun pair => pair.2.operator := by
  simp [operators, skeleton]

/-- Adding a node keeps a model dense. -/
theorem Dense.add (dense : model.Dense) (added : model.add node = .ok (id, after)) :
    after.Dense ∧ after.operators = model.operators ++ [node.operator] := by
  obtain ⟨rfl, inserted⟩ := add_eq_ok_iff.mp added
  have skeleton := dense.wellFormed.coherent.skeleton_of_insert inserted
  have nextId : after.nextId = model.nextId + 1 := by
    obtain ⟨_, _, _, rfl⟩ := insert_eq_ok_iff.mp inserted
    rfl
  refine ⟨⟨dense.wellFormed.insert inserted, ?_⟩, ?_⟩
  · rw [ids_eq_skeleton, skeleton, List.map_append, ← ids_eq_skeleton, dense.ids_eq, nextId,
      List.range_succ]
    rfl
  · rw [operators_eq_skeleton, operators_eq_skeleton, skeleton, List.map_append]
    rfl

/-- In a dense model every id is its own position. -/
theorem Dense.position_eq (dense : model.Dense) (mem : id ∈ model.ids) :
    position model.skeleton id = id := by
  have inside : id < model.ids.length := by
    rw [dense.ids_eq] at mem ⊢
    simpa using mem
  simpa [dense.ids_eq] using dense.wellFormed.position_eq inside

end Model

/-! ## Actions that add nodes -/

/-- An action has added nodes with some operators to the target. -/
structure Adds (added : List Operator) (before after : Transformer) : Prop where
  compilable_eq : after.compilable = before.compilable
  grows : before.target.Dense →
    after.target.Dense ∧ after.target.operators = before.target.operators ++ added

section Adding

variable {before between after : Transformer} {node : Node} {done : Unit}

theorem Adds.of_target_eq (compilable : after.compilable = before.compilable)
    (target : after.target = before.target) : Adds [] before after :=
  ⟨compilable, fun dense => by rw [target, List.append_nil]; exact ⟨dense, rfl⟩⟩

theorem Adds.trans {first second : List Operator} (one : Adds first before between)
    (two : Adds second between after) : Adds (first ++ second) before after := by
  refine ⟨two.compilable_eq.trans one.compilable_eq, fun dense => ?_⟩
  obtain ⟨middle, grown⟩ := one.grows dense
  obtain ⟨last, grownAgain⟩ := two.grows middle
  exact ⟨last, by rw [grownAgain, grown, List.append_assoc]⟩

theorem adds_addNode {id : NodeId} (succeeded : Succeeds (addNode node) before id after) :
    Adds [node.operator] before after := by
  simp only [addNode, succeeds_bind_iff, succeeds_get_iff, succeeds_lift_iff, succeeds_modify_iff,
    succeeds_pure_iff] at succeeded
  obtain ⟨_, _, ⟨rfl, rfl⟩, ⟨id, target⟩, _, ⟨added, rfl⟩, _, _, rfl, rfl, rfl⟩ := succeeded
  exact ⟨rfl, fun dense => dense.add added⟩

theorem adds_mapOutput {port : Nat} {elements : Elements}
    (succeeded : Succeeds (mapOutput port elements) before done after) : Adds [] before after := by
  simp only [mapOutput, succeeds_bind_iff] at succeeded
  obtain ⟨current, _, looked, rest⟩ := succeeded
  simp only [currentNode, succeeds_bind_iff, succeeds_get_iff] at looked
  obtain ⟨_, _, ⟨rfl, rfl⟩, looked⟩ := looked
  split at looked
  · obtain ⟨rfl, rfl⟩ := succeeds_pure_iff.mp looked
    split at rest
    · exact absurd rest not_succeeds_throw
    · split at rest
      · obtain ⟨_, _, thrown, _⟩ := succeeds_bind_iff.mp rest
        exact absurd thrown not_succeeds_throw
      · simp only [succeeds_bind_iff, succeeds_get_iff, succeeds_lift_iff, succeeds_modify_iff] at rest
        obtain ⟨_, _, ⟨rfl, rfl⟩, _, _, ⟨_, rfl⟩, rfl⟩ := rest
        exact .of_target_eq rfl rfl
  · exact absurd looked not_succeeds_throw

theorem adds_mapOutputs {target : NodeId} {port : Nat} {sizes : List Nat}
    (succeeded : Succeeds (mapOutputs target port sizes) before done after) :
    Adds [] before after := by
  induction sizes generalizing before port with
  | nil =>
      obtain ⟨_, rfl⟩ := succeeds_pure_iff.mp succeeded
      exact .of_target_eq rfl rfl
  | cons size sizes ih =>
      obtain ⟨_, _, mapped, rest⟩ := succeeds_bind_iff.mp succeeded
      exact (adds_mapOutput mapped).trans (ih rest)

theorem translated_of_succeeds {elements images : Elements}
    (succeeded : Succeeds (translate elements) before images after) :
    before.portMap.translate elements = .ok images ∧ after = before := by
  rw [Succeeds, outcome_translate] at succeeded
  exact ⟨congrArg Prod.fst succeeded, (congrArg Prod.snd succeeded).symm⟩

theorem adds_copyNode {id : NodeId} (succeeded : Succeeds (copyNode node) before id after) :
    Adds [node.operator] before after := by
  simp only [copyNode, succeeds_bind_iff, succeeds_pure_iff] at succeeded
  obtain ⟨wiring, _, translated, copy, _, added, _, _, mapped, rfl, rfl⟩ := succeeded
  rw [Succeeds, outcome_translateAll] at translated
  obtain rfl := congrArg Prod.snd translated
  exact (adds_addNode added).trans (adds_mapOutputs mapped)

theorem adds_copying {changed : Bool} (succeeded : Succeeds (copying node) before changed after) :
    changed = false ∧ Adds [node.operator] before after := by
  simp only [copying, succeeds_bind_iff, succeeds_pure_iff] at succeeded
  obtain ⟨_, _, copied, rfl, rfl⟩ := succeeded
  exact ⟨rfl, adds_copyNode copied⟩

/-- Refining with a constant adds the constant and what it is combined to. -/
theorem adds_refineWithConstant {type : RealType} {values : Array type.Carrier} {input : Elements}
    {combine : Elements → Elements → Except NodeError Node} {changed : Bool} {operator : Operator}
    (combined : ∀ constant images result, constant.length = values.size →
      images.length = input.length → combine constant images = .ok result →
        result.operator = operator)
    (succeeded : Succeeds (refineWithConstant type values input combine) before changed after) :
    changed = true ∧
      Adds [(Node.constant (.ofReals type values)).operator, operator] before after := by
  simp only [refineWithConstant, succeeds_bind_iff, succeeds_lift_iff, succeeds_pure_iff, built,
    mapError_eq_ok_iff] at succeeded
  obtain ⟨images, _, translated, constant, _, addedConstant, result, _, ⟨made, rfl⟩, _, _, addedResult,
    _, _, mapped, rfl, rfl⟩ := succeeded
  obtain ⟨translation, rfl⟩ := translated_of_succeeds translated
  rw [← combined _ _ _ (length_elements _ _) (length_of_translate translation) made]
  exact ⟨rfl, (adds_addNode addedConstant).trans
    ((adds_addNode addedResult).trans (adds_mapOutput mapped))⟩

/-! ## Decisions of a pass -/

/-- The operators that replace an operator without code. -/
def Operator.replacement : Operator → List Operator
  | .coordinatewise type op values =>
      [(Node.constant (.ofReals type values)).operator, .arithmetic type op.binaryOp values.size]
  | .hamming type size =>
      [(Node.constant (.ofReals type (hammingWindow type size))).operator,
        .arithmetic type .multiply size]
  | operator => [operator]

/-- Whether a refinement pass replaces a standard node. -/
def Node.refines (compilable : Node → Bool) (node : Node) : Bool :=
  !compilable node && node.capabilities.mustRefine

/-- The operators that a refinement pass makes of a standard node. -/
def Node.refinement (compilable : Node → Bool) (node : Node) : List Operator :=
  if node.refines compilable then node.operator.replacement else [node.operator]

/-- A standard node replaces itself exactly when it has to. -/
theorem adds_refine {changed : Bool} (standard : node.Standard)
    (succeeded : Succeeds node.refine before changed after) :
    changed = node.capabilities.mustRefine ∧
      (changed = true → Adds node.operator.replacement before after) ∧
      (changed = false → after = before) := by
  cases standard with
  | coordinatewise type op values input same =>
      have combined : ∀ (constant images : Elements) (result : Node),
          constant.length = values.size → images.length = input.length →
          Node.arithmetic type op.binaryOp constant images = .ok result →
            result.operator = .arithmetic type op.binaryOp values.size := by
        intro constant images result sized _ made
        obtain ⟨_, rfl⟩ := arithmetic_eq_ok_iff.mp made
        rw [sized]
      obtain ⟨rfl, adds⟩ := adds_refineWithConstant combined succeeded
      exact ⟨rfl, fun _ => adds, nofun⟩
  | hamming type input =>
      have combined : ∀ (constant images : Elements) (result : Node),
          constant.length = (hammingWindow type input.length).size →
          images.length = input.length →
          Node.arithmetic type .multiply images constant = .ok result →
            result.operator = .arithmetic type .multiply input.length := by
        intro constant images result _ sized made
        obtain ⟨_, rfl⟩ := arithmetic_eq_ok_iff.mp made
        rw [sized]
      obtain ⟨rfl, adds⟩ := adds_refineWithConstant combined succeeded
      exact ⟨rfl, fun _ => adds, nofun⟩
  | _ =>
      obtain ⟨rfl, rfl⟩ := succeeds_pure_iff.mp succeeded
      exact ⟨rfl, nofun, fun _ => rfl⟩

/-- What the callback of a refinement pass decides about a standard node, and what it adds. -/
theorem adds_refining {changed : Bool} (standard : node.Standard)
    (succeeded : Succeeds (refining node) before changed after) :
    changed = node.refines before.compilable ∧
      Adds (node.refinement before.compilable) before after ∧
      (changed = false → Succeeds (copying node) before false after) := by
  simp only [refining, succeeds_bind_iff, succeeds_get_iff] at succeeded
  obtain ⟨transformer, start, ⟨isTransformer, isStart⟩, rest⟩ := succeeded
  subst transformer start
  unfold Node.refinement Node.refines
  have copied : Succeeds (copying node) before changed after → changed = false ∧
      Adds [node.operator] before after ∧ Succeeds (copying node) before false after := by
    intro copies
    obtain ⟨rfl, adds⟩ := adds_copying copies
    exact ⟨rfl, adds, copies⟩
  by_cases compilable : before.compilable node = true
  · simp only [compilable, Bool.not_true, Bool.false_eq_true, if_false, Bool.false_and] at rest ⊢
    obtain ⟨rfl, adds, copies⟩ := copied rest
    exact ⟨rfl, adds, fun _ => copies⟩
  · simp only [compilable, Bool.not_false, if_true, Bool.true_and, succeeds_bind_iff] at rest ⊢
    obtain ⟨refined, between, refines, rest⟩ := rest
    obtain ⟨same, replaces, keeps⟩ := adds_refine standard refines
    cases refined with
    | true =>
        obtain ⟨rfl, rfl⟩ : changed = true ∧ after = between := by simpa using rest
        rw [← same]
        exact ⟨rfl, replaces rfl, fun unchanged => Bool.noConfusion unchanged⟩
    | false =>
        obtain rfl := keeps rfl
        obtain ⟨rfl, adds, copies⟩ := copied (by simpa using rest)
        rw [← same]
        exact ⟨rfl, adds, fun _ => copies⟩

end Adding

/-! ## Visits -/

section Visits

variable {source : Model} {callback : Node → Pass Bool} {before after : Transformer} {changed : Bool}

/-- A handler that always fails does not make an action succeed. -/
theorem succeeds_tryCatch_iff {ε σ α : Type} {action : ExceptT ε (StateM σ) α}
    {handler : ε → ExceptT ε (StateM σ) α} {start stop : σ} {result : α}
    (fails : ∀ error between, ¬Succeeds (handler error) between result stop) :
    Succeeds (MonadExcept.tryCatch action handler) start result stop ↔
      Succeeds action start result stop := by
  refine ⟨fun succeeded => ?_, fun succeeded => succeeded.tryCatch handler⟩
  have unfolded := outcome_tryCatch action handler start
  rcases done : outcome action start with ⟨error | value, between⟩
  · rw [done] at unfolded
    exact absurd (unfolded.symm.trans succeeded) (fails error between)
  · rw [done] at unfolded
    exact done.trans (unfolded.symm.trans succeeded)

/-- A visit enters the node, calls the callback, leaves the node and requires its ports to be
mapped. -/
theorem succeeds_visit_iff {id : NodeId} :
    Succeeds (visit source callback id) before changed after ↔
      ∃ entry between, source.entry id = .ok entry ∧
        Succeeds (callback entry.node)
          { before with current := some ⟨id, entry.node.outputs.map OutputPort.size⟩ } changed
          between ∧
        Succeeds (checkMapped ⟨id, entry.node.outputs.map OutputPort.size⟩)
          { between with current := none } () after := by
  have fails : ∀ error start result stop, ¬Succeeds (do
      modify fun transformer : Transformer => { transformer with current := none }
      throw error : Pass Bool) start result stop := by
    intro error start result stop succeeded
    simp at succeeded
  simp only [visit, succeeds_bind_iff, succeeds_lift_iff, succeeds_modify_iff, succeeds_pure_iff,
    succeeds_tryCatch_iff fun _ _ => fails _ _ _ _]
  constructor
  · rintro ⟨entry, _, ⟨found, rfl⟩, ⟨⟩, _, rfl, _, between, called, ⟨⟩, _, rfl, ⟨⟩, _, checked, rfl, rfl⟩
    exact ⟨entry, between, found, called, checked⟩
  · rintro ⟨entry, between, found, called, checked⟩
    exact ⟨entry, before, ⟨found, rfl⟩, ⟨⟩, _, rfl, changed, between, called, ⟨⟩, _, rfl, ⟨⟩, after,
      checked, rfl, rfl⟩

theorem unchanged_of_checkMapped {current : CurrentNode} {done : Unit}
    (succeeded : Succeeds (checkMapped current) before done after) : after = before := by
  simp only [checkMapped, succeeds_bind_iff, succeeds_get_iff] at succeeded
  obtain ⟨transformer, start, ⟨isTransformer, isStart⟩, rest⟩ := succeeded
  subst transformer start
  split at rest
  · exact absurd rest not_succeeds_throw
  · exact (succeeds_pure_iff.mp rest).2

/-- What a visit of a refinement pass decides and adds. -/
theorem adds_visit (standard : source.Standard) (coherent : source.Coherent)
    {entry : Entry} (mem : entry ∈ source.entries)
    (succeeded : Succeeds (visit source refining entry.id) before changed after) :
    changed = entry.node.refines before.compilable ∧
      Adds (entry.node.refinement before.compilable) before after ∧
      (changed = false → Succeeds (visit source copying entry.id) before false after) := by
  obtain ⟨other, between, found, called, checked⟩ := succeeds_visit_iff.mp succeeded
  obtain rfl := Except.ok.inj ((coherent.entry_of_mem mem).symm.trans found)
  obtain ⟨decided, adds, copies⟩ := adds_refining (standard entry mem) called
  refine ⟨decided, ?_, fun unchanged => succeeds_visit_iff.mpr
    ⟨entry, between, found, copies unchanged, checked⟩⟩
  obtain rfl := unchanged_of_checkMapped checked
  exact ⟨adds.compilable_eq, adds.grows⟩

/-- The induction is on the nodes that are left. -/
theorem adds_visitAll (standard : source.Standard) (coherent : source.Coherent)
    {entries : List Entry} (within : ∀ entry ∈ entries, entry ∈ source.entries) {count refined : Nat}
    (succeeded : Succeeds (visitAll source refining (entries.map Entry.id) count) before refined
      after) :
    refined = count + entries.countP (·.node.refines before.compilable) ∧
      Adds (entries.flatMap (·.node.refinement before.compilable)) before after ∧
      (refined = count →
        Succeeds (visitAll source copying (entries.map Entry.id) count) before count after) := by
  induction entries generalizing before count with
  | nil =>
      obtain ⟨rfl, rfl⟩ := succeeds_pure_iff.mp succeeded
      exact ⟨rfl, .of_target_eq rfl rfl, fun _ => succeeded⟩
  | cons entry rest ih =>
      simp only [List.map_cons, visitAll, succeeds_bind_iff] at succeeded ⊢
      obtain ⟨changed, between, visited, others⟩ := succeeded
      obtain ⟨decided, adds, copies⟩ :=
        adds_visit standard coherent (within entry List.mem_cons_self) visited
      obtain ⟨counted, addsRest, copiesRest⟩ :=
        ih (fun other mem => within other (List.mem_cons_of_mem _ mem)) others
      rw [adds.compilable_eq] at counted addsRest
      refine ⟨?_, adds.trans addsRest, fun none => ?_⟩
      · rw [counted, List.countP_cons, ← decided]
        cases changed with
        | true => simp only [if_true]; omega
        | false => simp
      · cases changed with
        | true =>
            simp only [if_true] at counted
            omega
        | false => exact ⟨false, between, copies rfl, copiesRest none⟩

/-- A refinement pass over a well-formed model of standard nodes refines the nodes that do not count
as compilable and have to be replaced.  Its target is dense, and the operators of the target are
those of the source with the refined ones replaced.  A pass that refines nothing copies. -/
theorem adds_refinePass (standard : source.Standard) (coherent : source.Coherent) {target : Model}
    {refined : Nat} (succeeded : Succeeds (refinePass source) before (target, refined) after) :
    after.compilable = before.compilable ∧
      refined = source.entries.countP (·.node.refines before.compilable) ∧
      target.Dense ∧
      target.operators = source.entries.flatMap (·.node.refinement before.compilable) ∧
      (refined = 0 → Succeeds (copyModel source) before target after) := by
  simp only [refinePass, transformModel, transformNodes, succeeds_bind_iff, succeeds_modify_iff,
    succeeds_get_iff, succeeds_pure_iff, Prod.mk.injEq] at succeeded
  obtain ⟨⟨⟩, _, rfl, _, last, visited, _, _, ⟨rfl, rfl⟩, ⟨⟩, _, rfl, ⟨rfl, rfl⟩, rfl⟩ := succeeded
  obtain ⟨counted, adds, copies⟩ := adds_visitAll standard coherent (fun _ mem => mem) visited
  obtain ⟨dense, operators⟩ := adds.grows Model.dense_empty
  refine ⟨adds.compilable_eq, counted.trans (Nat.zero_add _), dense, operators, fun none => ?_⟩
  simp only [copyModel, transformModel, transformNodes, succeeds_bind_iff, succeeds_modify_iff,
    succeeds_get_iff, succeeds_pure_iff]
  exact ⟨_, _, ⟨⟨⟩, _, rfl, 0, _, copies none, _, _, ⟨rfl, rfl⟩, ⟨⟩, _, rfl, rfl, rfl⟩, rfl, rfl⟩

end Visits

end Dataflow
