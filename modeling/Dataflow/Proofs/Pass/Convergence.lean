import Dataflow.Proofs.Pass.Counting

/-!
# When refinement is complete

A quiet pass refines no node.  It copies its source, and a dense model is its own copy, so what a
quiet pass returns is a fixed point of refinement.  The nodes that replace others have code.  With
the default answer to which nodes count as compilable, one pass therefore does all the work, and a
second one only confirms it.  With another answer the flag of a refinement still tells whether a
further pass would refine something, as long as the answer does not depend on the ids that a node
reads and the refused nodes can be replaced.
-/

namespace Dataflow

open Pass

/-! ## Quiet passes -/

section Quiet

variable {source model target : Model} {before after : Transformer} {refined : Nat}

theorem Succeeds.unique {ε σ α : Type} {action : ExceptT ε (StateM σ) α} {start one two : σ}
    {first second : α} (left : Succeeds action start first one)
    (right : Succeeds action start second two) : first = second ∧ one = two := by
  have same := left.symm.trans right
  exact ⟨Except.ok.inj (congrArg Prod.fst same), congrArg Prod.snd same⟩

/-- Some node of the model would be refined by a pass. -/
def Model.Refinable (model : Model) (compilable : Node → Bool) : Prop :=
  ∃ entry ∈ model.entries, entry.node.refines compilable = true

theorem countP_refines_eq_zero_iff {compilable : Node → Bool} :
    model.entries.countP (·.node.refines compilable) = 0 ↔ ¬model.Refinable compilable := by
  simp [List.countP_eq_zero, Model.Refinable]

/-- A pass over a model succeeds, and its target represents the model. -/
theorem exists_refinePass (wellFormed : source.WellFormed) (standard : source.Standard)
    (before : Transformer) :
    ∃ target after, Succeeds (refinePass source) before
        (target, source.entries.countP (·.node.refines before.compilable)) after ∧
      Represents after.portMap source target := by
  obtain ⟨target, refined, after, passed, represents⟩ :=
    exists_represents wellFormed standard replacing_refining before
  obtain ⟨_, rfl, _⟩ := adds_refinePass standard wellFormed.coherent passed
  exact ⟨target, after, passed, represents⟩

theorem represents_of_refinePass (wellFormed : source.WellFormed) (standard : source.Standard)
    (passed : Succeeds (refinePass source) before (target, refined) after) :
    Represents after.portMap source target := by
  obtain ⟨other, last, passedAgain, represents⟩ := exists_refinePass wellFormed standard before
  obtain ⟨same, rfl⟩ := passed.unique passedAgain
  rwa [(Prod.mk.inj same).1]

theorem renumbers_of_copyModel (wellFormed : source.WellFormed) (standard : source.Standard)
    (copied : Succeeds (copyModel source) before target after) :
    source.Renumbers target after.portMap := by
  obtain ⟨other, last, copiedAgain, renumbers⟩ := wellFormed.exists_copyModel standard before
  obtain ⟨rfl, rfl⟩ := copied.unique copiedAgain
  exact renumbers

/-- Copying does not change which nodes count as compilable. -/
theorem compilable_of_copyModel (wellFormed : source.WellFormed) (standard : source.Standard)
    (copied : Succeeds (copyModel source) before target after) :
    after.compilable = before.compilable := by
  obtain ⟨other, changed, last, passed, _, same⟩ :=
    exists_transformNodes wellFormed.coherent replacing_copying (fun _ mem => mem)
      (Model.standard_iff_skeleton.mp standard) (source.ids_eq_skeleton ▸ wellFormed.ids_nodup)
      wellFormed.closed before
  rw [← source.ids_eq_skeleton] at passed
  simp only [copyModel, succeeds_bind_iff, succeeds_pure_iff] at copied
  obtain ⟨_, _, passedAgain, rfl, rfl⟩ := copied
  rw [(passedAgain.unique passed).2, same]

/-- A dense model is its own copy. -/
theorem Model.Dense.copy_eq (dense : model.Dense) (standard : model.Standard) {map : PortMap}
    (renumbers : model.Renumbers target map) :
    target.skeleton = model.skeleton ∧ map = .renumbering id model.skeleton := by
  refine ⟨?_, ?_⟩
  · rw [renumbers.skeleton_eq,
      dense.wellFormed.renumbered_eq_self standard fun _ => dense.position_eq]
  · rw [renumbers.portMap_eq]
    refine PortMap.renumbering_congr fun pair mem => dense.position_eq ?_
    rw [Model.ids_eq_skeleton]
    exact List.mem_map_of_mem mem

end Quiet

/-! ## Runs of passes -/

section Runs

variable {source model : Model} {before after : Transformer} {refined : Refined} {total : PortMap}
  {limit iterations : Nat}

/-- The last pass of a refinement found nothing to refine: the result is the copy of a model without
refinable nodes. -/
def Refined.Quiet (refined : Refined) (compilable : Node → Bool) : Prop :=
  ∃ (earlier : Model) (map : PortMap), earlier.WellFormed ∧ earlier.Standard ∧
    ¬earlier.Refinable compilable ∧ earlier.Renumbers refined.model map

/-- The driver either stops after a quiet pass or goes on after one that refined something. -/
theorem of_refineMore_succ
    (succeeded : Succeeds (refineMore (limit + 1) model total iterations) before refined after) :
    ∃ next changed between composed,
      Succeeds (refinePass model) before (next, changed) between ∧
      total.compose between.portMap = .ok composed ∧
      (changed = 0 ∧ refined = ⟨next, iterations + 1, true, composed⟩ ∧ after = between ∨
        changed ≠ 0 ∧
          Succeeds (refineMore limit next composed (iterations + 1)) between refined after) := by
  simp only [refineMore, succeeds_bind_iff, succeeds_get_iff, succeeds_lift_iff] at succeeded
  obtain ⟨⟨next, changed⟩, between, passed, _, _, ⟨rfl, rfl⟩, composed, _, ⟨composition, rfl⟩, rest⟩ :=
    succeeded
  refine ⟨next, changed, _, composed, passed, composition, ?_⟩
  split at rest
  · rename_i quiet
    obtain ⟨rfl, rfl⟩ := succeeds_pure_iff.mp rest
    exact .inl ⟨quiet, rfl, rfl⟩
  · rename_i busy
    exact .inr ⟨busy, rest⟩

/-- Without any pass the model is copied. -/
theorem of_refineModel_zero
    (succeeded : Succeeds (refineModel source ⟨0⟩) before refined after) :
    Succeeds (copyModel source) before refined.model after ∧ refined.iterations = 0 ∧
      refined.converged = refined.model.entries.all (after.compilable ·.node) ∧
      refined.portMap = after.portMap := by
  simp only [refineModel, fullyCompilable, succeeds_bind_iff, succeeds_get_iff, succeeds_pure_iff]
    at succeeded
  obtain ⟨model, _, copied, _, _, ⟨_, _, ⟨rfl, rfl⟩, rfl, rfl⟩, _, _, ⟨rfl, rfl⟩, rfl, rfl⟩ := succeeded
  exact ⟨copied, rfl, rfl, rfl⟩

/-- What the driver concludes after the last pass. -/
structure Concludes (last : Refined) (compilable : Node → Bool) (refined : Refined) : Prop where
  model_eq : refined.model = last.model
  iterations_eq : refined.iterations = last.iterations
  portMap_eq : refined.portMap = last.portMap
  converged_eq : refined.converged = (last.converged || last.model.entries.all (compilable ·.node))

/-- There is a first pass, and others follow it if it refined something. -/
theorem of_refineModel_succ
    (succeeded : Succeeds (refineModel source ⟨limit + 1⟩) before refined after) :
    ∃ model changed between last stop,
      Succeeds (refinePass source) before (model, changed) between ∧
      (changed = 0 ∧ last = ⟨model, 1, true, between.portMap⟩ ∧ stop = between ∨
        changed ≠ 0 ∧ Succeeds (refineMore limit model between.portMap 1) between last stop) ∧
      Concludes last stop.compilable refined := by
  simp only [refineModel_eq, succeeds_bind_iff, succeeds_get_iff] at succeeded
  obtain ⟨⟨model, changed⟩, between, passed, _, _, ⟨rfl, rfl⟩, last, stop, finished, concluded⟩ :=
    succeeded
  refine ⟨model, changed, _, last, stop, passed, ?_, ?_⟩
  · split at finished
    · rename_i quiet
      obtain ⟨rfl, rfl⟩ := succeeds_pure_iff.mp finished
      exact .inl ⟨quiet, rfl, rfl⟩
    · rename_i busy
      exact .inr ⟨busy, finished⟩
  · simp only [conclude, succeeds_bind_iff, succeeds_get_iff, succeeds_set_iff, succeeds_pure_iff]
      at concluded
    obtain ⟨_, _, ⟨rfl, rfl⟩, _, _, rfl, rfl, rfl⟩ := concluded
    exact ⟨rfl, rfl, rfl, rfl⟩

/-- A quiet pass copies a model without refinable nodes. -/
theorem quiet_of_refinePass (wellFormed : source.WellFormed) (standard : source.Standard)
    (passed : Succeeds (refinePass source) before (model, 0) after) :
    ¬source.Refinable before.compilable ∧ source.Renumbers model after.portMap := by
  obtain ⟨_, counted, _, _, copies⟩ := adds_refinePass standard wellFormed.coherent passed
  exact ⟨countP_refines_eq_zero_iff.mp counted.symm,
    renumbers_of_copyModel wellFormed standard (copies rfl)⟩

/-- The driver reports convergence only after a quiet pass.  The induction is on the number of passes
that are left. -/
theorem quiet_of_refineMore (wellFormed : model.WellFormed) (standard : model.Standard)
    (succeeded : Succeeds (refineMore limit model total iterations) before refined after) :
    after.compilable = before.compilable ∧
      (refined.converged = true → refined.Quiet before.compilable) := by
  induction limit generalizing model total iterations before with
  | zero =>
      obtain ⟨rfl, rfl⟩ := succeeds_pure_iff.mp succeeded
      exact ⟨rfl, nofun⟩
  | succ limit ih =>
      obtain ⟨next, changed, between, composed, passed, _, rest⟩ := of_refineMore_succ succeeded
      have kept := (adds_refinePass standard wellFormed.coherent passed).1
      rcases rest with ⟨rfl, rfl, rfl⟩ | ⟨_, others⟩
      · obtain ⟨settled, renumbers⟩ := quiet_of_refinePass wellFormed standard passed
        exact ⟨kept, fun _ => ⟨model, after.portMap, wellFormed, standard, settled, renumbers⟩⟩
      · have represents := represents_of_refinePass wellFormed standard passed
        obtain ⟨keptMore, quiet⟩ := ih represents.wellFormed represents.standard others
        exact ⟨keptMore.trans kept, kept ▸ quiet⟩

/-- A refinement that reports convergence ended with a quiet pass, or all nodes of its result count
as compilable. -/
theorem converged_cases (wellFormed : source.WellFormed) (standard : source.Standard)
    {options : RefineOptions}
    (succeeded : Succeeds (refineModel source options) before refined after) :
    (refined.converged = true → refined.Quiet before.compilable ∨
        ∀ entry ∈ refined.model.entries, before.compilable entry.node = true) ∧
      (refined.converged = false →
        ∃ entry ∈ refined.model.entries, before.compilable entry.node = false) := by
  obtain ⟨_ | limit⟩ := options
  · obtain ⟨copied, _, converged, _⟩ := of_refineModel_zero succeeded
    rw [compilable_of_copyModel wellFormed standard copied] at converged
    rw [converged]
    exact ⟨fun all => .inr (by simpa using all), fun some => by simpa using some⟩
  · obtain ⟨model, changed, between, last, stop, passed, finished, concludes⟩ :=
      of_refineModel_succ succeeded
    have kept := (adds_refinePass standard wellFormed.coherent passed).1
    have represents := represents_of_refinePass wellFormed standard passed
    obtain ⟨same, quiet⟩ : stop.compilable = before.compilable ∧
        (last.converged = true → last.Quiet before.compilable) := by
      rcases finished with ⟨rfl, rfl, rfl⟩ | ⟨_, others⟩
      · obtain ⟨settled, renumbers⟩ := quiet_of_refinePass wellFormed standard passed
        exact ⟨kept, fun _ => ⟨source, _, wellFormed, standard, settled, renumbers⟩⟩
      · obtain ⟨keptMore, quiet⟩ :=
          quiet_of_refineMore represents.wellFormed represents.standard others
        exact ⟨keptMore.trans kept, kept ▸ quiet⟩
    have converged := concludes.converged_eq
    rw [same, ← concludes.model_eq] at converged
    constructor
    · intro done
      rcases Bool.or_eq_true_iff.mp (converged.symm.trans done) with byPass | byNodes
      · rw [Refined.Quiet, concludes.model_eq]
        exact .inl (quiet byPass)
      · exact .inr (by simpa using byNodes)
    · intro open_
      simpa using (Bool.or_eq_false_iff.mp (converged.symm.trans open_)).2

end Runs

/-! ## One pass does all the work -/

section Eager

variable {source target : Model} {before after : Transformer} {changed : Nat}
  {compilable : Node → Bool} {node : Node}

/-- Nodes that have to be replaced do not count as compilable. -/
def Eager (compilable : Node → Bool) : Prop :=
  ∀ node : Node, node.capabilities.mustRefine = true → compilable node = false

theorem eager_hasCode : Eager hasCode := by
  intro node must
  simpa [Capabilities.mustRefine, hasCode] using must

theorem Eager.refines_eq (eager : Eager compilable) (node : Node) :
    node.refines compilable = node.capabilities.mustRefine := by
  rw [Node.refines]
  cases must : node.capabilities.mustRefine with
  | false => rw [Bool.and_false]
  | true => rw [eager node must, Bool.not_false, Bool.and_true]

/-- Nothing that replaces a node has to be replaced itself. -/
theorem Node.Standard.refinement_of_eager (standard : node.Standard) (eager : Eager compilable) :
    (node.refinement compilable).length = 1 + node.capabilities.mustRefine.toNat ∧
      ∀ operator ∈ node.refinement compilable, operator.capabilities.mustRefine = false := by
  rw [Node.refinement, eager.refines_eq]
  cases standard <;>
    simp [Node.capabilities, Operator.capabilities, Capabilities.mustRefine, Capabilities.parameter,
      Capabilities.code, Capabilities.refineOnly, Operator.replacement, Node.constant]

/-- The number of nodes that have to be replaced before compilation. -/
def Model.pending (model : Model) : Nat :=
  model.entries.countP (·.node.capabilities.mustRefine)

theorem length_refinements {entries : List Entry} (standard : ∀ entry ∈ entries, entry.node.Standard)
    (eager : Eager compilable) :
    (entries.flatMap (·.node.refinement compilable)).length =
      entries.length + entries.countP (·.node.capabilities.mustRefine) := by
  induction entries with
  | nil => rfl
  | cons entry rest ih =>
      rw [List.flatMap_cons, List.length_append, List.length_cons, List.countP_cons,
        ih fun other mem => standard other (List.mem_cons_of_mem _ mem),
        ((standard entry List.mem_cons_self).refinement_of_eager eager).1]
      cases entry.node.capabilities.mustRefine <;> simp <;> omega

/-- A pass that refines all nodes that have to be replaced leaves none of them. -/
theorem settled_of_refinePass (wellFormed : source.WellFormed) (standard : source.Standard)
    (eager : Eager before.compilable)
    (passed : Succeeds (refinePass source) before (target, changed) after) :
    changed = source.pending ∧ target.size = source.size + source.pending ∧ target.pending = 0 := by
  obtain ⟨_, counted, dense, operators, _⟩ := adds_refinePass standard wellFormed.coherent passed
  refine ⟨?_, ?_, List.countP_eq_zero.mpr fun entry mem => ?_⟩
  · simp only [counted, Model.pending, eager.refines_eq]
  · have length := congrArg List.length operators
    rwa [length_refinements standard eager, Model.operators, List.length_map,
      dense.wellFormed.coherent.length_entries, wellFormed.coherent.length_entries] at length
  · have listed : entry.node.operator ∈ target.operators := List.mem_map_of_mem mem
    rw [operators, List.mem_flatMap] at listed
    obtain ⟨old, oldMem, made⟩ := listed
    exact Bool.eq_false_iff.mp (((standard old oldMem).refinement_of_eager eager).2 _ made)

/-- A dense model without refinable nodes is a fixed point of refinement, with any limit. -/
theorem Model.Dense.exists_refineModel (dense : source.Dense) (standard : source.Standard)
    (settled : ¬source.Refinable before.compilable) (options : RefineOptions) :
    ∃ refined after, Succeeds (refineModel source options) before refined after ∧
      refined.iterations = min options.maxIterations 1 ∧
      refined.model.skeleton = source.skeleton ∧
      refined.portMap = .renumbering id source.skeleton := by
  obtain ⟨refined, after, succeeded, _⟩ :=
    Dataflow.exists_refineModel dense.wellFormed standard options before
  refine ⟨refined, after, succeeded, ?_⟩
  obtain ⟨_ | limit⟩ := options
  · obtain ⟨copied, iterations, _, map⟩ := of_refineModel_zero succeeded
    obtain ⟨skeleton, renumbering⟩ :=
      dense.copy_eq standard (renumbers_of_copyModel dense.wellFormed standard copied)
    exact ⟨iterations, skeleton, map.trans renumbering⟩
  · obtain ⟨model, changed, between, last, stop, passed, finished, concludes⟩ :=
      of_refineModel_succ succeeded
    have counted := (adds_refinePass standard dense.wellFormed.coherent passed).2.1
    obtain rfl := counted.trans (countP_refines_eq_zero_iff.mpr settled)
    rcases finished with ⟨_, rfl, rfl⟩ | ⟨busy, _⟩
    · obtain ⟨_, renumbers⟩ := quiet_of_refinePass dense.wellFormed standard passed
      obtain ⟨skeleton, renumbering⟩ := dense.copy_eq standard renumbers
      refine ⟨concludes.iterations_eq.trans (by simp), ?_, concludes.portMap_eq.trans renumbering⟩
      rw [concludes.model_eq, skeleton]
    · exact absurd rfl busy

end Eager

/-! ## Refinement with the default answer -/

section Default

variable {source model target : Model} {before : Transformer}

theorem Model.pending_eq_operators (model : Model) :
    model.pending = model.operators.countP (·.capabilities.mustRefine) := by
  rw [pending, operators, List.countP_map]
  rfl

/-- A copy has the operators of its source. -/
theorem Model.Renumbers.operators_eq {map : PortMap} (renumbers : source.Renumbers target map) :
    target.operators = source.operators := by
  rw [operators_eq_skeleton, renumbers.skeleton_eq, operators_eq_skeleton, renumbered, List.map_map]
  rfl

theorem Model.WellFormed.size_eq (wellFormed : model.WellFormed) :
    model.size = model.operators.length := by
  rw [operators, List.length_map, wellFormed.coherent.length_entries]

/-- All nodes have code when none has to be replaced. -/
theorem Model.all_hasCode_iff : model.entries.all (hasCode ·.node) = true ↔ model.pending = 0 := by
  simp [pending, List.countP_eq_zero, hasCode, Capabilities.mustRefine]

theorem Model.not_refinable (none : model.pending = 0) (compilable : Node → Bool) :
    ¬model.Refinable compilable := by
  rintro ⟨entry, mem, refines⟩
  have coded := List.countP_eq_zero.mp none entry mem
  simp [Node.refines, coded] at refines

/-- The driver confirms with one more pass, if it may, that nothing is left to refine. -/
theorem of_refineMore_settled {limit iterations : Nat} {total : PortMap} {refined : Refined}
    {after : Transformer} (dense : model.Dense) (standard : model.Standard)
    (settled : ¬model.Refinable before.compilable)
    (succeeded : Succeeds (refineMore limit model total iterations) before refined after) :
    after.compilable = before.compilable ∧ refined.model.Dense ∧ refined.model.Standard ∧
      refined.model.operators = model.operators ∧ refined.iterations = iterations + min limit 1 := by
  cases limit with
  | zero =>
      obtain ⟨rfl, rfl⟩ := succeeds_pure_iff.mp succeeded
      exact ⟨rfl, dense, standard, rfl, rfl⟩
  | succ limit =>
      obtain ⟨next, changed, between, composed, passed, _, rest⟩ := of_refineMore_succ succeeded
      obtain ⟨kept, counted, nextDense, _⟩ :=
        adds_refinePass standard dense.wellFormed.coherent passed
      obtain rfl := counted.trans (countP_refines_eq_zero_iff.mpr settled)
      rcases rest with ⟨_, rfl, rfl⟩ | ⟨busy, _⟩
      · have represents := represents_of_refinePass dense.wellFormed standard passed
        obtain ⟨_, renumbers⟩ := quiet_of_refinePass dense.wellFormed standard passed
        exact ⟨kept, nextDense, represents.standard, renumbers.operators_eq, by simp⟩
      · exact absurd rfl busy

/-- Refinement of standard nodes is complete at once.  Without a pass the model is copied, and the
flag says whether all of its nodes have code.  With at least one pass refinement is complete: it
takes one pass if nothing has to be replaced or only one pass is allowed, and else a second one that
confirms the first.  Every node that has to be replaced becomes two nodes, and all nodes of the
result have code.  The result is a fixed point: a pass over it refines nothing, and refining it again
with any limit gives the same nodes under the same ids and maps every port to itself. -/
theorem refinement_is_complete (wellFormed : source.WellFormed) (standard : source.Standard)
    (options : RefineOptions) (before : Transformer) (default : before.compilable = hasCode) :
    ∃ refined after, Succeeds (refineModel source options) before refined after ∧
      (options.maxIterations = 0 → refined.iterations = 0 ∧ refined.model.size = source.size ∧
        (refined.converged = true ↔ source.pending = 0)) ∧
      (options.maxIterations ≠ 0 → refined.converged = true ∧
        refined.iterations =
          (if source.pending = 0 ∨ options.maxIterations = 1 then 1 else 2) ∧
        refined.model.size = source.size + source.pending ∧
        (∀ entry ∈ refined.model.entries, entry.node.capabilities.compilable = true) ∧
        ∀ start : Transformer, start.compilable = hasCode →
          (∃ copy last, Succeeds (refinePass refined.model) start (copy, 0) last) ∧
          ∀ more : RefineOptions, ∃ again last,
            Succeeds (refineModel refined.model more) start again last ∧
            again.iterations = min more.maxIterations 1 ∧
            again.model.skeleton = refined.model.skeleton ∧
            again.portMap = .renumbering id refined.model.skeleton ∧
            ∀ type coordinate, refined.model.Offers type coordinate →
              again.portMap.translateCoordinate coordinate = .ok coordinate) := by
  obtain ⟨refined, after, succeeded, represents⟩ :=
    exists_refineModel wellFormed standard options before
  refine ⟨refined, after, succeeded, ?_⟩
  obtain ⟨_ | limit⟩ := options
  · refine ⟨fun _ => ?_, fun some => absurd rfl some⟩
    obtain ⟨copied, iterations, converged, _⟩ := of_refineModel_zero succeeded
    have renumbers := renumbers_of_copyModel wellFormed standard copied
    refine ⟨iterations, ?_, ?_⟩
    · rw [renumbers.wellFormed.size_eq, renumbers.operators_eq, wellFormed.size_eq]
    · rw [converged, compilable_of_copyModel wellFormed standard copied, default,
        Model.all_hasCode_iff, Model.pending_eq_operators, renumbers.operators_eq,
        Model.pending_eq_operators]
  · refine ⟨nofun, fun _ => ?_⟩
    obtain ⟨model, changed, between, last, stop, passed, finished, concludes⟩ :=
      of_refineModel_succ succeeded
    obtain ⟨kept, _, modelDense, _⟩ := adds_refinePass standard wellFormed.coherent passed
    obtain ⟨rfl, size, settled⟩ :=
      settled_of_refinePass wellFormed standard (default ▸ eager_hasCode) passed
    obtain ⟨same, dense, lastStandard, operators, iterations⟩ : stop.compilable = hasCode ∧
        last.model.Dense ∧ last.model.Standard ∧ last.model.operators = model.operators ∧
        last.iterations = if source.pending = 0 ∨ limit + 1 = 1 then 1 else 2 := by
      have modelStandard := (represents_of_refinePass wellFormed standard passed).standard
      rcases finished with ⟨none, rfl, rfl⟩ | ⟨some, others⟩
      · exact ⟨kept.trans default, modelDense, modelStandard, rfl, by simp [none]⟩
      · obtain ⟨keptMore, dense, lastStandard, operators, iterations⟩ :=
          of_refineMore_settled modelDense modelStandard (Model.not_refinable settled _) others
        refine ⟨keptMore.trans (kept.trans default), dense, lastStandard, operators, ?_⟩
        rw [iterations]
        cases limit <;> simp [some]
    have none : last.model.pending = 0 := by
      rw [Model.pending_eq_operators, operators, ← Model.pending_eq_operators, settled]
    rw [concludes.model_eq, concludes.iterations_eq, concludes.converged_eq, same,
      Model.all_hasCode_iff.mpr none, Bool.or_true]
    refine ⟨rfl, iterations, ?_, ?_, fun start _ => ?_⟩
    · rw [dense.wellFormed.size_eq, operators, ← modelDense.wellFormed.size_eq, size]
    · simpa [hasCode] using Model.all_hasCode_iff.mpr none
    · have nothing := Model.not_refinable none start.compilable
      obtain ⟨copy, stopped, passedAgain, _⟩ := exists_refinePass dense.wellFormed lastStandard start
      rw [countP_refines_eq_zero_iff.mpr nothing] at passedAgain
      refine ⟨⟨copy, stopped, passedAgain⟩, fun more => ?_⟩
      obtain ⟨again, stopped, refinedAgain, passes, skeleton, map⟩ :=
        dense.exists_refineModel lastStandard nothing more
      refine ⟨again, stopped, refinedAgain, passes, skeleton, map, fun type coordinate offered => ?_⟩
      have once : (last.model.skeleton.map Prod.fst).Nodup :=
        last.model.ids_eq_skeleton ▸ dense.wellFormed.ids_nodup
      rw [map, PortMap.translateCoordinate_renumbering once offered, Coordinate.renumber_eq_self rfl]

/-- One node of the announcer has to be replaced.  It becomes two, and a second pass confirms that
nothing is left to do. -/
theorem announcer_is_complete :
    ∃ refined after again last,
      Succeeds (refineModel announcer ⟨3⟩) (.start hasCode) refined after ∧
        refined.converged = true ∧ refined.iterations = 2 ∧ refined.model.size = 5 ∧
        Succeeds (refineModel refined.model ⟨3⟩) (.start hasCode) again last ∧
        again.iterations = 1 ∧ again.model.skeleton = refined.model.skeleton := by
  have standard : announcer.Standard := fun entry mem =>
    (sound_announcer.made entry mem).standard (by revert entry; decide)
  obtain ⟨refined, after, succeeded, _, complete⟩ :=
    refinement_is_complete sound_announcer.wellFormed standard ⟨3⟩ (.start hasCode) rfl
  obtain ⟨converged, iterations, size, _, settled⟩ := complete (by decide)
  obtain ⟨again, last, refinedAgain, passes, skeleton, _⟩ := (settled (.start hasCode) rfl).2 ⟨3⟩
  exact ⟨refined, after, again, last, succeeded, converged, iterations, size, refinedAgain, passes,
    skeleton⟩

end Default

/-! ## What the flag of a refinement says -/

section Flag

variable {source : Model} {compilable : Node → Bool} {refined : Refined}

/-- An answer that does not depend on the ids of the nodes that a node reads. -/
def Steady (compilable : Node → Bool) : Prop :=
  ∀ (number : NodeId → NodeId) (node : Node), compilable (node.renumber number) = compilable node

/-- After a quiet pass there is nothing left to refine. -/
theorem Refined.Quiet.settled (quiet : refined.Quiet compilable) (steady : Steady compilable) :
    ¬refined.model.Refinable compilable := by
  obtain ⟨earlier, map, _, _, settled, renumbers⟩ := quiet
  rintro ⟨entry, mem, refines⟩
  have listed : (entry.id, entry.node) ∈ renumbered (position earlier.skeleton) earlier.skeleton :=
    renumbers.skeleton_eq ▸ List.mem_map_of_mem mem
  obtain ⟨pair, pairMem, same⟩ := List.mem_map.mp listed
  obtain ⟨old, oldMem, rfl⟩ := List.mem_map.mp pairMem
  obtain ⟨_, node⟩ := Prod.mk.inj same
  refine settled ⟨old, oldMem, ?_⟩
  rw [← node, Node.refines, steady] at refines
  exact refines

/-- The flag of a refinement tells whether a further pass has something to do.  Where it is set, a
further pass refines nothing; where it is not, a further pass refines a node, or some node does not
count as compilable although it has code and nothing replaces it. -/
theorem converged_tells (wellFormed : source.WellFormed) (standard : source.Standard)
    (options : RefineOptions) (before : Transformer) (steady : Steady before.compilable) :
    ∃ refined after, Succeeds (refineModel source options) before refined after ∧
      refined.model.Standard ∧
      ∀ start : Transformer, start.compilable = before.compilable →
        ∃ next changed last, Succeeds (refinePass refined.model) start (next, changed) last ∧
          (refined.converged = true → changed = 0) ∧
          (refined.converged = false → 0 < changed ∨ ∃ entry ∈ refined.model.entries,
            before.compilable entry.node = false ∧
              entry.node.capabilities.mustRefine = false) := by
  obtain ⟨refined, after, succeeded, represents⟩ :=
    exists_refineModel wellFormed standard options before
  obtain ⟨complete, incomplete⟩ := converged_cases wellFormed standard succeeded
  refine ⟨refined, after, succeeded, represents.standard, fun start same => ?_⟩
  obtain ⟨next, last, passed, _⟩ :=
    exists_refinePass represents.wellFormed represents.standard start
  refine ⟨next, _, last, passed, fun done => ?_, fun open_ => ?_⟩
  · rw [countP_refines_eq_zero_iff, same]
    rcases complete done with quiet | all
    · exact quiet.settled steady
    · rintro ⟨entry, mem, refines⟩
      simp [Node.refines, all entry mem] at refines
  · obtain ⟨entry, mem, refused⟩ := incomplete open_
    cases must : entry.node.capabilities.mustRefine with
    | false => exact .inr ⟨entry, mem, refused, must⟩
    | true =>
        refine .inl (List.countP_pos_iff.mpr ⟨entry, mem, ?_⟩)
        simp [Node.refines, same, refused, must]

/-- When all nodes with code count as compilable, the flag is missing exactly where a further pass
would refine a node. -/
theorem converged_eq_false_iff (wellFormed : source.WellFormed) (standard : source.Standard)
    (options : RefineOptions) (before : Transformer) (steady : Steady before.compilable)
    (accepts : ∀ node : Node, node.Standard → node.capabilities.mustRefine = false →
      before.compilable node = true) :
    ∃ refined after, Succeeds (refineModel source options) before refined after ∧
      ∀ start : Transformer, start.compilable = before.compilable →
        ∃ next changed last, Succeeds (refinePass refined.model) start (next, changed) last ∧
          (refined.converged = false ↔ 0 < changed) := by
  obtain ⟨refined, after, succeeded, refinedStandard, further⟩ :=
    converged_tells wellFormed standard options before steady
  refine ⟨refined, after, succeeded, fun start same => ?_⟩
  obtain ⟨next, changed, last, passed, complete, incomplete⟩ := further start same
  refine ⟨next, changed, last, passed, fun open_ => ?_, fun some => ?_⟩
  · refine (incomplete open_).resolve_right ?_
    rintro ⟨entry, mem, refused, has⟩
    exact absurd (accepts entry.node (refinedStandard entry mem) has) (by simp [refused])
  · cases flag : refined.converged with
    | false => rfl
    | true => exact absurd (complete flag) (Nat.ne_of_gt some)

/-- The flag can be missing although all is done: one pass replaces what can be replaced in the
announcer, a second one has nothing to refine, but the refused nodes keep the flag down. -/
theorem announcer_stays_open :
    ∃ refined after next last,
      Succeeds (refineModel announcer ⟨1⟩) (.start fun _ => false) refined after ∧
        refined.converged = false ∧
        Succeeds (refinePass refined.model) (.start fun _ => false) (next, 0) last := by
  have standard : announcer.Standard := fun entry mem =>
    (sound_announcer.made entry mem).standard (by revert entry; decide)
  obtain ⟨refined, after, succeeded, represents⟩ :=
    exists_refineModel sound_announcer.wellFormed standard ⟨1⟩ (.start fun _ => false)
  obtain ⟨model, changed, between, last, stop, passed, finished, concludes⟩ :=
    of_refineModel_succ succeeded
  obtain ⟨kept, _, dense, _⟩ :=
    adds_refinePass standard sound_announcer.wellFormed.coherent passed
  obtain ⟨rfl, size, settled⟩ :=
    settled_of_refinePass sound_announcer.wellFormed standard (fun _ _ => rfl) passed
  rcases finished with ⟨none, _⟩ | ⟨_, stopped⟩
  · exact absurd none (by decide)
  · obtain ⟨rfl, rfl⟩ := succeeds_pure_iff.mp stopped
    have nonempty : model.entries ≠ [] := by
      intro none
      rw [dense.wellFormed.size_eq, Model.operators, none] at size
      exact absurd size (by decide)
    obtain ⟨next, last, passedAgain, _⟩ :=
      exists_refinePass represents.wellFormed represents.standard (.start fun _ => false)
    rw [countP_refines_eq_zero_iff.mpr (concludes.model_eq ▸ Model.not_refinable settled _)]
      at passedAgain
    refine ⟨refined, after, next, last, succeeded, ?_, passedAgain⟩
    rw [concludes.converged_eq, kept]
    simpa [Transformer.start, List.all_eq_false] using List.exists_mem_of_ne_nil _ nonempty

end Flag

end Dataflow
