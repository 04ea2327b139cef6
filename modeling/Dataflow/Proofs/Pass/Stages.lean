import Dataflow.Proofs.Pass.Callbacks

/-!
# The course of a pass

A pass whose callback is a script goes through moments: between two nodes, or within the callback of
one of them.  The relation `Step` says what comes after a moment, and a run of the pass is a chain
of steps to its last moment.  What holds at every point of a pass is an invariant of the steps.
-/

namespace Dataflow

/-- A transformer that is at a node. -/
def Transformer.enter (transformer : Transformer) (id : NodeId) (node : Node) : Transformer :=
  { transformer with current := some ⟨id, node.outputs.map OutputPort.size⟩ }

/-- A transformer that is at no node. -/
def Transformer.leave (transformer : Transformer) : Transformer :=
  { transformer with current := none }

/-- A transformer as a pass starts with it. -/
def Transformer.cleared (transformer : Transformer) : Transformer :=
  { transformer with target := .empty, portMap := .empty }

namespace Pass

/-! ## Visits -/

section Visits

variable {map : PortMap} {id : NodeId} {node : Node} {port : Nat}

/-- The lowest output port of a node that is not mapped. -/
def firstUnmapped (map : PortMap) (id : NodeId) (node : Node) : Option OutputRef :=
  ((List.range node.outputs.length).map (⟨id, ·⟩)).find? fun port => (map.get? port).isNone

theorem firstUnmapped_eq_none_iff :
    firstUnmapped map id node = none ↔ ∀ port < node.outputs.length, map.get? ⟨id, port⟩ ≠ none := by
  simp [firstUnmapped, List.find?_eq_none]

theorem firstUnmapped_eq_some (inside : port < node.outputs.length)
    (unmapped : map.get? ⟨id, port⟩ = none) (lowest : ∀ lower < port, map.get? ⟨id, lower⟩ ≠ none) :
    firstUnmapped map id node = some ⟨id, port⟩ := by
  rw [firstUnmapped, List.find?_map, Option.map_eq_some_iff]
  refine ⟨port, List.find?_range_eq_some.mpr ⟨?_, List.mem_range.mpr inside, fun lower below => ?_⟩, rfl⟩
  · simp [unmapped]
  · simpa [Option.isSome_iff_ne_none] using lowest lower below

theorem outcome_checkMapped (before : Transformer) :
    outcome (checkMapped ⟨id, node.outputs.map OutputPort.size⟩) before =
      (match firstUnmapped before.portMap id node with
        | some port => .error (.unmappedPort port)
        | none => .ok (), before) := by
  simp only [checkMapped, outcome_bind, outcome_get, List.length_map, firstUnmapped]
  generalize List.find? _ _ = unmapped
  cases unmapped <;> rfl

/-- A visit runs the callback at the node, and then looks for ports that are not mapped. -/
theorem outcome_visit (source : Model) (callback : Node → Pass Bool) (id : NodeId)
    (before : Transformer) :
    outcome (visit source callback id) before =
      match source.entry id with
      | .error error => (.error error, before)
      | .ok entry =>
          match outcome (callback entry.node) (before.enter id entry.node) with
          | (.error error, between) => (.error error, between.leave)
          | (.ok changed, between) =>
              (match firstUnmapped between.portMap id entry.node with
                | some port => .error (.unmappedPort port)
                | none => .ok changed, between.leave) := by
  simp only [visit, outcome_bind, outcome_lift]
  cases source.entry id with
  | error error => rfl
  | ok entry =>
      simp only [outcome_modify, outcome_tryCatch, Transformer.enter]
      rcases outcome (callback entry.node) _ with ⟨error | changed, between⟩
      · simp only [outcome_bind, outcome_modify, outcome_throw, Transformer.leave]
      · simp only [outcome_checkMapped, Transformer.leave]
        cases firstUnmapped between.portMap id entry.node <;> rfl

end Visits

/-! ## Moments -/

/-- Where a pass stands: before the next node, within the callback of a node, or at its end. -/
inductive Stage where
  | between (rest : List NodeId)
  | within (id : NodeId) (node : Node) (script : Script Bool) (rest : List NodeId)
  | over (result : Except ModelError Nat)

/-- A point of a pass: the nodes that were visited, the one that the pass is at included, the number
of refined nodes, the stage, and the transformer. -/
structure Moment where
  visited : List NodeId
  refined : Nat
  stage : Stage
  transformer : Transformer

/-- The first moment of a pass over some nodes. -/
def Moment.start (order : List NodeId) (before : Transformer) : Moment :=
  ⟨[], 0, .between order, before.cleared⟩

section Steps

variable (source : Model) (scripts : Node → Script Bool)

/-- What comes after a moment. -/
inductive Step : Moment → Moment → Prop
  | finish {visited : List NodeId} {refined : Nat} {transformer : Transformer} :
      Step ⟨visited, refined, .between [], transformer⟩
        ⟨visited, refined, .over (.ok refined), transformer⟩
  | miss {visited rest : List NodeId} {refined : Nat} {transformer : Transformer} {id : NodeId}
      {error : ModelError} (missing : source.entry id = .error error) :
      Step ⟨visited, refined, .between (id :: rest), transformer⟩
        ⟨visited, refined, .over (.error error), transformer⟩
  | enter {visited rest : List NodeId} {refined : Nat} {transformer : Transformer} {id : NodeId}
      {entry : Entry} (found : source.entry id = .ok entry) :
      Step ⟨visited, refined, .between (id :: rest), transformer⟩
        ⟨visited ++ [id], refined, .within id entry.node (scripts entry.node) rest,
          transformer.enter id entry.node⟩
  | look {visited rest : List NodeId} {refined : Nat} {transformer : Transformer} {id : NodeId}
      {node : Node} {next : Transformer → Script Bool} :
      Step ⟨visited, refined, .within id node (.look next) rest, transformer⟩
        ⟨visited, refined, .within id node (next transformer) rest, transformer⟩
  | ask {visited rest : List NodeId} {refined : Nat} {transformer : Transformer} {id : NodeId}
      {node : Node} {request : Request} {next : Except ModelError request.Answer → Script Bool} :
      Step ⟨visited, refined, .within id node (.ask request next) rest, transformer⟩
        ⟨visited, refined, .within id node (next (outcome request.perform transformer).1) rest,
          (outcome request.perform transformer).2⟩
  | fail {visited rest : List NodeId} {refined : Nat} {transformer : Transformer} {id : NodeId}
      {node : Node} {error : ModelError} :
      Step ⟨visited, refined, .within id node (.stop (.error error)) rest, transformer⟩
        ⟨visited, refined, .over (.error error), transformer.leave⟩
  | refuse {visited rest : List NodeId} {refined : Nat} {transformer : Transformer} {id : NodeId}
      {node : Node} {changed : Bool} {port : OutputRef}
      (unmapped : firstUnmapped transformer.portMap id node = some port) :
      Step ⟨visited, refined, .within id node (.stop (.ok changed)) rest, transformer⟩
        ⟨visited, refined, .over (.error (.unmappedPort port)), transformer.leave⟩
  | leave {visited rest : List NodeId} {refined : Nat} {transformer : Transformer} {id : NodeId}
      {node : Node} {changed : Bool} (mapped : firstUnmapped transformer.portMap id node = none) :
      Step ⟨visited, refined, .within id node (.stop (.ok changed)) rest, transformer⟩
        ⟨visited, if changed then refined + 1 else refined, .between rest, transformer.leave⟩

/-- What comes after a moment, at once or later. -/
def Steps : Moment → Moment → Prop :=
  Relation.ReflTransGen (Step source scripts)

end Steps

section Course

variable {source : Model} {scripts : Node → Script Bool} {first second third : Moment}

theorem Step.unique (one : Step source scripts first second)
    (other : Step source scripts first third) : second = third := by
  cases one <;> cases other <;> simp_all

theorem Step.not_over {visited : List NodeId} {refined : Nat} {result : Except ModelError Nat}
    {transformer : Transformer} :
    ¬Step source scripts ⟨visited, refined, .over result, transformer⟩ second :=
  nofun

/-- Every moment of a pass comes before its end. -/
theorem Steps.before_over (one : Steps source scripts first second)
    (other : Steps source scripts first third) {result : Except ModelError Nat}
    (ends : third.stage = .over result) : Steps source scripts second third := by
  have unique : Relator.RightUnique (Step source scripts) := fun _ _ _ => Step.unique
  rcases Relation.ReflTransGen.total_of_right_unique unique one other with later | earlier
  · exact later
  · rcases Relation.ReflTransGen.cases_head earlier with rfl | ⟨next, step, _⟩
    · exact .refl
    · obtain ⟨visited, refined, stage, transformer⟩ := third
      subst ends
      exact absurd step Step.not_over

/-- A script is run request by request. -/
theorem steps_run (visited rest : List NodeId) (refined : Nat) (id : NodeId) (node : Node)
    (script : Script Bool) (transformer : Transformer) :
    Steps source scripts ⟨visited, refined, .within id node script rest, transformer⟩
      ⟨visited, refined, .within id node (.stop (outcome script.run transformer).1) rest,
        (outcome script.run transformer).2⟩ := by
  induction script generalizing transformer with
  | stop result =>
      rw [outcome_run_stop]
      exact .refl
  | look next ih =>
      rw [outcome_run_look]
      exact .head .look (ih transformer transformer)
  | ask request next ih =>
      rw [outcome_run_ask]
      exact .head .ask (ih _ _)

/-- A run of a pass is a chain of moments.  The induction is on the nodes that are left. -/
theorem exists_steps_visitAll (source : Model) (scripts : Node → Script Bool)
    (visited rest : List NodeId) (refined : Nat) (before : Transformer) :
    ∃ all count, Steps source scripts ⟨visited, refined, .between rest, before⟩
      ⟨all, count,
        .over (outcome (visitAll source (fun node => (scripts node).run) rest refined) before).1,
        (outcome (visitAll source (fun node => (scripts node).run) rest refined) before).2⟩ := by
  induction rest generalizing visited refined before with
  | nil => exact ⟨visited, refined, .single .finish⟩
  | cons id rest ih =>
      simp only [visitAll, outcome_bind, outcome_visit]
      cases found : source.entry id with
      | error error => exact ⟨visited, refined, .single (.miss found)⟩
      | ok entry =>
          have entered : Steps source scripts ⟨visited, refined, .between (id :: rest), before⟩ _ :=
            .head (.enter found) (steps_run (visited ++ [id]) rest refined id entry.node
              (scripts entry.node) (before.enter id entry.node))
          dsimp only
          generalize outcome (scripts entry.node).run (before.enter id entry.node) = ending at entered ⊢
          rcases ending with ⟨error | changed, between⟩
          · exact ⟨_, _, entered.tail .fail⟩
          · dsimp only
            cases mapped : firstUnmapped between.portMap id entry.node with
            | some port => exact ⟨_, _, entered.tail (.refuse mapped)⟩
            | none =>
                obtain ⟨all, count, others⟩ := ih (visited ++ [id])
                  (if changed then refined + 1 else refined) between.leave
                exact ⟨all, count, (entered.tail (.leave mapped)).trans others⟩

end Course

/-! ## Passes -/

section Passes

/-- What a pass returns when its last moment has a result. -/
def conclusion : Except ModelError Nat → Transformer → Except ModelError (Model × Nat) × Transformer
  | .error error, last => (.error error, last)
  | .ok refined, last => (.ok (last.target, refined), { last with target := .empty })

/-- A pass goes through moments to its end, and returns what its last moment has. -/
theorem exists_steps_transformNodes (source : Model) (scripts : Node → Script Bool)
    (order : List NodeId) (before : Transformer) :
    ∃ visited refined result last,
      Steps source scripts (.start order before) ⟨visited, refined, .over result, last⟩ ∧
        outcome (transformNodes source order fun node => (scripts node).run) before =
          conclusion result last := by
  obtain ⟨visited, refined, steps⟩ := exists_steps_visitAll source scripts [] order 0 before.cleared
  refine ⟨visited, refined, _, _, steps, ?_⟩
  simp only [transformNodes, outcome_bind, outcome_modify, outcome_get, outcome_pure]
  change _ = conclusion (outcome _ { before with target := .empty, portMap := .empty }).1
    (outcome _ { before with target := .empty, portMap := .empty }).2
  rcases outcome (visitAll source (fun node => (scripts node).run) order 0)
    { before with target := .empty, portMap := .empty } with ⟨error | count, last⟩ <;> rfl

end Passes

end Pass

end Dataflow
