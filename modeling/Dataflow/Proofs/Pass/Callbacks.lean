import Dataflow.Pass.Refinement
import Dataflow.Proofs.Pass.Replacing

/-!
# Callbacks as scripts

A callback works on the transformer through a few requests: it adds nodes, translates elements, maps
output ports and reports something.  What it asks next may depend on every answer, failures
included, and on everything it can see of the transformer.  A script writes such a callback out, so
that the points between its requests can be spoken of.  Copying a node is no request of its own: it
is a script, and it can stop half-way.
-/

namespace Dataflow

namespace Pass

/-! ## Requests -/

/-- What a callback asks of the transformer. -/
inductive Request where
  | add (node : Node)
  | translate (elements : Elements)
  | map (port : Nat) (elements : Elements)
  | note (notice : Notice)

/-- What a request is answered with, if it does not fail. -/
def Request.Answer : Request → Type
  | .add _ => NodeId
  | .translate _ => Elements
  | .map .. | .note _ => Unit

def Request.perform : (request : Request) → Pass request.Answer
  | .add node => addNode node
  | .translate elements => Pass.translate elements
  | .map port elements => mapOutput port elements
  | .note notice => Pass.note notice

/-- What a request does to a transformer: nothing, also when it fails, or one of three changes. -/
inductive Request.Changes (before : Transformer) : Request → Transformer → Prop
  | stays (request : Request) : Changes before request before
  | notes (notice : Notice) (notices : Array Notice) :
      Changes before (.note notice) { before with notices }
  | adds {node : Node} {id : NodeId} {target : Model}
      (added : before.target.add node = .ok (id, target)) :
      Changes before (.add node) { before with target }
  | maps {port : Nat} {elements : Elements} {current : CurrentNode}
      (isCurrent : before.current = some current)
      (sized : current.outputSizes[port]? = some elements.length)
      (fresh : before.portMap.get? ⟨current.id, port⟩ = none) :
      Changes before (.map port elements)
        { before with portMap := ⟨before.portMap.entries ++ [(⟨current.id, port⟩, elements)]⟩ }

theorem changes_add (node : Node) (before : Transformer) :
    Request.Changes before (.add node) (outcome (addNode node) before).2 := by
  simp only [addNode, outcome_bind, outcome_get, outcome_lift]
  cases added : before.target.add node with
  | error error => exact .stays _
  | ok result => exact .adds added

theorem changes_map (port : Nat) (elements : Elements) (before : Transformer) :
    Request.Changes before (.map port elements) (outcome (mapOutput port elements) before).2 := by
  cases isCurrent : before.current with
  | none =>
      simp only [mapOutput, currentNode, outcome_bind, outcome_get, isCurrent, outcome_throw]
      exact .stays _
  | some current =>
      have getsCurrent : outcome currentNode before = (.ok current, before) := by
        simp only [currentNode, outcome_bind, outcome_get, isCurrent, outcome_pure]
      simp only [mapOutput, outcome_bind, getsCurrent]
      cases sized : current.outputSizes[port]? with
      | none => exact .stays _
      | some size =>
          by_cases length : elements.length = size
          · subst length
            simp only [ne_eq, not_true_eq_false, if_false, outcome_bind, outcome_get, outcome_lift]
            cases inserted : before.portMap.insert ⟨current.id, port⟩ elements with
            | error error => exact .stays _
            | ok portMap =>
                obtain ⟨fresh, rfl⟩ := PortMap.insert_eq_ok_iff.mp inserted
                exact .maps isCurrent sized fresh
          · simp only [ne_eq, length, not_false_eq_true, if_true, outcome_bind, outcome_throw]
            exact .stays _

theorem changes_perform (request : Request) (before : Transformer) :
    request.Changes before (outcome request.perform before).2 := by
  cases request with
  | add node => exact changes_add node before
  | translate elements =>
      change Request.Changes before _ (outcome (Pass.translate elements) before).2
      rw [outcome_translate]
      exact .stays _
  | map port elements => exact changes_map port elements before
  | note notice => exact .notes notice _

/-! ## Scripts -/

/-- The steps of a callback: it stops with a result, looks at the transformer, or makes a request and
goes on with the answer or the failure. -/
inductive Script (α : Type) where
  | stop (result : Except ModelError α)
  | look (next : Transformer → Script α)
  | ask (request : Request) (next : Except ModelError request.Answer → Script α)

/-- The outcome of an action, as a result that does not fail. -/
def attempt {α : Type} (action : Pass α) : Pass (Except ModelError α) :=
  tryCatch (Except.ok <$> action) (pure ∘ .error)

namespace Script

variable {α β : Type}

def run : Script α → Pass α
  | stop result => lift result
  | look next => do (next (← get)).run
  | ask request next => do (next (← attempt request.perform)).run

/-- One script after another.  The second one is told whether the first one failed. -/
def andThen : Script α → (Except ModelError α → Script β) → Script β
  | stop result, next => next result
  | look more, next => look fun transformer => (more transformer).andThen next
  | ask request more, next => ask request fun answer => (more answer).andThen next

/-- One script after another, unless the first one fails. -/
def bind (script : Script α) (next : α → Script β) : Script β :=
  script.andThen fun
    | .ok value => next value
    | .error error => stop (.error error)

/-- A script does the same as an action. -/
def Performs (script : Script α) (action : Pass α) : Prop :=
  ∀ before, outcome script.run before = outcome action before

/-! A copy is made of requests. -/

def translateAll : List Elements → Script (List Elements)
  | [] => stop (.ok [])
  | first :: rest =>
      (ask (.translate first) stop : Script Elements).bind fun images =>
        (translateAll rest).bind fun others => stop (.ok (images :: others))

def mapAll (target : NodeId) : (port : Nat) → (sizes : List Nat) → Script Unit
  | _, [] => stop (.ok ())
  | port, size :: sizes =>
      (ask (.map port ((⟨target, port⟩ : OutputRef).elements size)) stop : Script Unit).bind fun _ =>
        mapAll target (port + 1) sizes

def copy (node : Node) : Script NodeId :=
  (translateAll node.wiring).bind fun wiring =>
    (ask (.add { node with wiring }) stop : Script NodeId).bind fun id =>
      (mapAll id 0 (node.outputs.map OutputPort.size)).bind fun _ => stop (.ok id)

end Script

section Running

variable {α β : Type}

theorem outcome_attempt (action : Pass α) (before : Transformer) :
    outcome (attempt action) before =
      (.ok (outcome action before).1, (outcome action before).2) := by
  rw [attempt, outcome_tryCatch, outcome_map]
  rcases outcome action before with ⟨_ | _, _⟩ <;> rfl

@[simp]
theorem outcome_run_stop (result : Except ModelError α) (before : Transformer) :
    outcome (Script.stop result).run before = (result, before) :=
  outcome_lift result before

@[simp]
theorem outcome_run_look (next : Transformer → Script α) (before : Transformer) :
    outcome (Script.look next).run before = outcome (next before).run before := by
  simp only [Script.run, outcome_bind, outcome_get]

@[simp]
theorem outcome_run_ask (request : Request) (next : Except ModelError request.Answer → Script α)
    (before : Transformer) :
    outcome (Script.ask request next).run before =
      outcome (next (outcome request.perform before).1).run (outcome request.perform before).2 := by
  simp only [Script.run, outcome_bind, outcome_attempt]

theorem outcome_run_andThen (script : Script α) (next : Except ModelError α → Script β)
    (before : Transformer) :
    outcome (script.andThen next).run before =
      outcome (next (outcome script.run before).1).run (outcome script.run before).2 := by
  induction script generalizing before with
  | stop result => simp only [Script.andThen, outcome_run_stop]
  | look more ih => simp only [Script.andThen, outcome_run_look, ih]
  | ask request more ih => simp only [Script.andThen, outcome_run_ask, ih]

end Running

/-! ## Actions that scripts describe -/

namespace Script

variable {α β : Type} {script : Script α} {action : Pass α}

theorem performs_stop (result : Except ModelError α) : (stop result).Performs (lift result) :=
  fun _ => rfl

theorem performs_ask (request : Request) : (ask request stop).Performs request.perform :=
  fun before => by rw [outcome_run_ask, outcome_run_stop]

theorem Performs.bind {scripts : α → Script β} {next : α → Pass β} (first : script.Performs action)
    (second : ∀ value, (scripts value).Performs (next value)) :
    (script.bind scripts).Performs (action >>= next) := by
  intro before
  rw [Script.bind, outcome_run_andThen, first before, outcome_bind]
  rcases outcome action before with ⟨error | value, between⟩
  · exact outcome_run_stop _ _
  · exact second value between

theorem performs_translateAll (lists : List Elements) :
    (translateAll lists).Performs (lists.mapM Pass.translate) := by
  induction lists with
  | nil => exact performs_stop (.ok [])
  | cons first rest ih =>
      rw [List.mapM_cons]
      exact (performs_ask (.translate first)).bind fun _ => ih.bind fun _ => performs_stop (.ok _)

theorem performs_mapAll (target : NodeId) (port : Nat) (sizes : List Nat) :
    (mapAll target port sizes).Performs (mapOutputs target port sizes) := by
  induction sizes generalizing port with
  | nil => exact performs_stop (.ok ())
  | cons size rest ih => exact (performs_ask (.map port _)).bind fun _ => ih (port + 1)

theorem performs_copy (node : Node) : (copy node).Performs (copyNode node) :=
  (performs_translateAll node.wiring).bind fun _ => (performs_ask (.add _)).bind fun _ =>
    (performs_mapAll _ _ _).bind fun _ => performs_stop (.ok _)

end Script

section Scripted

variable {α β : Type} {action : Pass α}

/-- Some script does the same as an action. -/
def Scripted (action : Pass α) : Prop :=
  ∃ script : Script α, script.Performs action

/-- A callback whose actions are scripted is the run of scripts. -/
theorem exists_scripts {callback : Node → Pass α} (scripted : ∀ node, Scripted (callback node)) :
    ∃ scripts : Node → Script α, callback = fun node => (scripts node).run := by
  choose scripts same using scripted
  exact ⟨scripts, funext fun node => funext fun before => (same node before).symm⟩

theorem scripted_lift (result : Except ModelError α) : Scripted (lift result) :=
  ⟨.stop result, Script.performs_stop result⟩

theorem scripted_pure (value : α) : Scripted (pure value : Pass α) :=
  scripted_lift (.ok value)

theorem scripted_throw (error : ModelError) : Scripted (throw error : Pass α) :=
  scripted_lift (.error error)

theorem scripted_get : Scripted (get : Pass Transformer) :=
  ⟨.look fun transformer => .stop (.ok transformer), fun _ => by simp⟩

theorem scripted_perform (request : Request) : Scripted request.perform :=
  ⟨.ask request .stop, Script.performs_ask request⟩

theorem Scripted.bind {next : α → Pass β} (first : Scripted action)
    (second : ∀ value, Scripted (next value)) : Scripted (action >>= next) := by
  obtain ⟨script, performs⟩ := first
  choose scripts continues using second
  exact ⟨script.bind scripts, performs.bind continues⟩

theorem Scripted.tryCatch {handler : ModelError → Pass α} (first : Scripted action)
    (handles : ∀ error, Scripted (handler error)) : Scripted (tryCatch action handler) := by
  obtain ⟨script, performs⟩ := first
  choose scripts continues using handles
  refine ⟨script.andThen fun
    | .ok value => .stop (.ok value)
    | .error error => scripts error, fun before => ?_⟩
  rw [outcome_run_andThen, performs before, outcome_tryCatch]
  rcases outcome action before with ⟨error | value, between⟩
  · exact continues error between
  · exact outcome_run_stop _ _

end Scripted

/-! ## The callbacks of the program -/

section Callbacks

theorem scripted_addNode (node : Node) : Scripted (addNode node) :=
  scripted_perform (.add node)

theorem scripted_translate (elements : Elements) : Scripted (Pass.translate elements) :=
  scripted_perform (.translate elements)

theorem scripted_mapOutput (port : Nat) (elements : Elements) : Scripted (mapOutput port elements) :=
  scripted_perform (.map port elements)

theorem scripted_currentNode : Scripted currentNode :=
  scripted_get.bind fun transformer => by
    cases transformer.current with
    | none => exact scripted_throw _
    | some current => exact scripted_pure current

theorem scripted_copyNode (node : Node) : Scripted (copyNode node) :=
  ⟨.copy node, Script.performs_copy node⟩

theorem scripted_copying (node : Node) : Scripted (copying node) :=
  (scripted_copyNode node).bind fun _ => scripted_pure false

theorem scripted_recipeScope (node : Node) (labels : List (String × NodeId)) :
    Scripted (recipeScope node labels) :=
  scripted_get.bind fun _ => scripted_pure _

theorem scripted_lookAround (node : Node) : Scripted (lookAround node) :=
  scripted_currentNode.bind fun _ => scripted_get.bind fun _ => scripted_perform (.note _)

theorem scripted_runSteps (node : Node) (steps : List RecipeStep) (labels : List (String × NodeId)) :
    Scripted (runSteps node steps labels) := by
  induction steps generalizing labels with
  | nil => exact scripted_pure ()
  | cons step rest ih =>
      cases step with
      | copy label => exact (scripted_copyNode node).bind fun _ => ih _
      | add plan label =>
          exact (scripted_recipeScope node labels).bind fun _ => (scripted_lift _).bind fun _ =>
            (scripted_addNode _).bind fun _ => ih _
      | map port elements =>
          exact (scripted_recipeScope node labels).bind fun _ => (scripted_lift _).bind fun _ =>
            (scripted_mapOutput _ _).bind fun _ => ih _
      | look => exact (scripted_lookAround node).bind fun _ => ih _

theorem scripted_recipe (recipe : Recipe) (node : Node) : Scripted (recipe.run node) :=
  (scripted_runSteps node recipe.steps []).bind fun _ => scripted_pure _

theorem scripted_byRules (rules : List (String × Recipe)) (node : Node) :
    Scripted (byRules rules node) := by
  unfold byRules
  split
  · exact scripted_recipe _ node
  · exact scripted_copying node

theorem scripted_refineWithConstant (type : RealType) (values : Array type.Carrier) (input : Elements)
    (combine : Elements → Elements → Except NodeError Node) :
    Scripted (refineWithConstant type values input combine) :=
  (scripted_translate input).bind fun _ => (scripted_addNode _).bind fun _ =>
    (scripted_lift _).bind fun _ => (scripted_addNode _).bind fun _ =>
      (scripted_mapOutput _ _).bind fun _ => scripted_pure true

theorem scripted_refine (node : Node) : Scripted node.refine := by
  unfold Node.refine
  split
  · exact scripted_refineWithConstant _ _ _ _
  · exact scripted_refineWithConstant _ _ _ _
  · split
    · exact scripted_recipe _ node
    · exact scripted_pure false
  · exact scripted_pure false

theorem scripted_refining (node : Node) : Scripted (refining node) :=
  scripted_get.bind fun transformer => by
    split
    · exact (scripted_refine node).bind fun changed => by
        split
        · exact scripted_pure true
        · exact scripted_copying node
    · exact scripted_copying node

end Callbacks

end Pass

end Dataflow
