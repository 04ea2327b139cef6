import Dataflow.Pass.Transformer

/-!
# Refinement

Refinement replaces nodes without code by nodes with code.  A pass asks every node
that does not count as compilable to describe itself by other nodes and copies all
others; passes are repeated until one of them refines nothing or a limit is
reached.
-/

namespace Dataflow

open Pass

/-! ## Recipes -/

/-- What the selections of a recipe can refer to. -/
structure SelectionScope where
  input : Nat → Except ModelError Elements
  added : String → Option NodeId
  translate : Elements → Except ModelError Elements

/-- The scope outside of a pass. -/
def SelectionScope.outside : SelectionScope where
  input _ := .error .noCurrentNode
  added _ := none
  translate _ := .error .noCurrentNode

mutual

/-- The elements that a selection stands for. -/
def Selection.resolve (scope : SelectionScope) : Selection → Except ModelError Elements
  | .coordinates elements => .ok elements
  | .concat parts => Selection.resolveAll scope parts
  | .via map part => do map.translate (← part.resolve scope)
  | .input port => scope.input port
  | .added label port size =>
      match scope.added label with
      | some node => .ok ((⟨node, port⟩ : OutputRef).elements size)
      | none => .error (.construction (.unknownVariant "label" label))
  | .translated part => do scope.translate (← part.resolve scope)

/-- The elements that several selections stand for, one after the other. -/
def Selection.resolveAll (scope : SelectionScope) :
    List Selection → Except ModelError Elements
  | [] => .ok []
  | part :: rest => do
      let elements ← part.resolve scope
      return elements ++ (← Selection.resolveAll scope rest)

end

/-- The scope of a recipe for a node. -/
def recipeScope (node : Node) (labels : List (String × NodeId)) : Pass SelectionScope := do
  let map := (← get).portMap
  pure {
    input := fun port =>
      match node.wiring[port]? with
      | some elements => map.translate elements
      | none => .error (.construction (.portIndex port))
    added := fun label => labels.lookup label
    translate := map.translate }

/-- The state of the pass, as a recipe reports it. -/
def lookAround (node : Node) : Pass Unit := do
  let current ← currentNode
  let transformer ← get
  note (.pass current.id transformer.target.size transformer.portMap.size
    (transformer.portMap.size = 0) (transformer.compilable node))

/-- Takes the steps of a recipe for a node, with the labels so far. -/
def runSteps (node : Node) : List RecipeStep → List (String × NodeId) → Pass Unit
  | [], _ => pure ()
  | .copy label :: rest, labels => do
      let id ← copyNode node
      runSteps node rest ((label, id) :: labels)
  | .add plan label :: rest, labels => do
      let scope ← recipeScope node labels
      let id ← addNode (← lift (plan.build (·.resolve scope)))
      runSteps node rest ((label, id) :: labels)
  | .map port elements :: rest, labels => do
      let scope ← recipeScope node labels
      mapOutput port (← lift (elements.resolve scope))
      runSteps node rest labels
  | .look :: rest, labels => do
      lookAround node
      runSteps node rest labels

/-- Replaces a node by a recipe and returns whether that counts as refined. -/
def Recipe.run (recipe : Recipe) (node : Node) : Pass Bool := do
  runSteps node recipe.steps []
  pure recipe.refined

/-- A callback that replaces nodes by recipes for their type names.  The name `*`
stands for all others, and a node without a recipe is copied. -/
def byRules (rules : List (String × Recipe)) (node : Node) : Pass Bool :=
  match rules.lookup node.typeName <|> rules.lookup "*" with
  | some recipe => recipe.run node
  | none => copying node

/-! ## Refining nodes -/

/-- Refines a node that combines its input with fixed values: a constant with these
values, and arithmetic on the constant and the input. -/
def refineWithConstant (type : RealType) (values : Array type.Carrier) (input : Elements)
    (combine : (constant input : Elements) → Except NodeError Node) : Pass Bool := do
  let translated ← translate input
  let constant ← addNode (.constant (.ofReals type values))
  let result ← lift (built (combine ((⟨constant, 0⟩ : OutputRef).elements values.size) translated))
  let combined ← addNode result
  mapOutput 0 ((⟨combined, 0⟩ : OutputRef).elements values.size)
  pure true

/-- Replaces a node by others, if it knows how.  Returns whether it was replaced. -/
def Node.refine (node : Node) : Pass Bool :=
  match node.operator, node.wiring with
  | .coordinatewise type op values, [input] =>
      refineWithConstant type values input fun constant input =>
        Node.arithmetic type op.binaryOp constant input
  | .hamming type size, [input] =>
      refineWithConstant type (hammingWindow type size) input fun constant input =>
        Node.arithmetic type .multiply input constant
  | .custom operator, _ =>
      match operator.behaviour.refinement with
      | some recipe => recipe.run node
      | none => pure false
  | _, _ => pure false

/-- The callback of a refinement pass. -/
def refining (node : Node) : Pass Bool := do
  if !(← get).compilable node then
    if ← node.refine then
      return true
  copying node

/-! ## The driver -/

/-- Limits of a refinement. -/
structure RefineOptions where
  maxIterations : Nat := 10
  deriving DecidableEq, Repr, Inhabited

/-- The outcome of a refinement: the new model, the number of passes, whether
refinement is complete, and where the ports of the source are now. -/
structure Refined where
  model : Model
  iterations : Nat
  converged : Bool
  portMap : PortMap

/-- Whether every node of a model counts as compilable. -/
def fullyCompilable (model : Model) : Pass Bool := do
  let transformer ← get
  pure (model.entries.all fun entry => transformer.compilable entry.node)

/-- Runs a refinement pass. -/
def refinePass (source : Model) : Pass (Model × Nat) :=
  transformModel source refining

/-- Runs passes until one refines nothing, at most `limit` of them.  `total` maps the
ports of the first source to those of `model`. -/
def refineMore : (limit : Nat) → (model : Model) → (total : PortMap) → (iterations : Nat) →
    Pass Refined
  | 0, model, total, iterations => return ⟨model, iterations, false, total⟩
  | limit + 1, model, total, iterations => do
      let (next, refined) ← refinePass model
      let total ← lift (total.compose (← get).portMap)
      if refined = 0 then
        return ⟨next, iterations + 1, true, total⟩
      refineMore limit next total (iterations + 1)

/-- Refines a model.  A limit of zero only copies it.  The last pass may have
replaced the last node, so a model of compilable nodes is complete also when the
limit was reached. -/
def refineModel (source : Model) (options : RefineOptions) : Pass Refined := do
  match options.maxIterations with
  | 0 =>
      let model ← copyModel source
      return ⟨model, 0, ← fullyCompilable model, (← get).portMap⟩
  | limit + 1 =>
      let (model, refined) ← refinePass source
      let total := (← get).portMap
      let last ←
        if refined = 0 then pure ⟨model, 1, true, total⟩
        else refineMore limit model total 1
      let converged ← if last.converged then pure true else fullyCompilable last.model
      modify fun transformer => { transformer with portMap := last.portMap }
      return { last with converged }

end Dataflow
