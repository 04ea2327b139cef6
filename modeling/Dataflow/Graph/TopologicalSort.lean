/-!
# Topological sorting

The sort lists everything that is reachable from some roots, dependencies first.
It walks depth first: a node goes on the list when all of its dependencies are on
it.  Meeting a node of the current path again is a cycle.

Dependencies are followed for the nodes of a given list.  Each step into a
dependency takes the node off that list, which bounds the depth of the walk.
-/

namespace Dataflow

variable {α : Type} [DecidableEq α]

/-- Lists `nodes` and all they depend on after those that are `sorted` already.
`path` leads from a root to the nodes, innermost first, and `remaining` holds the
nodes with dependencies that are not on it.  Fails with a cycle, whose first node
is repeated at its end. -/
def sortFrom (dependencies : α → List α) (remaining path : List α) :
    (nodes : List α) → (sorted : List α) → Except (List α) (List α)
  | [], sorted => .ok sorted
  | node :: rest, sorted =>
      if node ∈ path then
        .error (node :: (path.takeWhile (· ≠ node)).reverse ++ [node])
      else if node ∈ sorted then
        sortFrom dependencies remaining path rest sorted
      else if _known : node ∈ remaining then
        match sortFrom dependencies (remaining.erase node) (node :: path)
            (dependencies node) sorted with
        | .error cycle => .error cycle
        | .ok sorted => sortFrom dependencies remaining path rest (sorted ++ [node])
      else
        sortFrom dependencies remaining path rest (sorted ++ [node])
termination_by nodes => (remaining.length, nodes.length)
decreasing_by
  · simp_wf; exact Prod.Lex.right _ (by simp)
  · simp_wf
    have shorter := List.length_erase_of_mem _known
    have positive := List.length_pos_of_mem _known
    exact Prod.Lex.left _ _ (by omega)
  · simp_wf; exact Prod.Lex.right _ (by simp)
  · simp_wf; exact Prod.Lex.right _ (by simp)

/-- Everything that is reachable from the roots, dependencies first.  `nodes` lists
what has dependencies. -/
def topologicalSort (nodes : List α) (dependencies : α → List α) (roots : List α) :
    Except (List α) (List α) :=
  sortFrom dependencies nodes [] roots []

/-- The text of a cycle. -/
def cycleMessage [ToString α] (cycle : List α) : String :=
  "Cycle detected: " ++ " -> ".intercalate (cycle.map toString)

end Dataflow
