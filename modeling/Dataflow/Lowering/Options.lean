import Dataflow.Graph.Port

/-!
# Compiler options

The options decide which nodes become subroutines and which of the work per
element is written out instead of looped over.
-/

namespace Dataflow

/-- Whether nodes stand inside their caller's code. -/
inductive InlinePolicy
  /-- As the node wishes; a node that prefers it, up to a size. -/
  | auto
  | always
  | never
  deriving DecidableEq, Repr, Inhabited

/-- How work per element is laid out. -/
inductive Strategy
  | loop
  | expanded
  deriving DecidableEq, Repr, Inhabited

/-- Options of a compilation. -/
structure CompilerOptions where
  /-- The name of the entry routine. -/
  functionName : String := "predict"
  inline : InlinePolicy := .auto
  /-- The largest output of a node that is inlined because it prefers to be. -/
  inlineSizeThreshold : Nat := 64
  /-- The largest size that is written out. -/
  unrollThreshold : Nat := 8
  /-- Whether everything is written out. -/
  unrollLoops : Bool := false
  deriving DecidableEq, Repr, Inhabited

namespace InlinePolicy

def name : InlinePolicy → String
  | auto => "auto"
  | always => "always"
  | never => "never"

def ofName? : String → Option InlinePolicy
  | "auto" => some auto
  | "always" => some always
  | "never" => some never
  | _ => none

end InlinePolicy

namespace Strategy

def name : Strategy → String
  | loop => "loop"
  | expanded => "expanded"

def ofName? : String → Option Strategy
  | "loop" => some loop
  | "expanded" => some expanded
  | _ => none

end Strategy

namespace CompilerOptions

/-- The strategy for a number of elements. -/
def strategyFor (options : CompilerOptions) (size : Nat) : Strategy :=
  if options.unrollLoops ∨ size ≤ options.unrollThreshold then .expanded else .loop

/-- Whether a node with the given wish and output size is inlined. -/
def shouldInline (options : CompilerOptions) (hint : InlineHint) (outputSize : Nat) : Bool :=
  match hint, options.inline with
  | .required, _ => true
  | .never, _ => false
  | .preferred, .always => true
  | .preferred, .never => false
  | .preferred, .auto => outputSize ≤ options.inlineSizeThreshold

end CompilerOptions

end Dataflow
