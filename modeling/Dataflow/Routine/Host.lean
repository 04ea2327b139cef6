import Dataflow.Routine.Error

/-!
# The host

Code that runs can call functions of its host.  What such a function does is not
modelled: it is known by the calls that reach it and by whether it panics.
-/

namespace Dataflow

/-- An argument that reaches a function of the host. -/
inductive HostValue
  | scalar (value : Scalar)
  | array (values : Buffer)
  deriving DecidableEq, Repr

/-- A call that reached a function of the host. -/
structure HostCall where
  label : String
  arguments : List HostValue
  deriving DecidableEq, Repr

/-- A function of the host, with the label under which its calls are recorded and
whether it panics. -/
structure HostFunction where
  label : String
  panics : Bool
  deriving DecidableEq, Repr

/-- The functions that the host offers, by name. -/
structure Host where
  functions : List (String × HostFunction)
  deriving DecidableEq, Repr

namespace Host

/-- A host that offers nothing. -/
def empty : Host :=
  ⟨[]⟩

/-- Offers a function.  It replaces one of the same name. -/
def register (host : Host) (name : String) (function : HostFunction) : Host :=
  ⟨host.functions.filter (·.1 ≠ name) ++ [(name, function)]⟩

/-- The function with a name. -/
def function? (host : Host) (name : String) : Option HostFunction :=
  (host.functions.find? (·.1 = name)).map (·.2)

end Host

/-- What a run left behind: its result and the calls that reached the host. -/
structure RunOutcome where
  result : Except RunError (List Buffer)
  calls : List HostCall

end Dataflow
