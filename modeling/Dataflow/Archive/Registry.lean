import Dataflow.Archive.Error
import Dataflow.Graph.Kind

/-!
# Registries

A registry knows for every kind of node which version is written and which
versions can be read.
-/

namespace Dataflow

/-- The versions of a kind of node: the one that is written and those that can be
read. -/
structure Registration where
  current : Version
  accepted : List Version
  deriving DecidableEq, Repr, Inhabited

/-- A registration that accepts the current version too. -/
def Registration.of (current : Version) (accepted : List Version) : Registration :=
  ⟨current, if current ∈ accepted then accepted else accepted ++ [current]⟩

/-- The registered kinds of nodes. -/
structure Registry where
  registrations : List (NodeKind × Registration)
  deriving DecidableEq, Repr, Inhabited

namespace Registry

/-- A registry that knows nothing. -/
def empty : Registry :=
  ⟨[]⟩

/-- The registration of a kind. -/
def registration? (registry : Registry) (kind : NodeKind) : Option Registration :=
  registry.registrations.lookup kind

/-- Registers a kind, in place of an earlier registration. -/
def register (registry : Registry) (kind : NodeKind) (registration : Registration) : Registry :=
  ⟨(kind, registration) :: registry.registrations⟩

/-- The versions of a standard kind.  The first version of constants had no
shape. -/
def standardRegistration : NodeKind → Registration
  | .constant _ => .of ⟨2⟩ [⟨1⟩]
  | _ => .of ⟨1⟩ []

/-- The registry of all standard kinds. -/
def standard : Registry :=
  ⟨NodeKind.all.map fun kind => (kind, standardRegistration kind)⟩

/-- The kind with a type tag and its registration. -/
def find? (registry : Registry) (typeTag : String) : Option (NodeKind × Registration) := do
  let kind ← NodeKind.ofTag? typeTag
  return (kind, ← registry.registration? kind)

/-- Whether a type tag is registered. -/
def contains (registry : Registry) (typeTag : String) : Bool :=
  (registry.find? typeTag).isSome

/-- The version that is written for a type tag. -/
def currentVersion (registry : Registry) (typeTag : String) : Except ArchiveError Version :=
  match registry.find? typeTag with
  | some (_, registration) => .ok registration.current
  | none => .error (.unknownType typeTag)

/-- Changes the version that is written for a type tag to one that can be read
back. -/
def setCurrentVersion? (registry : Registry) (typeTag : String) (version : Version) :
    Option Registry := do
  let (kind, registration) ← registry.find? typeTag
  if version ∈ registration.accepted then
    some (registry.register kind { registration with current := version })
  else
    none

/-- The version of model records. -/
def modelVersion : Version :=
  ⟨1⟩

/-- Whether model records of a version can be read. -/
def acceptsModelVersion (version : Version) : Bool :=
  version = modelVersion

end Registry

end Dataflow
