import Dataflow.Proofs.Lowering.Subroutines

/-!
# What coordinates resolve to

A scope is reached by bindings, one after another: a port gets an array, or it is an alias of elements
that are bound already, and these may belong to aliases themselves.  The bindings lead from a coordinate
to its source, the element of an array for which it stands in the end.  The scope keeps no such chains:
it flattens an alias when it binds it.  So a look-up has to find the place of the source in one step, and
elements are covered by a window exactly when their sources follow one another in one array, whatever
ports they belong to.
-/

namespace Dataflow

namespace Scope

/-! ## Histories of bindings -/

/-- A port is bound to an array, or to elements of ports that are bound already. -/
inductive Binding
  | array (port : OutputRef) (window : ArrayRef)
  | aliasOf (port : OutputRef) (elements : Elements)
  deriving DecidableEq, Repr

/-- The port that is bound. -/
def Binding.port : Binding → OutputRef
  | array port _ => port
  | aliasOf port _ => port

/-- Binds a port in a scope. -/
def Binding.perform (scope : Scope) : Binding → Except CompileError Scope
  | array port window => .ok (scope.bindArray port window)
  | aliasOf port elements => scope.bindAlias port elements

/-- The scope that some bindings lead to, the last one of them first. -/
def after : List Binding → Except CompileError Scope
  | [] => .ok .empty
  | binding :: earlier => do
      let scope ← after earlier
      binding.perform scope

/-- Some bindings, the last one of them first, lead from a coordinate to an element of a port with an
array.  What an alias stands for is decided by the bindings before it. -/
inductive Resolves : List Binding → Coordinate → Coordinate → ArrayRef → Prop
  | own {earlier : List Binding} {coordinate : Coordinate} {window : ArrayRef}
      (inside : coordinate.element < window.length) :
      Resolves (.array coordinate.output window :: earlier) coordinate coordinate window
  | through {earlier : List Binding} {coordinate next source : Coordinate} {elements : Elements}
      {window : ArrayRef} (stands : elements[coordinate.element]? = some next)
      (resolves : Resolves earlier next source window) :
      Resolves (.aliasOf coordinate.output elements :: earlier) coordinate source window
  | older {binding : Binding} {earlier : List Binding} {coordinate source : Coordinate}
      {window : ArrayRef} (other : coordinate.output ≠ binding.port)
      (resolves : Resolves earlier coordinate source window) :
      Resolves (binding :: earlier) coordinate source window

section Resolving

variable {history earlier : List Binding} {scope : Scope} {coordinate source : Coordinate}
  {window : ArrayRef}

/-- A source is an element of the array to which its port was bound. -/
theorem Resolves.source_bound (resolves : Resolves history coordinate source window) :
    Binding.array source.output window ∈ history ∧ source.element < window.length := by
  induction resolves with
  | own inside => exact ⟨List.mem_cons_self, inside⟩
  | through _ _ ih => exact ⟨List.mem_cons_of_mem _ ih.1, ih.2⟩
  | older _ _ ih => exact ⟨List.mem_cons_of_mem _ ih.1, ih.2⟩

/-- The last binding of a port decides about its elements. -/
theorem resolves_array_iff {port : OutputRef} {own : ArrayRef} (here : coordinate.output = port) :
    Resolves (.array port own :: earlier) coordinate source window ↔
      coordinate.element < own.length ∧ source = coordinate ∧ window = own := by
  constructor
  · intro resolves
    cases resolves with
    | own inside => exact ⟨inside, rfl, rfl⟩
    | older other _ => exact absurd here other
  · rintro ⟨inside, rfl, rfl⟩
    subst here
    exact .own inside

theorem resolves_alias_iff {port : OutputRef} {elements : Elements}
    (here : coordinate.output = port) :
    Resolves (.aliasOf port elements :: earlier) coordinate source window ↔
      ∃ next, elements[coordinate.element]? = some next ∧ Resolves earlier next source window := by
  constructor
  · intro resolves
    cases resolves with
    | through stands resolves => exact ⟨_, stands, resolves⟩
    | older other _ => exact absurd here other
  · rintro ⟨next, stands, resolves⟩
    subst here
    exact .through stands resolves

theorem resolves_older_iff {binding : Binding} (other : coordinate.output ≠ binding.port) :
    Resolves (binding :: earlier) coordinate source window ↔
      Resolves earlier coordinate source window := by
  constructor
  · intro resolves
    cases resolves with
    | own inside => exact absurd rfl other
    | through stands resolves => exact absurd rfl other
    | older _ resolves => exact resolves
  · exact .older other

/-- A coordinate has at most one source. -/
theorem Resolves.unique (resolves : Resolves history coordinate source window) {other : Coordinate}
    {its : ArrayRef} (also : Resolves history coordinate other its) : other = source ∧ its = window := by
  induction resolves with
  | own inside =>
      obtain ⟨_, same, sameWindow⟩ := (resolves_array_iff rfl).mp also
      exact ⟨same, sameWindow⟩
  | through stands _ ih =>
      obtain ⟨next, sameStands, resolved⟩ := (resolves_alias_iff rfl).mp also
      obtain rfl := Option.some.inj (stands.symm.trans sameStands)
      exact ih resolved
  | older different _ ih => exact ih ((resolves_older_iff different).mp also)

/-! ## Look-ups -/

theorem after_cons_eq_ok_iff {binding : Binding} :
    after (binding :: earlier) = .ok scope ↔
      ∃ before, after earlier = .ok before ∧ binding.perform before = .ok scope := by
  rw [after, bind_eq_ok_iff]

theorem bindAlias_eq_ok_iff {before : Scope} {port : OutputRef} {elements : Elements} :
    before.bindAlias port elements = .ok scope ↔
      ∃ locations, List.Forall₂ (fun coordinate location => before.locate coordinate = .ok location)
        elements locations ∧ before.bind port (.scattered locations) = scope := by
  simp only [bindAlias, locateAll, bind_eq_ok_iff, pure_eq_ok_iff, mapM_eq_ok_iff]

/-- The place of a coordinate whose port was bound last. -/
theorem locate_bind {before : Scope} {port : OutputRef} {binding : PortBinding}
    (here : coordinate.output = port) :
    (before.bind port binding).locate coordinate = binding.locate coordinate.element := by
  rw [locate, here, binding?_bind]

theorem locate_array_eq_ok_iff {own : ArrayRef} {element : Nat} {location : Location} :
    (PortBinding.array own).locate element = .ok location ↔
      element < own.length ∧ location = ⟨own, element⟩ := by
  rw [PortBinding.locate]
  split <;> simp_all [eq_comm]

theorem locate_scattered_eq_ok_iff {locations : List Location} {element : Nat} {location : Location} :
    (PortBinding.scattered locations).locate element = .ok location ↔
      locations[element]? = some location := by
  rw [PortBinding.locate]
  split <;> simp_all

/-- The place of a coordinate is the place of its source.  For every history of bindings, with aliases
of aliases to any depth, and every coordinate: looking it up in the scope gives a place exactly when the
bindings lead to a source, and it is the place of this source in its array.  The induction is on the
history. -/
theorem locate_eq_ok_iff (reached : after history = .ok scope) {location : Location} :
    scope.locate coordinate = .ok location ↔
      ∃ source, Resolves history coordinate source location.window ∧
        location.position = source.element := by
  induction history generalizing scope coordinate location with
  | nil =>
      obtain rfl := Except.ok.inj reached
      simp only [locate, binding?, empty, List.lookup_nil, reduceCtorEq, false_iff, not_exists]
      rintro source ⟨resolves, _⟩
      cases resolves
  | cons binding earlier ih =>
      obtain ⟨before, reachedBefore, performed⟩ := after_cons_eq_ok_iff.mp reached
      by_cases here : coordinate.output = binding.port
      · cases binding with
        | array port own =>
            simp only [Binding.port] at here
            obtain rfl := Except.ok.inj performed
            rw [bindArray, locate_bind here, locate_array_eq_ok_iff]
            simp only [resolves_array_iff here]
            obtain ⟨window, position⟩ := location
            simp only [Location.mk.injEq]
            constructor
            · rintro ⟨inside, rfl, rfl⟩
              exact ⟨coordinate, ⟨inside, rfl, rfl⟩, rfl⟩
            · rintro ⟨_, ⟨inside, rfl, rfl⟩, rfl⟩
              exact ⟨inside, rfl, rfl⟩
        | aliasOf port elements =>
            simp only [Binding.port] at here
            obtain ⟨locations, places, rfl⟩ := bindAlias_eq_ok_iff.mp performed
            rw [locate_bind here, locate_scattered_eq_ok_iff]
            simp only [resolves_alias_iff here]
            constructor
            · intro found
              obtain ⟨next, stands, located⟩ := exists_getElem?_right places found
              obtain ⟨source, resolves, same⟩ := (ih reachedBefore).mp located
              exact ⟨source, ⟨next, stands, resolves⟩, same⟩
            · rintro ⟨source, ⟨next, stands, resolves⟩, same⟩
              obtain ⟨place, found, located⟩ := exists_getElem?_left places stands
              have expected := (ih reachedBefore).mpr ⟨source, resolves, same⟩
              exact Except.ok.inj (located.symm.trans expected) ▸ found
      · have kept : scope.locate coordinate = before.locate coordinate := by
          cases binding with
          | array port own =>
              obtain rfl := Except.ok.inj performed
              exact locate_bind_of_ne here
          | aliasOf port elements =>
              obtain ⟨locations, _, rfl⟩ := bindAlias_eq_ok_iff.mp performed
              exact locate_bind_of_ne here
        rw [kept, ih reachedBefore]
        simp only [resolves_older_iff here]

theorem locate_of_resolves (reached : after history = .ok scope)
    (resolves : Resolves history coordinate source window) :
    scope.locate coordinate = .ok ⟨window, source.element⟩ :=
  (locate_eq_ok_iff reached).mpr ⟨source, resolves, rfl⟩

end Resolving

/-! ## Windows over elements -/

section Covering

variable {type : ScalarType} {locations : List Location} {window : ArrayRef}

theorem consecutive_iff {array : ArrayId} {position : Nat} :
    consecutive array position locations = true ↔
      ∀ index location, locations[index]? = some location →
        location.window.array = array ∧ location.absolute = position + index := by
  refine ⟨fun holds index location => location_of_consecutive holds, fun places => ?_⟩
  induction locations generalizing position with
  | nil => rfl
  | cons first rest ih =>
      obtain ⟨sameArray, samePosition⟩ := places 0 first rfl
      have others : consecutive array (position + 1) rest = true := by
        refine ih fun index location found => ?_
        obtain ⟨otherArray, otherPosition⟩ := places (index + 1) location found
        exact ⟨otherArray, by omega⟩
      simp [consecutive, sameArray, samePosition, others]

/-- Places are covered by a window exactly when there are some and they follow one another in the
array of the window from its start on. -/
theorem windowOver?_eq_some_iff :
    windowOver? type locations = some window ↔
      locations ≠ [] ∧ window.type = type ∧ window.length = locations.length ∧
        ∀ index location, locations[index]? = some location →
          location.window.array = window.array ∧ location.absolute = window.offset + index := by
  constructor
  · intro covered
    refine ⟨?_, location_of_windowOver? covered⟩
    rintro rfl
    simp [windowOver?] at covered
  · rintro ⟨nonempty, rfl, length, places⟩
    obtain ⟨first, rest, rfl⟩ := List.exists_cons_of_ne_nil nonempty
    obtain ⟨array, start⟩ := places 0 first rfl
    have holds : consecutive first.window.array first.absolute (first :: rest) = true := by
      rw [array, start]
      exact consecutive_iff.mpr places
    rw [windowOver?, if_pos holds, array, start]
    exact congrArg some (by cases window; simp_all)

variable {history : List Binding} {scope : Scope} {elements : Elements}

/-- Elements are covered by a window exactly when there are some and their sources follow one another
in the array of the window from its start on. -/
theorem exists_contiguous_iff (reached : after history = .ok scope)
    (bound : ∀ coordinate ∈ elements, ∃ source own, Resolves history coordinate source own) :
    ∃ covered, scope.contiguous elements type = .ok covered ∧
      ∀ window, covered = some window ↔
        elements ≠ [] ∧ window.type = type ∧ window.length = elements.length ∧
          ∀ index coordinate source own, elements[index]? = some coordinate →
            Resolves history coordinate source own →
              own.array = window.array ∧ own.offset + source.element = window.offset + index := by
  obtain ⟨locations, located⟩ : ∃ locations, scope.locateAll elements = .ok locations :=
    exists_mapM_eq_ok fun coordinate mem => by
      obtain ⟨source, own, resolves⟩ := bound coordinate mem
      exact ⟨_, locate_of_resolves reached resolves⟩
  have pointwise := mapM_eq_ok_iff.mp located
  refine ⟨windowOver? type locations, by rw [contiguous, located]; rfl, fun window => ?_⟩
  have sameEmpty : locations = [] ↔ elements = [] := by
    rw [← List.length_eq_zero_iff, ← List.length_eq_zero_iff, pointwise.length_eq]
  have samePlaces : (∀ index location, locations[index]? = some location →
        location.window.array = window.array ∧ location.absolute = window.offset + index) ↔
      ∀ index coordinate source own, elements[index]? = some coordinate →
        Resolves history coordinate source own →
          own.array = window.array ∧ own.offset + source.element = window.offset + index := by
    constructor
    · intro places index coordinate source own found resolves
      obtain ⟨location, placed, here⟩ := exists_getElem?_left pointwise found
      obtain rfl := Except.ok.inj ((locate_of_resolves reached resolves).symm.trans here)
      exact places index _ placed
    · intro places index location placed
      obtain ⟨coordinate, found, here⟩ := exists_getElem?_right pointwise placed
      obtain ⟨source, resolves, same⟩ := (locate_eq_ok_iff reached).mp here
      rw [Location.absolute, same]
      exact places index coordinate source _ found resolves
  rw [windowOver?_eq_some_iff, samePlaces, ne_eq, sameEmpty, pointwise.length_eq]

end Covering

end Scope

end Dataflow
