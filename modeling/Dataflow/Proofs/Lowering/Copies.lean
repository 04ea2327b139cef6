import Dataflow.Proofs.Lowering.Accepting
import Dataflow.Proofs.Lowering.Resolution
import Dataflow.Proofs.Routine.Frames

/-!
# Elements as one array

Elements that do not follow one another are copied to a new array.  The code for this reads the places
of their sources and writes the new array, so it changes none of the arrays that were there before, and
each source still holds its scalar when its turn comes.  Scalars are copied as they are, undefined floats
included.
-/

namespace Dataflow

/-! ## Elements of arrays -/

/-- What an array holds at a position, as it is seen through views. -/
def Machine.element? (machine : Machine) (views : Array View) (array : ArrayId) (position : Nat) :
    Option Scalar :=
  views[array]?.bind fun view =>
    if position < view.length then machine.holds (view.origin.shift position) else none

/-- The arrays below a number share no cells with the others. -/
def Separated (views : Array View) (first : ArrayId) : Prop :=
  Disjoint (reachOf views.toList {array | array < first}) (reachOf views.toList {array | first ≤ array})

section Elements

variable {views : Array View} {machine later : Machine} {array first : ArrayId} {position : Nat}
  {scalar : Scalar}

theorem Machine.element?_eq_some_iff :
    machine.element? views array position = some scalar ↔
      ∃ view, views[array]? = some view ∧ position < view.length ∧
        machine.holds (view.origin.shift position) = some scalar := by
  simp only [element?, Option.bind_eq_some_iff, Option.ite_none_right_eq_some]

/-- A position inside an array holds a scalar of its type. -/
theorem Backed.exists_element? {slot length : Nat} {type : ScalarType}
    (backed : Backed views machine.heap array slot type length) (inside : position < length) :
    ∃ scalar, machine.element? views array position = some scalar ∧ scalar.type = type := by
  obtain ⟨view, buffer, viewed, rfl, rfl, stored, rfl, room⟩ := backed
  obtain ⟨scalar, got⟩ : ∃ scalar, buffer.get? (view.offset + position) = some scalar := by
    refine Option.ne_none_iff_exists'.mp fun absent => ?_
    have beyond := Buffer.get?_eq_none_iff.mp absent
    omega
  refine ⟨scalar, Machine.element?_eq_some_iff.mpr ⟨view, viewed, inside, ?_⟩,
    Buffer.type_of_get?_eq_some got⟩
  simpa [Machine.holds, View.origin, Cell.shift, stored] using got

/-- What changes only arrays from a number on keeps the elements of the arrays below it. -/
theorem Machine.AgreeOutside.element?_eq (separated : Separated views first)
    (agree : AgreeOutside (reachOf views.toList {array | first ≤ array}) machine later)
    (below : array < first) :
    later.element? views array position = machine.element? views array position := by
  rw [element?, element?]
  refine Option.bind_congr fun view viewed => ?_
  split
  · rename_i inside
    refine agree.holds _ (Set.disjoint_left.mp separated ⟨array, below, view, ?_, ?_⟩)
    · exact Array.getElem?_toList.trans viewed
    · exact View.mem_cells_iff.mpr ⟨rfl, Nat.le_add_right _ _, Nat.add_lt_add_left inside _⟩
  · rfl

/-- In a call, the arrays that a routine declares are apart from its parameters and from each other, if
what was passed lies on the heap of the caller. -/
theorem Program.separated_activation (program : Program) (host : Host) (depth : Nat)
    {routine : Routine} {arguments : List View} {base : Nat}
    (given : ∀ view ∈ arguments, view.slot < base) (parameters : arguments.length ≤ first) :
    Separated (program.activation host depth routine arguments base).views first := by
  rw [Separated, Program.activation, Set.disjoint_left]
  rintro cell ⟨early, below, view, viewed, mem⟩ ⟨late, above, other, otherViewed, otherMem⟩
  have order := Nat.lt_of_lt_of_le below above
  have beyond := Nat.le_trans parameters above
  have sameSlot : view.slot = other.slot :=
    (View.mem_cells_iff.mp mem).1.symm.trans (View.mem_cells_iff.mp otherMem).1
  have otherOwn : other.slot = base + (late - arguments.length) := by
    rcases Routine.views_cases otherViewed with passed | ⟨_, own⟩
    · have inside := (List.getElem?_eq_some_iff.mp passed).1
      omega
    · exact own
  rcases Routine.views_cases viewed with passed | ⟨_, own⟩
  · have inside := given view (List.mem_of_getElem? passed)
    omega
  · omega

end Elements

theorem Builder.Ready.of_alike {builder : Builder} {views : Array View} {machine later : Machine}
    (ready : builder.Ready views machine) (alike : machine.Alike later) :
    builder.Ready views later where
  values := alike.size_registers ▸ ready.values
  arrays array declaration declared :=
    (ready.arrays array declaration declared).imp fun _ backed => alike.backed backed

theorem Builder.Ready.exists_element? {builder : Builder} {views : Array View} {machine : Machine}
    {window : ArrayRef} {position : Nat} (ready : builder.Ready views machine)
    (checked : builder.checkArray window = .ok ()) (inside : position < window.length) :
    ∃ scalar, machine.element? views window.array (window.offset + position) = some scalar ∧
      scalar.type = window.type := by
  obtain ⟨slot, length, backed, room⟩ := ready.backed checked
  exact backed.exists_element? (by omega)

theorem Builder.array_lt_of_checkArray {builder : Builder} {window : ArrayRef}
    (checked : builder.checkArray window = .ok ()) : window.array < builder.arrays.size := by
  obtain ⟨declaration, declared, _⟩ := checkArray_eq_ok_iff.mp checked
  exact (Array.getElem?_eq_some_iff.mp declared).1

/-! ## Code that fills arrays -/

/-- Instructions that read elements into variables and write elements of arrays from a number on. -/
def Instruction.FillsFrom (first : ArrayId) : Instruction → Prop
  | .assign _ (.load _ _) => True
  | .store array _ _ => first ≤ array
  | _ => False

theorem Instruction.Occurs.fillsFrom {first : ArrayId} {instruction : Instruction}
    {code : List Instruction} (occurs : instruction.Occurs code)
    (fills : ∀ each ∈ code, each.FillsFrom first) : instruction.FillsFrom first := by
  induction occurs with
  | here => exact fills _ List.mem_cons_self
  | later _ ih => exact ih fun each mem => fills each (List.mem_cons_of_mem _ mem)
  | loop => exact absurd (fills _ List.mem_cons_self) not_false
  | branch => exact absurd (fills _ List.mem_cons_self) not_false

namespace Activation

variable {activation : Activation} {machine later : Machine} {first source target : ArrayId}
  {value : ValueId} {scalar : Scalar} {place into : Nat}

/-- Code that fills arrays from a number on changes nothing else. -/
theorem agreeOutside_of_runs {code : List Instruction} (fills : ∀ each ∈ code, each.FillsFrom first)
    (ran : activation.Runs code machine later) :
    machine.AgreeOutside (reachOf activation.views.toList {array | first ≤ array}) later := by
  have confines : activation.Confines
      (reachOf activation.views.toList {array | first ≤ array}) code :=
    ⟨fun array _ _ occurs view viewed _ mem =>
        ⟨array, occurs.fillsFrom fills, view, Array.getElem?_toList.trans viewed, mem⟩,
      fun _ _ occurs => absurd (occurs.fillsFrom fills) not_false⟩
  have touched := touches_executeBody code confines machine
  rwa [show outcome (activation.executeBody code) machine = (.ok (), later) from ran] at touched

theorem succeeds_load (holds : machine.element? activation.views source place = some scalar) :
    Succeeds (activation.execute (.assign value (.load source (.fixed place)))) machine ()
      (machine.write value (.scalar scalar)) := by
  obtain ⟨view, viewed, inside, got⟩ := Machine.element?_eq_some_iff.mp holds
  obtain ⟨buffer, stored, got⟩ := Option.bind_eq_some_iff.mp got
  have read : Succeeds (Run.readElement view.slot (view.offset + place)) machine scalar machine := by
    rw [View.origin, Cell.slot_shift] at stored
    simp only [View.origin, Cell.shift] at got
    simp [Run.readElement, stored, got]
  simp only [execute, evaluate, succeeds_bind_iff]
  exact ⟨_, machine, ⟨_, _, succeeds_locate viewed (machine.points_fixed _) inside, scalar, machine,
    read, rfl⟩, rfl⟩

/-- A store changes the element that it names, and no other element of its array. -/
theorem exists_stored {slot length : Nat}
    (found : machine.registers[value]? = some (some (.scalar scalar)))
    (backed : Backed activation.views machine.heap target slot scalar.type length)
    (inside : into < length) :
    ∃ later, Succeeds (activation.execute (.store target (.fixed into) value)) machine () later ∧
      later.element? activation.views target into = some scalar ∧
      ∀ other ≠ into, later.element? activation.views target other =
        machine.element? activation.views target other := by
  obtain ⟨view, buffer, viewed, rfl, rfl, stored, typed, room⟩ := backed
  have within : view.offset + into < buffer.size := by omega
  refine ⟨{ machine with heap := machine.heap.modify view.slot (·.set (view.offset + into) scalar) },
    ?_, Machine.element?_eq_some_iff.mpr ⟨view, viewed, inside, ?_⟩, fun other different => ?_⟩
  · simp only [execute, succeeds_bind_iff]
    exact ⟨_, _, succeeds_locate viewed (machine.points_fixed _) inside, scalar, machine,
      succeeds_readScalar found, Machine.Typed.succeeds_writeElement stored within typed.symm⟩
  · have accepts : buffer.accepts (view.offset + into) scalar = true := by
      simp [Buffer.accepts, typed, within]
    simp [Machine.holds, View.origin, Cell.shift, Array.getElem?_modify, stored, Buffer.get?_set,
      accepts]
  · have apart : view.origin.shift other ≠ ⟨view.slot, view.offset + into⟩ := fun same =>
      different (Nat.add_left_cancel (Cell.mk.inj same).2)
    simp only [Machine.element?, viewed, Option.bind_some, Machine.holds_set apart]

/-- Loading an element and storing it copies it. -/
theorem exists_copied {slot length : Nat}
    (holds : machine.element? activation.views source place = some scalar)
    (declared : value < machine.registers.size)
    (backed : Backed activation.views machine.heap target slot scalar.type length)
    (inside : into < length) :
    ∃ later,
      activation.Runs [.assign value (.load source (.fixed place)), .store target (.fixed into) value]
        machine later ∧
      later.element? activation.views target into = some scalar ∧
      ∀ other ≠ into, later.element? activation.views target other =
        machine.element? activation.views target other := by
  have read :
      (machine.write value (.scalar scalar)).registers[value]? = some (some (.scalar scalar)) := by
    rw [Machine.registers_write machine _ declared, if_pos rfl]
  obtain ⟨later, wrote, written, others⟩ := exists_stored read
    ((machine.alike_write value (.scalar scalar)).backed backed) inside
  exact ⟨later, runs_cons_iff.mpr ⟨_, succeeds_load holds, runs_singleton_iff.mpr wrote⟩, written,
    others⟩

end Activation

/-! ## Copying elements -/

namespace Scope

variable {σ : Type} {scope : Scope} {before after : Builder × σ} {target : ArrayRef} {position : Nat}
  {elements : Elements} {result : Unit}

/-- Code that copies elements puts what their places hold into a window, one element after another, and
keeps what the window holds before the position.  The induction is on the elements that are left. -/
theorem runs_copyElements
    (emitted : Succeeds (scope.copyElements target position elements : Emit σ Unit) before result
      after) :
    after.2 = before.2 ∧ after.1.arrays = before.1.arrays ∧
      (∀ coordinate ∈ elements, ∃ location, scope.locate coordinate = .ok location ∧
        location.window.type = target.type) ∧
      ∃ code, before.1.Grows code after.1 ∧ (∀ each ∈ code, each.FillsFrom target.array) ∧
        ∀ {activation : Activation} {machine : Machine}, after.1.Ready activation.views machine →
          Separated activation.views target.array →
          (∀ coordinate ∈ elements, ∀ location, scope.locate coordinate = .ok location →
            location.window.array < target.array ∧
              ∃ scalar, machine.element? activation.views location.window.array location.absolute =
                some scalar ∧ scalar.type = target.type) →
          ∃ later, activation.Runs code machine later ∧
            (∀ index < position,
              later.element? activation.views target.array (target.offset + index) =
                machine.element? activation.views target.array (target.offset + index)) ∧
            ∀ index coordinate location, elements[index]? = some coordinate →
              scope.locate coordinate = .ok location →
              later.element? activation.views target.array (target.offset + (position + index)) =
                machine.element? activation.views location.window.array location.absolute := by
  induction elements generalizing before position with
  | nil =>
      obtain ⟨_, rfl⟩ := succeeds_pure_iff.mp emitted
      exact ⟨rfl, rfl, by simp, [], .refl _, by simp, fun {_ machine} _ _ _ =>
        ⟨machine, Activation.runs_nil_iff.mpr rfl, fun _ _ => rfl, by simp⟩⟩
  | cons coordinate rest ih =>
      obtain ⟨location, between, located, sameType, inside, checked, sameOwn, sameArrays, declared,
        grows, others⟩ := of_copyElements_cons emitted
      obtain ⟨restOwn, restArrays, restTypes, code, restGrows, restFills, runs⟩ := ih others
      have fills : ∀ each ∈ ([.assign before.1.valueTypes.size
            (.load location.window.array (.fixed location.absolute)),
          .store target.array (.fixed (target.offset + position)) before.1.valueTypes.size] :
            List Instruction), each.FillsFrom target.array := by
        simp [Instruction.FillsFrom]
      refine ⟨restOwn.trans sameOwn, restArrays.trans sameArrays,
        List.forall_mem_cons.mpr ⟨⟨location, located, sameType⟩, restTypes⟩, _, grows.trans restGrows,
        fun each mem => (List.mem_append.mp mem).elim (fills each) (restFills each), ?_⟩
      intro activation machine ready separated places
      obtain ⟨_, scalar, holds, typed⟩ := places coordinate List.mem_cons_self location located
      have readyHere := ready.of_grows restGrows
      obtain ⟨slot, length, backed, room⟩ := readyHere.backed checked
      obtain ⟨middle, copied, written, kept⟩ := Activation.exists_copied holds
        (Nat.lt_of_lt_of_le declared readyHere.values) (typed ▸ backed)
        (show target.offset + position < length by omega)
      have agree := Activation.agreeOutside_of_runs fills copied
      obtain ⟨later, ran, earlier, done⟩ := runs (ready.of_alike agree.alike) separated
        fun other mem place placed => by
          obtain ⟨below, found⟩ := places other (List.mem_cons_of_mem _ mem) place placed
          exact ⟨below, agree.element?_eq separated below ▸ found⟩
      refine ⟨later, Activation.runs_append_iff.mpr ⟨middle, copied, ran⟩, fun index below => ?_,
        fun index other place found placed => ?_⟩
      · rw [earlier index (by omega), kept _ (by omega)]
      · cases index with
        | zero =>
            obtain rfl := Option.some.inj found
            obtain rfl := Except.ok.inj (located.symm.trans placed)
            rw [Nat.add_zero, earlier position (by omega), written, holds]
        | succ index =>
            have mem := List.mem_of_getElem? (List.getElem?_cons_succ ▸ found)
            obtain ⟨below, _⟩ := places other (List.mem_cons_of_mem _ mem) place placed
            have copy := done index other place (by simpa using found) placed
            rw [← agree.element?_eq separated below, ← copy, Nat.add_assoc, Nat.add_comm 1]

/-! ## Gathering elements -/

/-- A run leaves the arrays below a number as they are, and afterwards a window holds at each index what
the source of the element with that index held before. -/
structure Delivers (history : List Binding) (elements : Elements) (window : ArrayRef) (first : Nat)
    (views : Array View) (machine later : Machine) : Prop where
  holds : ∀ index coordinate source own, elements[index]? = some coordinate →
    Resolves history coordinate source own →
      ∃ scalar, machine.element? views own.array (own.offset + source.element) = some scalar ∧
        later.element? views window.array (window.offset + index) = some scalar
  keeps : ∀ array < first, ∀ position,
    later.element? views array position = machine.element? views array position
  agree : machine.AgreeOutside (reachOf views.toList {array | first ≤ array}) later

/-- A coordinate resolves to an element of an array that lies within its bounds. -/
def Reads (history : List Binding) (builder : Builder) (coordinate : Coordinate) : Prop :=
  ∃ source own, Resolves history coordinate source own ∧ builder.checkArray own = .ok ()

variable {history : List Binding} {type : ScalarType} {window : ArrayRef}

theorem Reads.of_resolves {builder : Builder} {coordinate source : Coordinate} {own : ArrayRef}
    (reads : Reads history builder coordinate) (resolves : Resolves history coordinate source own) :
    builder.checkArray own = .ok () := by
  obtain ⟨_, _, resolved, checked⟩ := reads
  exact (resolves.unique resolved).2 ▸ checked

theorem Reads.resolved {builder : Builder} {coordinate : Coordinate}
    (reads : Reads history builder coordinate) :
    ∃ source own, Resolves history coordinate source own := by
  obtain ⟨source, own, resolves, _⟩ := reads
  exact ⟨source, own, resolves⟩

/-- Elements can be gathered exactly when a window covers them or all of their sources have the type. -/
theorem exists_gather_iff (reached : Scope.after history = .ok scope)
    (reads : ∀ coordinate ∈ elements, Reads history before.1 coordinate) :
    (∃ window after, Succeeds (scope.gather elements type : Emit σ ArrayRef) before window after) ↔
      (∃ window, scope.contiguous elements type = .ok (some window)) ∨
        ∀ coordinate ∈ elements, ∀ source own, Resolves history coordinate source own →
          own.type = type := by
  constructor
  · rintro ⟨window, after, emitted⟩
    simp only [gather, succeeds_bind_iff, Emit.succeeds_check_iff] at emitted
    obtain ⟨covered, _, ⟨covers, rfl⟩, rest⟩ := emitted
    cases covered with
    | some covering => exact .inl ⟨covering, covers⟩
    | none =>
        simp only [succeeds_bind_iff, Emit.succeeds_declareArray_iff, succeeds_pure_iff] at rest
        obtain ⟨_, _, ⟨rfl, rfl⟩, _, _, copied, rfl, rfl⟩ := rest
        obtain ⟨_, _, types, _⟩ := runs_copyElements copied
        refine .inr fun coordinate mem source own resolves => ?_
        obtain ⟨location, located, typed⟩ := types coordinate mem
        obtain rfl := Except.ok.inj ((locate_of_resolves reached resolves).symm.trans located)
        exact typed
  · rintro (⟨window, covers⟩ | typed)
    · refine ⟨window, before, ?_⟩
      simp only [gather, succeeds_bind_iff, Emit.succeeds_check_iff]
      exact ⟨some window, before, ⟨covers, rfl⟩, succeeds_pure_iff.mpr ⟨rfl, rfl⟩⟩
    · have finds : ∀ coordinate ∈ elements, scope.Finds before.1 type coordinate := by
        intro coordinate mem
        obtain ⟨source, own, resolves, checked⟩ := reads coordinate mem
        exact ⟨_, locate_of_resolves reached resolves, own.length,
          ⟨checked, typed coordinate mem source own resolves, rfl⟩, resolves.source_bound.2⟩
      obtain ⟨window, after, emitted, _⟩ :
          (scope.gather elements type : Emit σ ArrayRef).Passes Eq before _ := passes_gather finds
      exact ⟨window, after, emitted⟩

/-- The code of gathered elements delivers what their sources hold, and writes only arrays that were
declared for it. -/
theorem delivers_of_gather (reached : Scope.after history = .ok scope)
    (reads : ∀ coordinate ∈ elements, Reads history before.1 coordinate)
    (emitted : Succeeds (scope.gather elements type : Emit σ ArrayRef) before window after) :
    after.2 = before.2 ∧ window.type = type ∧ window.length = elements.length ∧
      ∃ code, before.1.Grows code after.1 ∧ (∀ each ∈ code, each.FillsFrom before.1.arrays.size) ∧
        ∀ (activation : Activation) (machine : Machine), after.1.Ready activation.views machine →
          Separated activation.views before.1.arrays.size →
          ∃ later, activation.Runs code machine later ∧
            Delivers history elements window before.1.arrays.size activation.views machine later := by
  simp only [gather, succeeds_bind_iff, Emit.succeeds_check_iff] at emitted
  obtain ⟨covered, before, ⟨covers, rfl⟩, rest⟩ := emitted
  obtain ⟨_, sameCovers, places⟩ :=
    exists_contiguous_iff reached fun coordinate mem => (reads coordinate mem).resolved
  obtain rfl := Except.ok.inj (covers.symm.trans sameCovers)
  cases covered with
  | some covering =>
      obtain ⟨rfl, rfl⟩ := succeeds_pure_iff.mp rest
      obtain ⟨_, typed, length, consecutive⟩ := (places window).mp rfl
      refine ⟨rfl, typed, length, [], .refl _, by simp, fun activation machine ready _ => ?_⟩
      refine ⟨machine, Activation.runs_nil_iff.mpr rfl, ?_, fun _ _ _ => rfl, .refl _ machine⟩
      intro index coordinate source own found resolves
      have checked := (reads coordinate (List.mem_of_getElem? found)).of_resolves resolves
      obtain ⟨scalar, holds, _⟩ := ready.exists_element? checked resolves.source_bound.2
      obtain ⟨sameArray, samePosition⟩ := consecutive index coordinate source own found resolves
      exact ⟨scalar, holds, sameArray ▸ samePosition ▸ holds⟩
  | none =>
      simp only [succeeds_bind_iff, Emit.succeeds_declareArray_iff, succeeds_pure_iff] at rest
      obtain ⟨_, _, ⟨rfl, rfl⟩, _, _, copied, rfl, rfl⟩ := rest
      obtain ⟨sameOwn, _, types, code, grows, fills, runs⟩ := runs_copyElements copied
      have allGrows := (Builder.Grows.withArray before.1 (.scratch type elements.length)).trans grows
      refine ⟨sameOwn, rfl, rfl, code, allGrows, fills, fun activation machine ready separated => ?_⟩
      have readable : ∀ coordinate ∈ elements, ∀ source own, Resolves history coordinate source own →
          own.array < before.1.arrays.size ∧
            ∃ scalar, machine.element? activation.views own.array (own.offset + source.element) =
              some scalar ∧ scalar.type = own.type := by
        intro coordinate mem source own resolves
        have checked := (reads coordinate mem).of_resolves resolves
        exact ⟨Builder.array_lt_of_checkArray checked,
          (ready.of_grows allGrows).exists_element? checked resolves.source_bound.2⟩
      obtain ⟨later, ran, _, done⟩ := runs ready separated fun coordinate mem location located => by
        obtain ⟨_, sameLocated, typed⟩ := types coordinate mem
        obtain rfl := Except.ok.inj (located.symm.trans sameLocated)
        obtain ⟨source, resolves, same⟩ := (locate_eq_ok_iff reached).mp located
        obtain ⟨below, scalar, holds, scalarType⟩ := readable coordinate mem source _ resolves
        exact ⟨below, scalar, by rwa [Location.absolute, same], scalarType.trans typed⟩
      have agree := Activation.agreeOutside_of_runs fills ran
      refine ⟨later, ran, ?_, fun array below _ => agree.element?_eq separated below, agree⟩
      intro index coordinate source own found resolves
      have mem := List.mem_of_getElem? found
      obtain ⟨_, scalar, holds, _⟩ := readable coordinate mem source own resolves
      have copy := done index coordinate _ found (locate_of_resolves reached resolves)
      rw [Nat.zero_add] at copy
      exact ⟨scalar, holds, copy.trans holds⟩

/-- Scopes lead to sources.  For every scope that is reached by binding arrays and aliases, with aliases
of aliases to any depth:

* what a coordinate resolves to is determined, and it is an element of a port that was bound to an array;
* looking a coordinate up gives a place exactly when it resolves to a source, and gives the place of this
  source in its array;
* elements that all resolve are covered by a window exactly when there are some and their sources follow
  one another in one array, whatever ports they belong to, and then the place of each one is the position
  of the window with its index;
* elements whose arrays lie within their bounds can be gathered exactly when a window covers them or their
  sources have the type that is asked for.  The code for this consists of loads and of stores to arrays
  that were not there before.  On each machine that is ready for it, where old and new arrays share no
  cells as in every call (`Program.separated_activation`), it runs to its end, leaves all old arrays as
  they were, and the window that was returned holds at each index what the source of the element with this
  index holds. -/
theorem leads_to_sources {history : List Binding} {scope : Scope}
    (reached : Scope.after history = .ok scope) :
    (∀ coordinate source window, Resolves history coordinate source window →
      Binding.array source.output window ∈ history ∧ source.element < window.length ∧
        ∀ other its, Resolves history coordinate other its → other = source ∧ its = window) ∧
      (∀ coordinate location, scope.locate coordinate = .ok location ↔
        ∃ source, Resolves history coordinate source location.window ∧
          location.position = source.element) ∧
      (∀ (elements : Elements) (type : ScalarType),
        (∀ coordinate ∈ elements, ∃ source own, Resolves history coordinate source own) →
        ∃ covered, scope.contiguous elements type = .ok covered ∧
          ∀ window, covered = some window ↔
            elements ≠ [] ∧ window.type = type ∧ window.length = elements.length ∧
              ∀ index coordinate source own, elements[index]? = some coordinate →
                Resolves history coordinate source own →
                  own.array = window.array ∧
                    own.offset + source.element = window.offset + index) ∧
      ∀ (σ : Type) (before : Builder × σ) (elements : Elements) (type : ScalarType),
        (∀ coordinate ∈ elements, Reads history before.1 coordinate) →
        ((∃ window after,
            Succeeds (scope.gather elements type : Emit σ ArrayRef) before window after) ↔
          (∃ window, scope.contiguous elements type = .ok (some window)) ∨
            ∀ coordinate ∈ elements, ∀ source own, Resolves history coordinate source own →
              own.type = type) ∧
        ∀ window after, Succeeds (scope.gather elements type : Emit σ ArrayRef) before window after →
          after.2 = before.2 ∧ window.type = type ∧ window.length = elements.length ∧
            ∃ code, before.1.Grows code after.1 ∧
              (∀ each ∈ code, each.FillsFrom before.1.arrays.size) ∧
              ∀ (activation : Activation) (machine : Machine),
                after.1.Ready activation.views machine →
                Separated activation.views before.1.arrays.size →
                ∃ later, activation.Runs code machine later ∧
                  Delivers history elements window before.1.arrays.size activation.views machine
                    later :=
  ⟨fun _ _ _ resolves =>
      ⟨resolves.source_bound.1, resolves.source_bound.2, fun _ _ => resolves.unique⟩,
    fun _ _ => locate_eq_ok_iff reached,
    fun _ _ bound => exists_contiguous_iff reached bound,
    fun _ _ _ _ reads =>
      ⟨exists_gather_iff reached reads, fun _ _ emitted => delivers_of_gather reached reads emitted⟩⟩

/-- Two nodes share an array, a third one has its own, and there is an alias of an alias. -/
def relays : List Binding :=
  [.aliasOf ⟨4, 0⟩ [⟨3, 0, 1⟩, ⟨3, 0, 0⟩], .aliasOf ⟨3, 0⟩ [⟨2, 0, 1⟩, ⟨0, 0, 0⟩],
    .array ⟨2, 0⟩ ⟨1, .bool, 0, 2⟩, .array ⟨1, 0⟩ ⟨0, .bool, 2, 2⟩, .array ⟨0, 0⟩ ⟨0, .bool, 0, 2⟩]

/-- The scope that these bindings lead to. -/
def relayed : Scope :=
  ⟨[(⟨4, 0⟩, .scattered [⟨⟨0, .bool, 0, 2⟩, 0⟩, ⟨⟨1, .bool, 0, 2⟩, 1⟩]),
    (⟨3, 0⟩, .scattered [⟨⟨1, .bool, 0, 2⟩, 1⟩, ⟨⟨0, .bool, 0, 2⟩, 0⟩]),
    (⟨2, 0⟩, .array ⟨1, .bool, 0, 2⟩), (⟨1, 0⟩, .array ⟨0, .bool, 2, 2⟩),
    (⟨0, 0⟩, .array ⟨0, .bool, 0, 2⟩)]⟩

/-- A routine whose parameters are the arrays of the nodes. -/
def relaying : Builder :=
  .start "relaying" [⟨"shared", .bool, 4⟩, ⟨"single", .bool, 2⟩]

/-- The routine with code that copies two elements to a new array. -/
def relayingCopies : Builder :=
  { relaying with
    valueTypes := #[.scalar .bool, .scalar .bool]
    arrays := relaying.arrays.push (.scratch .bool 2)
    block := #[.assign 0 (.load 1 (.fixed 1)), .store 2 (.fixed 0) 0, .assign 1 (.load 0 (.fixed 2)),
      .store 2 (.fixed 1) 1] }

/-- A window covers elements of two nodes, and elements that do not follow one another are copied. -/
theorem leads_to_sources_relays :
    Scope.after relays = .ok relayed ∧
      relayed.contiguous [⟨0, 0, 1⟩, ⟨1, 0, 0⟩, ⟨1, 0, 1⟩] .bool = .ok (some ⟨0, .bool, 1, 3⟩) ∧
      Succeeds (relayed.gather [⟨4, 0, 1⟩, ⟨1, 0, 0⟩] .bool : Emit Unit ArrayRef) (relaying, ())
        ⟨2, .bool, 0, 2⟩ (relayingCopies, ()) ∧
      let activation :=
        Program.activation ⟨[]⟩ ⟨[]⟩ 0 relayingCopies.finish [⟨0, 0, 4⟩, ⟨1, 0, 2⟩] 2
      let machine := Machine.enter
        ⟨#[], #[.bool #[false, false, true, false], .bool #[false, true]], #[]⟩ relayingCopies.finish
      ∃ later, activation.Runs relayingCopies.block.toList machine later ∧
        later.element? activation.views 2 0 = some (.bool true) ∧
        later.element? activation.views 2 1 = some (.bool true) := by
  have reached : Scope.after relays = .ok relayed := rfl
  have emitted : Succeeds (relayed.gather [⟨4, 0, 1⟩, ⟨1, 0, 0⟩] .bool : Emit Unit ArrayRef)
      (relaying, ()) ⟨2, .bool, 0, 2⟩ (relayingCopies, ()) := rfl
  have first : Resolves relays ⟨4, 0, 1⟩ ⟨2, 0, 1⟩ ⟨1, .bool, 0, 2⟩ :=
    (resolves_alias_iff (by decide)).mpr ⟨⟨3, 0, 0⟩, rfl,
      (resolves_alias_iff (by decide)).mpr ⟨⟨2, 0, 1⟩, rfl,
        (resolves_array_iff (by decide)).mpr (by decide)⟩⟩
  have second : Resolves relays ⟨1, 0, 0⟩ ⟨1, 0, 0⟩ ⟨0, .bool, 2, 2⟩ :=
    .older (by decide) (.older (by decide) (.older (by decide)
      ((resolves_array_iff (by decide)).mpr (by decide))))
  refine ⟨reached, rfl, emitted, ?_⟩
  intro activation machine
  obtain ⟨_, _, _, gathers⟩ := leads_to_sources reached
  obtain ⟨_, delivers⟩ := gathers Unit (relaying, ()) [⟨4, 0, 1⟩, ⟨1, 0, 0⟩] .bool (by
    simp only [List.forall_mem_cons]
    exact ⟨⟨_, _, first, rfl⟩, ⟨_, _, second, rfl⟩, by simp⟩)
  obtain ⟨_, _, _, code, grows, _, runs⟩ := delivers _ _ emitted
  obtain rfl : relayingCopies.block.toList = code := grows.block_eq
  have ready : relayingCopies.Ready activation.views machine := by
    refine ⟨by decide, fun array declaration declared => ?_⟩
    obtain ⟨bound, rfl⟩ := Array.getElem?_eq_some_iff.mp declared
    have three : array < 3 := bound
    interval_cases array
    · exact ⟨0, ⟨0, 0, 4⟩, .bool #[false, false, true, false], rfl, rfl, rfl, rfl, rfl, by decide⟩
    · exact ⟨1, ⟨1, 0, 2⟩, .bool #[false, true], rfl, rfl, rfl, rfl, rfl, by decide⟩
    · exact ⟨2, ⟨2, 0, 2⟩, .bool #[false, false], rfl, rfl, rfl, rfl, rfl, by decide⟩
  have separated : Separated activation.views relaying.arrays.size :=
    Program.separated_activation _ _ _ (by decide) (by decide)
  obtain ⟨later, ran, delivered⟩ := runs activation machine ready separated
  obtain ⟨scalar, held, copied⟩ := delivered.holds 0 _ _ _ rfl first
  obtain ⟨other, otherHeld, otherCopied⟩ := delivered.holds 1 _ _ _ rfl second
  obtain rfl : Scalar.bool true = scalar := Option.some.inj held
  obtain rfl : Scalar.bool true = other := Option.some.inj otherHeld
  exact ⟨later, ran, copied, otherCopied⟩

end Scope

end Dataflow
