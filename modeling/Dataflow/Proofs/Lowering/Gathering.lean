import Dataflow.Lowering.Site
import Dataflow.Proofs.Routine.Layout

/-!
# Reading elements through a scope

A scope has a place for each coordinate that is bound.  If these places hold the values of
the coordinates, then so does what is made of them: a variable that was loaded, a window
that covers them, and an array with copies of them.
-/

namespace Dataflow

/-- The place of a coordinate, if it has one, holds a value. -/
def Scope.Places (scope : Scope) (views : Array View) (heap : Array Buffer)
    (readable : Nat → Prop) (coordinate : Coordinate) (value : Scalar) : Prop :=
  ∀ location, scope.locate coordinate = .ok location →
    Holds views heap readable location.window.array location.absolute value

/-- A window holds values, one after another. -/
def ArrayRef.Shows (window : ArrayRef) (views : Array View) (heap : Array Buffer)
    (readable : Nat → Prop) (count : Nat) (values : Nat → Scalar) : Prop :=
  ∀ element < count, Holds views heap readable window.array (window.offset + element) (values element)

theorem Scope.Places.frame {scope : Scope} {views : Array View} {readable kept : Nat → Prop}
    {coordinate : Coordinate} {value : Scalar} {number : Nat} {machine later : Machine}
    (places : scope.Places views machine.heap readable coordinate value)
    (frame : machine.Frame number kept later) (keeps : ∀ slot, readable slot → kept slot) :
    scope.Places views later.heap readable coordinate value :=
  fun location located => (places location located).frame frame keeps

theorem ArrayRef.Shows.frame {window : ArrayRef} {views : Array View} {readable kept : Nat → Prop}
    {count number : Nat} {values : Nat → Scalar} {machine later : Machine}
    (shows : window.Shows views machine.heap readable count values)
    (frame : machine.Frame number kept later) (keeps : ∀ slot, readable slot → kept slot) :
    window.Shows views later.heap readable count values :=
  fun element below => (shows element below).frame frame keeps

theorem ArrayRef.Shows.mono {window : ArrayRef} {views : Array View} {heap : Array Buffer}
    {readable more : Nat → Prop} {count : Nat} {values : Nat → Scalar}
    (shows : window.Shows views heap readable count values)
    (includes : ∀ slot, readable slot → more slot) : window.Shows views heap more count values :=
  fun element below => (shows element below).mono includes

namespace Scope

variable {σ : Type} {scope : Scope} {before after : Builder × σ}

/-! ## Windows over places -/

theorem location_of_consecutive {array : ArrayId} {position : Nat} {locations : List Location}
    (holds : consecutive array position locations) {index : Nat} {location : Location}
    (found : locations[index]? = some location) :
    location.window.array = array ∧ location.absolute = position + index := by
  induction locations generalizing position index with
  | nil => simp at found
  | cons first rest ih =>
      simp only [consecutive, Bool.and_eq_true, decide_eq_true_eq] at holds
      obtain ⟨⟨sameArray, samePosition⟩, others⟩ := holds
      cases index with
      | zero =>
          obtain rfl := Option.some.inj found
          exact ⟨sameArray, samePosition⟩
      | succ index =>
          obtain ⟨otherArray, otherPosition⟩ := ih others (by simpa using found)
          exact ⟨otherArray, by omega⟩

/-- A window over places covers them one after another. -/
theorem location_of_windowOver? {type : ScalarType} {locations : List Location} {window : ArrayRef}
    (covered : windowOver? type locations = some window) :
    window.type = type ∧ window.length = locations.length ∧
      ∀ index location, locations[index]? = some location →
        location.window.array = window.array ∧ location.absolute = window.offset + index := by
  cases locations with
  | nil => simp [windowOver?] at covered
  | cons first rest =>
      simp only [windowOver?] at covered
      split at covered
      · rename_i holds
        obtain rfl := Option.some.inj covered
        exact ⟨rfl, rfl, fun index location found => location_of_consecutive holds found⟩
      · contradiction

/-- A contiguous window holds the values of its elements. -/
theorem shows_of_contiguous {elements : Elements} {type : ScalarType} {window : ArrayRef}
    (covered : scope.contiguous elements type = .ok (some window)) :
    window.type = type ∧ window.length = elements.length ∧
      ∀ {views : Array View} {heap : Array Buffer} {readable : Nat → Prop} {values : Nat → Scalar},
        (∀ index coordinate, elements[index]? = some coordinate →
          scope.Places views heap readable coordinate (values index)) →
        window.Shows views heap readable elements.length values := by
  simp only [contiguous, bind_eq_ok_iff, pure_eq_ok_iff] at covered
  obtain ⟨locations, located, covers⟩ := covered
  have pointwise := mapM_eq_ok_iff.mp located
  obtain ⟨typed, length, found⟩ := location_of_windowOver? covers
  refine ⟨typed, length.trans pointwise.length_eq.symm, fun places element below => ?_⟩
  have bound : element < locations.length := pointwise.length_eq ▸ below
  obtain ⟨sameArray, samePosition⟩ :=
    found element locations[element] (List.getElem?_eq_getElem bound)
  have holds := places element elements[element] (List.getElem?_eq_getElem below) _
    (pointwise.get below bound)
  simp only [List.get_eq_getElem] at holds
  rwa [sameArray, samePosition] at holds

/-! ## Loading and copying -/

theorem of_load {coordinate : Coordinate} {value : ValueId}
    (emitted : Succeeds (scope.load coordinate : Emit σ ValueId) before value after) :
    ∃ location, scope.locate coordinate = .ok location ∧ value = before.1.valueTypes.size ∧
      after = (before.1.define location.window.type
        (.load location.window.array (.fixed location.absolute)), before.2) := by
  simp only [load, succeeds_bind_iff, Emit.succeeds_check_iff] at emitted
  obtain ⟨location, _, ⟨located, rfl⟩, loaded⟩ := emitted
  obtain ⟨position, positioned, rfl, rfl⟩ := Emit.of_load loaded
  obtain ⟨_, rfl⟩ := Builder.position_fixed_eq_ok_iff.mp positioned
  exact ⟨location, located, rfl, rfl⟩

/-- Copying a first element loads it from its place and stores it at the position. -/
theorem of_copyElements_cons {target : ArrayRef} {position : Nat} {coordinate : Coordinate}
    {rest : Elements} {result : Unit}
    (emitted : Succeeds (scope.copyElements target position (coordinate :: rest) : Emit σ Unit) before
      result after) :
    ∃ location between, scope.locate coordinate = .ok location ∧
      location.window.type = target.type ∧ position < target.length ∧
      between.1.checkArray target = .ok () ∧ between.2 = before.2 ∧
      between.1.arrays = before.1.arrays ∧
      before.1.valueTypes.size < between.1.valueTypes.size ∧
      before.1.Grows
        [.assign before.1.valueTypes.size (.load location.window.array (.fixed location.absolute)),
          .store target.array (.fixed (target.offset + position)) before.1.valueTypes.size] between.1 ∧
      Succeeds (scope.copyElements target (position + 1) rest : Emit σ Unit) between result after := by
  simp only [copyElements, succeeds_bind_iff] at emitted
  obtain ⟨value, _, loaded, _, _, stored, others⟩ := emitted
  obtain ⟨location, located, rfl, rfl⟩ := of_load loaded
  have typed := Emit.type_of_store stored
  obtain ⟨_, positioned, checked, rfl⟩ := Emit.of_store stored
  obtain ⟨inside, rfl⟩ := Builder.position_fixed_eq_ok_iff.mp positioned
  have defined := Builder.Grows.define before.1 location.window.type
    (.load location.window.array (.fixed location.absolute))
  have pushed := defined.trans (Builder.Grows.push _
    (.store target.array (.fixed (target.offset + position)) before.1.valueTypes.size))
  refine ⟨location, _, located, ?_, inside, ?_, ?_, ?_, ?_, ?_, others⟩
  · simpa [Builder.define] using typed
  · exact checked
  · rfl
  · rfl
  · simp
  · exact pushed

/-- Copying elements fills a window.  The induction is on the elements that are left. -/
theorem of_copyElements {target : ArrayRef} {position : Nat} {elements : Elements} {result : Unit}
    (emitted : Succeeds (scope.copyElements target position elements : Emit σ Unit) before result
      after) :
    after.2 = before.2 ∧ after.1.arrays = before.1.arrays ∧
      ∃ code, before.1.Grows code after.1 ∧
        ∀ {activation : Activation} {machine : Machine} {readable : Nat → Prop} {slot : Nat}
          {values : Nat → Scalar}, after.1.Ready activation.views machine →
          (∀ view, activation.views[target.array]? = some view → view.slot = slot) →
          ¬readable slot →
          (∀ index coordinate, elements[index]? = some coordinate →
            scope.Places activation.views machine.heap readable coordinate
                (values (position + index)) ∧
              (values (position + index)).type = target.type) →
          Filled activation.views machine.heap slot target position values →
          activation.Reaches code before.1.valueTypes.size (· ≠ slot) machine fun later =>
            Filled activation.views later.heap slot target (position + elements.length) values := by
  induction elements generalizing before position with
  | nil =>
      obtain ⟨_, rfl⟩ := succeeds_pure_iff.mp emitted
      exact ⟨rfl, rfl, [], .refl _, fun _ _ _ _ filled => .nil filled⟩
  | cons coordinate rest ih =>
      obtain ⟨location, middle, located, _, inside, checked, middleOwn, middleArrays, declared, pushed,
        others⟩ := of_copyElements_cons emitted
      obtain ⟨sameOwn, sameArrays, code, grows, reaches⟩ := ih others
      refine ⟨sameOwn.trans middleOwn, sameArrays.trans middleArrays, _, pushed.trans grows, ?_⟩
      intro activation machine readable slot values ready placed unread places filled
      obtain ⟨first, firstTyped⟩ := places 0 coordinate rfl
      have next := reaches_copy_next (.fixed location.absolute) (.fixed (target.offset + position))
        (ready.of_grows grows) checked placed firstTyped inside (first location located)
        (machine.points_fixed _) (machine.points_fixed _) (by simp) declared filled
      refine next.append fun between frame filledNext => ?_
      have keeps : ∀ other, readable other → other ≠ slot := by
        rintro other read rfl
        exact unread read
      rw [List.length_cons, Nat.add_comm rest.length, ← Nat.add_assoc]
      refine (reaches (ready.frame frame) placed unread ?_ filledNext).mono
        (Nat.le_of_lt declared) (fun _ different => different) fun _ _ done => done
      intro index other found
      obtain ⟨otherPlaces, otherTyped⟩ := places (index + 1) other (by simpa using found)
      rw [show position + (index + 1) = position + 1 + index by omega] at otherPlaces otherTyped
      exact ⟨otherPlaces.frame frame keeps, otherTyped⟩

/-- Gathered elements are one window: it covers their places, or it is a new array with copies
of them. -/
theorem of_gather {elements : Elements} {type : ScalarType} {window : ArrayRef}
    (emitted : Succeeds (scope.gather elements type : Emit σ ArrayRef) before window after) :
    after.2 = before.2 ∧ window.type = type ∧ window.length = elements.length ∧
      ∃ code, before.1.Grows code after.1 ∧
        ∀ {activation : Activation} {machine : Machine} {readable : Nat → Prop}
          {values : Nat → Scalar}, after.1.Ready activation.views machine →
          before.1.Apart after.1 activation.views readable →
          (∀ index coordinate, elements[index]? = some coordinate →
            scope.Places activation.views machine.heap readable coordinate (values index) ∧
              (values index).type = type) →
          activation.Reaches code before.1.valueTypes.size (¬before.1.Fresh after.1 ·) machine
            fun later => window.Shows activation.views later.heap
              (fun slot => readable slot ∨ before.1.Fresh after.1 slot) elements.length values := by
  simp only [gather, succeeds_bind_iff, Emit.succeeds_check_iff] at emitted
  obtain ⟨covered, before, ⟨covers, rfl⟩, rest⟩ := emitted
  cases covered with
  | some covering =>
      obtain ⟨rfl, rfl⟩ := succeeds_pure_iff.mp rest
      obtain ⟨typed, length, shows⟩ := shows_of_contiguous covers
      refine ⟨rfl, typed, length, [], .refl _, fun _ _ places => .nil ?_⟩
      exact (shows fun index coordinate found => (places index coordinate found).1).mono
        fun _ read => .inl read
  | none =>
      simp only [succeeds_bind_iff, Emit.succeeds_declareArray_iff, succeeds_pure_iff] at rest
      obtain ⟨_, _, ⟨rfl, rfl⟩, _, _, copied, rfl, rfl⟩ := rest
      obtain ⟨sameOwn, sameArrays, code, grows, reaches⟩ := of_copyElements copied
      have declared := Builder.Grows.withArray before.1 (.scratch type elements.length)
      refine ⟨sameOwn, rfl, rfl, _, declared.trans grows, ?_⟩
      intro activation machine readable values ready apart places
      have fresh : before.1.Fresh after.1 before.1.arrays.size := by
        refine ⟨Nat.le_refl _, ?_⟩
        simp [sameArrays, Builder.withArray]
      have placed : ∀ view, activation.views[before.1.arrays.size]? = some view →
          view.slot = before.1.arrays.size :=
        fun view viewed => (apart _ view fresh viewed).1
      have unread : ¬readable before.1.arrays.size := by
        obtain ⟨slot, view, _, viewed, _⟩ := ready.arrays before.1.arrays.size
          (.scratch type elements.length) (by simp [sameArrays, Builder.withArray])
        exact (apart _ view fresh viewed).2
      have filled := reaches ready placed unread (by simpa using places) filled_zero
      refine filled.mono (Nat.le_refl _) (fun slot old same => old (same ▸ fresh)) ?_
      intro later _ done element below
      exact (done element (by omega)).mono fun slot same => .inr (same ▸ fresh)

end Scope

end Dataflow
