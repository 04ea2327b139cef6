import Dataflow.Proofs.Native.Finishing

/-!
# Native machines that track the interpreter

As long as no call of the host fails, the memory of native code holds the buffers of the
interpreter's heap, and the variables that safe code relies on hold the words of their scalars.
Expressions, stores and windows of safe code then mean the same on both machines.
-/

namespace Dataflow.Native

/-! ## Machines that agree -/

/-- The native machine has the buffers and the calls of the interpreter's machine. -/
structure Mirrors (machine : Dataflow.Machine) (native : Machine) : Prop where
  memory : native.memory = memoryOf machine.heap
  calls : native.calls = machine.calls
  failure : native.failure = none
  small : ∀ buffer ∈ machine.heap, buffer.Small

theorem Mirrors.size_eq {machine : Dataflow.Machine} {native : Machine}
    (mirrors : Mirrors machine native) : native.memory.size = machine.heap.size := by
  simp [mirrors.memory, memoryOf]

/-- The native machine also has the words of the variables that code relies on. -/
structure Tracks (declared : Declarations) (counters : Counters) (known : Set ValueId)
    (machine : Dataflow.Machine) (native : Machine) : Prop extends Mirrors machine native where
  registers : declared.values.size ≤ native.registers.size
  known : ∀ value ∈ known, ∀ type, declared.values[value]? = some (.scalar type) → ∀ scalar : Scalar,
    machine.registers[value]? = some (some (.scalar scalar)) →
      native.registers[value]? = some (.ofScalar scalar)
  counters : ∀ counter ∈ counters.map Prod.fst, ∀ index,
    machine.registers[counter]? = some (some (.index index)) →
      native.registers[counter]? = some (.index (UInt64.ofNat index))

/-- A frame has pointers to the first elements of the views of an activation. -/
def Frame.Follows (frame : Frame) (declared : Declarations) (views : Array View) : Prop :=
  ∀ (array : ArrayId) (declaration : ArrayDeclaration) (view : View),
    declared.arrays[array]? = some declaration → views[array]? = some view →
      frame.array array = ⟨some (.element view.slot declaration.type view.offset), declaration.type⟩

/-! ## Expressions -/

section Expressions

variable {declared : Declarations} {activation : Activation} {frame : Frame} {counters : Counters}
  {known : Set ValueId} {machine : Dataflow.Machine} {native : Machine}

theorem Tracks.word_eq (tracks : Tracks declared counters known machine native) {value : ValueId}
    {type : ScalarType} {scalar : Scalar} (knows : declared.Knows known value type)
    (found : machine.registers[value]? = some (some (.scalar scalar))) :
    native.word value = .ofScalar scalar := by
  rw [Machine.word, tracks.known value knows.1 type knows.2 scalar found, Option.getD_some]

/-- The word of a result is the result of the words. -/
theorem binary_ofScalar {op : BinaryOp} {left right value : Scalar}
    (computed : op.onScalars? left right = some value) :
    (Word.ofScalar left).binary op (.ofScalar right) = .ofScalar value := by
  cases left <;> cases right <;> cases computed <;> rfl

theorem compare_ofScalar {predicate : Predicate} {left right : Scalar} {value : Bool}
    (computed : predicate.onScalars? left right = some value) :
    (Word.ofScalar left).compare predicate (.ofScalar right) = .ofScalar (.bool value) := by
  cases left with
  | f32 | f64 => cases right <;> cases computed; rfl
  | bool left =>
      cases right with
      | f32 | f64 => cases computed
      | bool right =>
          obtain rfl := Option.some.inj computed
          cases predicate <;> cases left <;> cases right <;> decide

/-- Native code finds the element that a position stands for. -/
theorem Tracks.ends_locate (tracks : Tracks declared counters known machine native)
    (follows : frame.Follows declared activation.views) (addressable : Addressable declared.arrays)
    {array : ArrayId} {position : Position} {type : ScalarType} {view : View} {buffer : Buffer}
    {element : Nat} (covers : declared.Covers counters array position type)
    (locates : machine.Locates activation.views array position view buffer element) :
    (frame.array array).type = type ∧ Ends (frame.locate array position) native
      (some (.element view.slot type (view.offset + element))) native := by
  obtain ⟨declaration, declares, rfl, inside⟩ := covers
  have base := follows array declaration view declares locates.viewed
  have small := addressable declaration (Array.mem_of_getElem? declares)
  have points := locates.points
  have short : ∀ distance : Nat, distance ≤ declaration.length →
      displacement (distance * declaration.type.byteSize) =
        UInt64.ofNat (distance * declaration.type.byteSize) := fun distance below =>
    displacement_eq (Nat.lt_of_le_of_lt (Nat.mul_le_mul_right _ below) small)
  refine ⟨by rw [base], ?_⟩
  cases position with
  | fixed position =>
      obtain rfl : position = element := points
      have below : position < declaration.length := inside
      refine ends_pure_iff.mpr ⟨?_, rfl⟩
      simp only [base, Option.map_some, short position (Nat.le_of_lt below),
        Pointer.advance_element]
  | indexed counter offset =>
      obtain ⟨index, read, rfl⟩ := points
      obtain ⟨bound, mem, upTo⟩ := inside
      have counts := tracks.counters counter (List.mem_map_of_mem mem) index read
      refine (ends_readIndex counts).bind (ends_pure_iff.mpr ⟨?_, rfl⟩)
      have near : offset ≤ declaration.length := Nat.le_trans (Nat.le_add_left _ _) upTo
      simp only [base, ArrayBase.element, Option.map_some, ← UInt64.ofNat_mul, short offset near,
        Pointer.advance_element, Nat.add_assoc]

/-- A window is passed on as a pointer to its first element. -/
theorem Frame.Follows.window_eq {views : Array View} (follows : frame.Follows declared views)
    {window : ArrayRef} {passed : View} (contains : declared.Contains window)
    (passes : Passes views window passed) :
    (frame.array window.array).type = window.type ∧ frame.window window.array window.offset =
      some (.element passed.slot window.type passed.offset) := by
  obtain ⟨declaration, declares, _, typed⟩ := contains
  obtain ⟨parent, viewed, _, rfl⟩ := passes
  have base := follows window.array declaration parent declares viewed
  refine ⟨by rw [base, typed], ?_⟩
  simp only [Frame.window, ArrayBase.element, base, Option.map_some, typed, ← UInt64.ofNat_mul,
    Pointer.advance_element]

/-- Native code evaluates a safe expression to the word of its value. -/
theorem Tracks.ends_evaluate (tracks : Tracks declared counters known machine native)
    (follows : frame.Follows declared activation.views) (addressable : Addressable declared.arrays)
    (suits : machine.Suits declared activation.views counters known) {expression : Expression}
    {type : ScalarType} {scalar : Scalar}
    (yields : declared.Yields counters known expression type)
    (gives : machine.Gives activation.views expression scalar) :
    Ends (frame.evaluate expression) native (.ofScalar scalar) native := by
  cases yields with
  | literal => cases gives with | literal => exact rfl
  | @copy source _ knows =>
      cases gives with
      | copy found =>
          have read : Ends (frame.evaluate (.copy source)) native (native.word source) native := rfl
          rwa [tracks.word_eq knows found] at read
  | @load array position _ covers =>
      cases gives with
      | @load _ _ view buffer element locates =>
          obtain ⟨typed, located⟩ := tracks.ends_locate follows addressable covers locates
          obtain rfl := suits.type_of_locates covers locates
          have read : Ends (frame.evaluate (.load array position)) native
              (native.memory.load (frame.array array).type
                (some (.element view.slot buffer.type (view.offset + element)))) native :=
            located.bind rfl
          rwa [typed, tracks.memory, load_memoryOf locates.stored
            (tracks.small buffer (Array.mem_of_getElem? locates.stored)) locates.room] at read
  | @binary op left right _ leftKnows rightKnows =>
      cases gives with
      | binary leftFound rightFound computed =>
          have read : Ends (frame.evaluate (.binary op left right)) native
              ((native.word left).binary op (native.word right)) native := rfl
          rwa [tracks.word_eq leftKnows leftFound, tracks.word_eq rightKnows rightFound,
            binary_ofScalar computed] at read
  | @compare predicate left right _ leftKnows rightKnows =>
      cases gives with
      | compare leftFound rightFound computed =>
          have read : Ends (frame.evaluate (.compare predicate left right)) native
              ((native.word left).compare predicate (native.word right)) native := rfl
          rwa [tracks.word_eq leftKnows leftFound, tracks.word_eq rightKnows rightFound,
            compare_ofScalar computed] at read

/-- Native code stores what the interpreter stores. -/
theorem Tracks.ends_store (tracks : Tracks declared counters known machine native)
    (follows : frame.Follows declared activation.views) (addressable : Addressable declared.arrays)
    (suits : machine.Suits declared activation.views counters known) {array : ArrayId}
    {position : Position} {value : ValueId} {type : ScalarType} {view : View} {buffer : Buffer}
    {element : Nat} {scalar : Scalar} (covers : declared.Covers counters array position type)
    (knows : declared.Knows known value type)
    (locates : machine.Locates activation.views array position view buffer element)
    (found : machine.registers[value]? = some (some (.scalar scalar))) (typed : scalar.type = type) :
    Ends (frame.execute (.store array position value)) native ()
      { native with
        memory := memoryOf
          (machine.heap.modify view.slot (·.set (view.offset + element) scalar)) } := by
  obtain ⟨_, located⟩ := tracks.ends_locate follows addressable covers locates
  obtain rfl := suits.type_of_locates covers locates
  have stored : Ends (frame.execute (.store array position value)) native ()
      { native with
        memory := native.memory.store
          (some (.element view.slot buffer.type (view.offset + element))) (native.word value) } :=
    (ends_readValue native value).bind (located.bind rfl)
  rwa [tracks.word_eq knows found, tracks.memory, store_memoryOf locates.stored
    (tracks.small buffer (Array.mem_of_getElem? locates.stored)) locates.room typed] at stored

/-- Native code hands the host what the interpreter hands it. -/
theorem Tracks.ends_hostValues (tracks : Tracks declared counters known machine native)
    (follows : frame.Follows declared activation.views) {window : ArrayRef} {passed : View}
    {buffer part : Buffer} (contains : declared.Contains window)
    (passes : Passes activation.views window passed)
    (stored : machine.heap[passed.slot]? = some buffer) (typed : buffer.type = window.type)
    (room : passed.offset + passed.length ≤ buffer.size)
    (sliced : buffer.slice? passed.offset (passed.offset + passed.length) = some part) :
    Ends ([Argument.window window.array window.offset window.length].mapM frame.hostValue) native
      [.array part] native := by
  have read := Native.ends_hostValues frame native window
  obtain ⟨other, otherSliced, partType, partSize, elements⟩ :=
    buffer.exists_slice? (Nat.le_add_right passed.offset passed.length) room
  obtain rfl := Option.some.inj (sliced.symm.trans otherSliced)
  rw [Nat.add_sub_cancel_left] at partSize elements
  obtain ⟨sameType, pointer⟩ := follows.window_eq contains passes
  have many := loadMany_memoryOf stored
    (tracks.small buffer (Array.mem_of_getElem? stored)) room partType partSize elements
  rw [passes.length_eq] at many
  rwa [sameType, pointer, tracks.memory, ← typed, many] at read

end Expressions

/-! ## Steps -/

section Steps

variable {declared : Declarations} {counters : Counters} {known : Set ValueId}
  {machine later : Dataflow.Machine} {native after : Machine}

theorem small_of_alike (alike : machine.Alike later) (small : ∀ buffer ∈ machine.heap, buffer.Small) :
    ∀ buffer ∈ later.heap, buffer.Small := by
  intro changed mem
  obtain ⟨slot, found⟩ := Array.mem_iff_getElem?.mp mem
  obtain ⟨bound, _⟩ := Array.getElem?_eq_some_iff.mp found
  have stored := Array.getElem?_eq_getElem (alike.size_heap ▸ bound)
  obtain ⟨other, otherFound, type, size⟩ := alike.shapes slot _ stored
  obtain rfl := Option.some.inj (found.symm.trans otherFound)
  rw [Buffer.Small, type, size]
  exact small _ (Array.mem_of_getElem? stored)

theorem Tracks.mono {fewer : Set ValueId} (tracks : Tracks declared counters known machine native)
    (subset : fewer ⊆ known) : Tracks declared counters fewer machine native :=
  { tracks with known := fun value mem => tracks.known value (subset mem) }

theorem Tracks.drop {counter : ValueId × Nat}
    (tracks : Tracks declared (counter :: counters) known machine native) :
    Tracks declared counters known machine native :=
  { tracks with counters := fun other mem => tracks.counters other (List.mem_cons_of_mem _ mem) }

/-- Tracking depends on the variables, besides on the buffers and calls. -/
theorem Tracks.of_mirrors (tracks : Tracks declared counters known machine native)
    (mirrors : Mirrors later after) (registers : later.registers = machine.registers)
    (words : after.registers = native.registers) : Tracks declared counters known later after where
  toMirrors := mirrors
  registers := words ▸ tracks.registers
  known := by
    rw [registers, words]
    exact tracks.known
  counters := by
    rw [registers, words]
    exact tracks.counters

theorem Tracks.write (tracks : Tracks declared counters known machine native) {target : ValueId}
    {scalar : Scalar} (declares : declared.values[target]? = some (.scalar scalar.type))
    (room : target < machine.registers.size) (free : target ∉ counters.map Prod.fst) :
    Tracks declared counters (insert target known) (machine.write target scalar)
      (native.write target (.ofScalar scalar)) where
  toMirrors := { tracks.toMirrors with memory := tracks.memory }
  registers := native.size_registers_write target _ ▸ tracks.registers
  known value mem type typed other found := by
    have inside : target < native.registers.size :=
      Nat.lt_of_lt_of_le (Array.getElem?_eq_some_iff.mp declares).1 tracks.registers
    rw [machine.registers_write _ room] at found
    rw [native.registers_write _ inside]
    split
    · rename_i same
      rw [if_pos same, Option.some.injEq, Option.some.injEq] at found
      cases found
      rfl
    · rename_i different
      rw [if_neg different] at found
      exact tracks.known value (Set.mem_of_mem_insert_of_ne mem different) type typed other found
  counters counter mem index found := by
    have inside : target < native.registers.size :=
      Nat.lt_of_lt_of_le (Array.getElem?_eq_some_iff.mp declares).1 tracks.registers
    have different : counter ≠ target := by
      rintro rfl
      exact free mem
    rw [machine.registers_write _ room, if_neg different] at found
    rw [native.registers_write _ inside, if_neg different]
    exact tracks.counters counter mem index found

/-- At the start of a turn, the counter of native code is that of the interpreter already. -/
theorem Tracks.count (tracks : Tracks declared counters known machine native)
    {counter stop index : Nat} (counts : declared.values[counter]? = some .index)
    (room : counter < machine.registers.size)
    (word : native.registers[counter]? = some (.index (UInt64.ofNat index))) :
    Tracks declared ((counter, stop) :: counters) known (machine.write counter (.index index))
      native where
  toMirrors := { tracks.toMirrors with memory := tracks.memory }
  registers := tracks.registers
  known value mem type typed scalar found := by
    have different : value ≠ counter := by
      rintro rfl
      simp [counts] at typed
    rw [machine.registers_write _ room, if_neg different] at found
    exact tracks.known value mem type typed scalar found
  counters other mem position found := by
    rw [machine.registers_write _ room] at found
    by_cases same : other = counter
    · rw [if_pos same, Option.some.injEq, Option.some.injEq] at found
      cases found
      rw [same, word]
    · rw [if_neg same] at found
      rcases List.mem_cons.mp mem with here | earlier
      · exact absurd here same
      · exact tracks.counters other earlier position found

/-- What native code writes to the counter of no loop, and to no known variable, does not matter. -/
theorem Tracks.skip {counter : Nat} {word : Word}
    (tracks : Tracks declared counters known machine native)
    (counts : declared.values[counter]? = some .index) (free : counter ∉ counters.map Prod.fst) :
    Tracks declared counters known machine (native.write counter word) where
  toMirrors := { tracks.toMirrors with memory := tracks.memory }
  registers := native.size_registers_write counter _ ▸ tracks.registers
  known value mem type typed scalar found := by
    have different : counter ≠ value := by
      rintro rfl
      simp [counts] at typed
    simpa [Machine.write, different] using tracks.known value mem type typed scalar found
  counters other mem index found := by
    have different : counter ≠ other := by
      rintro rfl
      exact free mem
    simpa [Machine.write, different] using
      tracks.counters other mem index found

end Steps

end Dataflow.Native
