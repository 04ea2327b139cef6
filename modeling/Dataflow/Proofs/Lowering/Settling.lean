import Dataflow.Proofs.Lowering.Nodes
import Dataflow.Proofs.Routine.Settling

/-!
# What the code of a node can settle

The code of a node reads the places of its inputs, or copies of them in arrays that it declares for
itself.  Where the places of the inputs are settled, so is what the site answers; and an output waits
for its elements while inputs are gathered.
-/

namespace Dataflow

/-! ## Windows that are filled -/

namespace Surroundings

variable {around : Surroundings} {window : ArrayRef} {settled : Set Cell}

/-- The first cells of a window. -/
def part (around : Surroundings) (window : ArrayRef) (count : Nat) : Set Cell :=
  {cell | ∃ element < count, around.cell window element = cell}

@[simp]
theorem part_zero : around.part window 0 = ∅ := by
  simp [part]

theorem part_succ (count : Nat) :
    around.part window (count + 1) = insert (around.cell window count) (around.part window count) := by
  ext cell
  simp only [part, Set.mem_ofPred_eq, Set.mem_insert_iff, Nat.lt_succ_iff_lt_or_eq]
  constructor
  · rintro ⟨element, below | rfl, rfl⟩
    · exact .inr ⟨element, below, rfl⟩
    · exact .inl rfl
  · rintro (rfl | ⟨element, below, rfl⟩)
    · exact ⟨count, .inr rfl, rfl⟩
    · exact ⟨element, .inl below, rfl⟩

theorem insert_union_part (count : Nat) :
    insert (around.cell window count) (settled ∪ around.part window count) =
      settled ∪ around.part window (count + 1) := by
  rw [part_succ, Set.union_insert]

theorem mem_part {element count : Nat} (below : element < count) :
    around.cell window element ∈ around.part window count :=
  ⟨element, below, rfl⟩

/-- The next cell of a window is not among the first ones. -/
theorem not_mem_union_part {count : Nat} (free : around.cell window count ∉ settled) :
    around.cell window count ∉ settled ∪ around.part window count := by
  rintro (mem | ⟨element, below, same⟩)
  · exact free mem
  · have equal : element = count := by simpa [cell] using same
    exact Nat.lt_irrefl _ (equal ▸ below)

/-- Each array begins in a slot of its own. -/
def Plain (around : Surroundings) : Prop :=
  ∀ array, around.origin array = ⟨array, 0⟩

/-- The cell of a place. -/
def place (around : Surroundings) (location : Location) : Cell :=
  around.cell location.window location.position

end Surroundings

/-- The places of elements, as far as they have places, are settled. -/
def Scope.Offers (scope : Scope) (around : Surroundings) (settled : Set Cell) (elements : Elements) :
    Prop :=
  ∀ coordinate ∈ elements, ∀ location, scope.locate coordinate = .ok location →
    around.place location ∈ settled

theorem Scope.Offers.mono {scope : Scope} {around : Surroundings} {settled more : Set Cell}
    {elements : Elements} (offers : scope.Offers around settled elements) (subset : settled ⊆ more) :
    scope.Offers around more elements :=
  fun coordinate mem location located => subset (offers coordinate mem location located)

/-! ## Arrays that are declared -/

/-- The slots of the zeroed arrays that a routine has declared while it grew. -/
def Builder.Scratch (before after : Builder) (slot : Nat) : Prop :=
  before.arrays.size ≤ slot ∧ ∃ type length, after.arrays[slot]? = some (.scratch type length)

section Scratch

variable {before between after : Builder} {code rest : List Instruction} {slot : Nat}

theorem Builder.Scratch.lt (scratch : before.Scratch after slot) : slot < after.arrays.size := by
  obtain ⟨_, type, length, declared⟩ := scratch
  exact (Array.getElem?_eq_some_iff.mp declared).1

theorem Builder.Scratch.mono_left (grows : before.Grows code between)
    (scratch : between.Scratch after slot) : before.Scratch after slot :=
  ⟨Nat.le_trans grows.arrays_le scratch.1, scratch.2⟩

theorem Builder.Scratch.mono_right (grows : between.Grows rest after)
    (scratch : before.Scratch between slot) : before.Scratch after slot := by
  have inside := scratch.lt
  obtain ⟨above, type, length, declared⟩ := scratch
  exact ⟨above, type, length, (grows.getElem?_arrays inside).trans declared⟩

theorem Builder.Scratch.not_later (scratch : before.Scratch between slot) :
    ¬between.Scratch after slot :=
  fun later => Nat.not_lt.mpr later.1 scratch.lt

theorem Builder.not_scratch_of_arrays_eq (same : after.arrays = before.arrays) :
    ¬before.Scratch after slot :=
  fun scratch => Nat.not_lt.mpr scratch.1 (same ▸ scratch.lt)

theorem Builder.scratch_withArray (builder : Builder) (type : ScalarType) (length : Nat) :
    builder.Scratch (builder.withArray (.scratch type length)) builder.arrays.size :=
  ⟨Nat.le_refl _, type, length, by simp [withArray]⟩

end Scratch

/-- No cell of an array that is declared while a routine grows is settled before. -/
def Builder.Spares (before after : Builder) (settled : Set Cell) : Prop :=
  ∀ cell ∈ settled, ¬before.Scratch after cell.slot

/-- A routine has grown by code that settles cells of arrays that it declares, and of its own. -/
structure Builder.Gains (around : Surroundings) (turns : Turns) (before : Builder)
    (settled : Set Cell) (after : Builder) (later own : Set Cell) : Prop where
  settles : before.Settles around turns settled after later
  subset : settled ⊆ later
  fresh : ∀ cell ∈ later, cell ∈ settled ∨ before.Scratch after cell.slot ∨ cell ∈ own

section Gaining

variable {around : Surroundings} {turns : Turns} {before between after : Builder}
  {settled middle later own : Set Cell}

theorem Builder.Settles.exists_grows (settles : before.Settles around turns settled after later) :
    ∃ code, before.Grows code after :=
  settles.imp fun _ done => done.1

theorem Builder.Gains.of_settles (settles : before.Settles around turns settled after settled) :
    before.Gains around turns settled after settled own :=
  ⟨settles, subset_rfl, fun _ mem => .inl mem⟩

theorem Builder.Gains.refl (builder : Builder) (settled : Set Cell) :
    builder.Gains around turns settled builder settled own :=
  .of_settles (.refl builder settled)

/-- Code that settles nothing but its own cells. -/
theorem Builder.Gains.of_own (settles : before.Settles around turns settled after (settled ∪ own)) :
    before.Gains around turns settled after (settled ∪ own) own :=
  ⟨settles, Set.subset_union_left, fun _ mem => mem.imp_right .inr⟩

theorem Builder.Gains.mono {more : Set Cell}
    (gains : before.Gains around turns settled after later own) (subset : own ⊆ more) :
    before.Gains around turns settled after later more :=
  ⟨gains.settles, gains.subset, fun cell mem =>
    (gains.fresh cell mem).imp_right (Or.imp_right fun mine => subset mine)⟩

theorem Builder.Gains.trans (first : before.Gains around turns settled between middle own)
    (second : between.Gains around turns middle after later own) :
    before.Gains around turns settled after later own := by
  obtain ⟨_, grows⟩ := first.settles.exists_grows
  obtain ⟨_, restGrows⟩ := second.settles.exists_grows
  refine ⟨first.settles.trans second.settles, first.subset.trans second.subset, fun cell mem => ?_⟩
  rcases second.fresh cell mem with earlier | scratch | mine
  · rcases first.fresh cell earlier with before | scratch | mine
    · exact .inl before
    · exact .inr (.inl (scratch.mono_right restGrows))
    · exact .inr (.inr mine)
  · exact .inr (.inl (scratch.mono_left grows))
  · exact .inr (.inr mine)

/-- What is declared later is spared, if it was spared at first and does not belong to the code. -/
theorem Builder.Gains.spares (gains : before.Gains around turns settled between middle own)
    (spares : before.Spares after settled) (outside : ∀ cell ∈ own, ¬between.Scratch after cell.slot) :
    between.Spares after middle := by
  obtain ⟨_, grows⟩ := gains.settles.exists_grows
  intro cell mem scratch
  rcases gains.fresh cell mem with earlier | declared | mine
  · exact spares cell earlier (scratch.mono_left grows)
  · exact declared.not_later scratch
  · exact outside cell mine scratch

theorem Builder.Spares.left {rest : List Instruction} (spares : before.Spares after settled)
    (grows : between.Grows rest after) : before.Spares between settled :=
  fun cell mem scratch => spares cell mem (scratch.mono_right grows)

end Gaining

/-! ## Filling windows -/

namespace Emit

variable {σ : Type} {before after : Builder × σ} {value : ValueId} {result : Unit}
  {around : Surroundings} {turns : Turns} {settled : Set Cell} {window : ArrayRef}

/-- A store to the next element of a window. -/
theorem settles_storeNext {index : Index} {position : Nat}
    (emitted : Succeeds (store window index value : Emit σ Unit) before result after)
    (names : index.Names turns position) (free : around.cell window position ∉ settled) :
    before.1.Settles around turns (settled ∪ around.part window position) after.1
      (settled ∪ around.part window (position + 1)) := by
  rw [← Surroundings.insert_union_part]
  exact settles_store emitted names (Surroundings.not_mem_union_part free)

/-- A loop fills a window, if each of its turns settles the next element. -/
theorem settles_fillLoop {size : Nat} {body : ValueId → Emit σ Unit}
    (emitted : Succeeds (loop 0 size body) before result after)
    (turn : ∀ {inner : Builder × σ},
      Succeeds (body before.1.valueTypes.size) ((before.1.withValue .index).openBlock, before.2) ()
        inner →
      (∃ code, (before.1.withValue .index).openBlock.Grows code inner.1) ∧
        ∀ index < size, (before.1.withValue .index).openBlock.Settles around
          ((before.1.valueTypes.size, index) :: turns) (settled ∪ around.part window index) inner.1
            (settled ∪ around.part window (index + 1))) :
    before.1.Settles around turns settled after.1 (settled ∪ around.part window size) := by
  have filled := settles_loop (fun index => settled ∪ around.part window index) emitted turn
  rwa [Surroundings.part_zero, Set.union_empty] at filled

end Emit

/-! ## Reading elements -/

namespace Scope

variable {σ : Type} {scope : Scope} {before after : Builder × σ} {value : ValueId} {result : Unit}
  {around : Surroundings} {turns : Turns} {settled : Set Cell} {elements : Elements}

theorem settles_load {coordinate : Coordinate}
    (emitted : Succeeds (scope.load coordinate : Emit σ ValueId) before value after)
    (offers : ∀ location, scope.locate coordinate = .ok location → around.place location ∈ settled) :
    before.1.Settles around turns settled after.1 settled := by
  simp only [load, succeeds_bind_iff, Emit.succeeds_check_iff] at emitted
  obtain ⟨location, _, ⟨located, rfl⟩, loaded⟩ := emitted
  exact Emit.settles_load loaded rfl (offers location located)

/-- Copying elements settles the next cells of a window.  The induction is on the elements that are
left. -/
theorem settles_copyElements {target : ArrayRef} {position : Nat}
    (emitted : Succeeds (scope.copyElements target position elements : Emit σ Unit) before result
      after)
    (offers : scope.Offers around settled elements)
    (free : ∀ element < position + elements.length, around.cell target element ∉ settled) :
    before.1.Settles around turns (settled ∪ around.part target position) after.1
      (settled ∪ around.part target (position + elements.length)) := by
  induction elements generalizing before position with
  | nil =>
      obtain ⟨_, rfl⟩ := succeeds_pure_iff.mp emitted
      exact .refl _ _
  | cons coordinate rest ih =>
      simp only [copyElements, succeeds_bind_iff] at emitted
      obtain ⟨value, _, loaded, _, _, stored, others⟩ := emitted
      obtain ⟨here, later⟩ := List.forall_mem_cons.mp offers
      rw [List.length_cons] at free ⊢
      have names : Index.Names turns position (.fixed position) := rfl
      have kept := Emit.settles_storeNext stored names (free position (by omega))
      rw [show position + (rest.length + 1) = position + 1 + rest.length by omega] at free ⊢
      refine (settles_load loaded fun location located => ?_).trans (kept.trans (ih others later free))
      exact .inl (here location located)

/-- A window over settled places is settled. -/
theorem settled_of_contiguous {type : ScalarType} {window : ArrayRef}
    (covered : scope.contiguous elements type = .ok (some window))
    (offers : scope.Offers around settled elements) :
    ∀ element < window.length, around.cell window element ∈ settled := by
  simp only [contiguous, bind_eq_ok_iff, pure_eq_ok_iff] at covered
  obtain ⟨locations, located, covers⟩ := covered
  obtain ⟨_, length, each⟩ := location_of_windowOver? covers
  intro element below
  rw [length] at below
  obtain ⟨coordinate, found, placed⟩ :=
    exists_getElem?_right (mapM_eq_ok_iff.mp located) (List.getElem?_eq_getElem below)
  obtain ⟨array, absolute⟩ := each element _ (List.getElem?_eq_getElem below)
  have mem := offers coordinate (List.mem_of_getElem? found) _ placed
  rwa [Surroundings.place, Surroundings.cell, array, ← Location.absolute, absolute] at mem

/-- Gathered elements are one settled window. -/
theorem gains_gather {type : ScalarType} {window : ArrayRef}
    (emitted : Succeeds (scope.gather elements type : Emit σ ArrayRef) before window after)
    (plain : around.Plain) (offers : scope.Offers around settled elements)
    (spares : before.1.Spares after.1 settled) :
    ∃ later, before.1.Gains around turns settled after.1 later ∅ ∧
      ∀ element < window.length, around.cell window element ∈ later := by
  simp only [gather, succeeds_bind_iff, Emit.succeeds_check_iff] at emitted
  obtain ⟨covered, before, ⟨covers, rfl⟩, rest⟩ := emitted
  cases covered with
  | some covering =>
      obtain ⟨rfl, rfl⟩ := succeeds_pure_iff.mp rest
      exact ⟨settled, .refl _ _, settled_of_contiguous covers offers⟩
  | none =>
      simp only [succeeds_bind_iff, Emit.succeeds_declareArray_iff, succeeds_pure_iff] at rest
      obtain ⟨_, _, ⟨rfl, rfl⟩, _, _, copied, rfl, rfl⟩ := rest
      obtain ⟨_, _, _, grows, _⟩ := of_copyElements copied
      have scratch : before.1.Scratch after.1 before.1.arrays.size :=
        (before.1.scratch_withArray type elements.length).mono_right grows
      have slot : ∀ element, (around.cell ⟨before.1.arrays.size, type, 0, elements.length⟩
          element).slot = before.1.arrays.size := by simp [Surroundings.cell, plain _]
      have copies : (before.1.withArray _).Settles around turns _ after.1 _ :=
        settles_copyElements copied offers
          fun element _ mem => spares _ mem ((slot element).symm ▸ scratch)
      rw [Surroundings.part_zero, Set.union_empty, Nat.zero_add] at copies
      refine ⟨_, ⟨(Builder.Settles.of_grows (.withArray _ _)).trans copies, Set.subset_union_left, ?_⟩,
        fun element below => .inr (Surroundings.mem_part below)⟩
      rintro cell (mem | ⟨element, _, rfl⟩)
      · exact .inl mem
      · exact .inr (.inl ((slot element).symm ▸ scratch))

end Scope

/-! ## Inputs and outputs -/

namespace Site

variable {site : Site} {before after : Builder × Lowering} {value : ValueId} {done : Unit}
  {around : Surroundings} {turns : Turns} {settled : Set Cell}

/-- What the site reads is settled: the places of the inputs in the entry routine, or the parameters
of the inputs in a subroutine. -/
def Offers (site : Site) (around : Surroundings) (settled : Set Cell) (scope : Scope) : Prop :=
  match site.placement with
  | .inline => around.Plain ∧ ∀ port ∈ site.inputs, scope.Offers around settled port.elements
  | .subroutine => ∀ (index : Nat) (port : InputPort), site.inputs[index]? = some port →
      ∀ element < port.size, around.cell (inputParameter index port) element ∈ settled

theorem Offers.mono {scope : Scope} {more : Set Cell} (offers : site.Offers around settled scope)
    (subset : settled ⊆ more) : site.Offers around more scope := by
  unfold Offers at offers ⊢
  split at offers
  · exact ⟨offers.1, fun port mem => (offers.2 port mem).mono subset⟩
  · exact fun index port found element below => subset (offers index port found element below)

theorem settles_inputElement {index element : Nat}
    (emitted : Succeeds (site.inputElement index element) before value after)
    (offers : site.Offers around settled before.2.scope) :
    before.1.Settles around turns settled after.1 settled := by
  simp only [inputElement, succeeds_bind_iff, Emit.succeeds_check_iff] at emitted
  obtain ⟨port, before, ⟨ported, rfl⟩, rest⟩ := emitted
  have inside := inputPort_eq_ok_iff.mp ported
  unfold Offers at offers
  cases placed : site.placement with
  | inline =>
      simp only [placed] at rest offers
      split at rest
      · rename_i coordinate found
        simp only [succeeds_bind_iff, Lower.succeeds_scope_iff] at rest
        obtain ⟨_, before, ⟨rfl, rfl⟩, loaded⟩ := rest
        exact Scope.settles_load loaded
          (offers.2 port (List.mem_of_getElem? inside) coordinate (List.mem_of_getElem? found))
      · exact absurd rest not_succeeds_throw
  | subroutine =>
      simp only [placed] at rest offers
      obtain ⟨_, positioned, _, _⟩ := Emit.of_load rest
      obtain ⟨below, _⟩ := Builder.position_fixed_eq_ok_iff.mp positioned
      exact Emit.settles_load rest rfl (offers index port inside element below)

theorem gains_inputArray {index : Nat} {window : ArrayRef}
    (emitted : Succeeds (site.inputArray index) before window after)
    (offers : site.Offers around settled before.2.scope) (spares : before.1.Spares after.1 settled) :
    ∃ later, before.1.Gains around [] settled after.1 later ∅ ∧
      ∀ element < window.length, around.cell window element ∈ later := by
  simp only [inputArray, succeeds_bind_iff, Emit.succeeds_check_iff] at emitted
  obtain ⟨port, before, ⟨ported, rfl⟩, rest⟩ := emitted
  have inside := inputPort_eq_ok_iff.mp ported
  unfold Offers at offers
  cases placed : site.placement with
  | inline =>
      simp only [placed, succeeds_bind_iff, Lower.succeeds_scope_iff] at rest offers
      obtain ⟨_, before, ⟨rfl, rfl⟩, gathered⟩ := rest
      exact Scope.gains_gather gathered offers.1 (offers.2 port (List.mem_of_getElem? inside)) spares
  | subroutine =>
      simp only [placed] at rest offers
      obtain ⟨rfl, rfl⟩ := succeeds_pure_iff.mp rest
      exact ⟨settled, .refl _ _, offers index port inside⟩

/-- An output waits for its elements from a position on: their cells are not settled, and its array
is declared already. -/
structure Awaits (around : Surroundings) (settled : Set Cell) (output : ArrayRef) (first : Nat)
    (before after : Builder) : Prop where
  free : ∀ element, first ≤ element → around.cell output element ∉ settled
  declared : ¬before.Scratch after (around.origin output.array).slot

/-- An output waits while inputs are gathered. -/
theorem Awaits.of_gains {before between after : Builder} {later : Set Cell} {output : ArrayRef}
    {first : Nat} {rest : List Instruction} (awaits : Awaits around settled output first before after)
    (gains : before.Gains around turns settled between later ∅) (grows : between.Grows rest after) :
    Awaits around later output first between after where
  free element above mem := by
    rcases gains.fresh _ mem with earlier | scratch | impossible
    · exact awaits.free element above earlier
    · exact awaits.declared (scratch.mono_right grows)
    · exact impossible
  declared scratch := by
    obtain ⟨_, first⟩ := gains.settles.exists_grows
    exact awaits.declared (scratch.mono_left first)

/-- The array of the output. -/
def target (site : Site) (builder : Builder) (port : OutputPort) : ArrayRef :=
  match site.placement with
  | .inline => ⟨builder.arrays.size, port.type, 0, port.size⟩
  | .subroutine => site.outputParameter 0 port

/-- The node can be lowered: its output has no place yet and waits for its elements, or is a parameter
that does; its inputs belong to other nodes and can be read; and what is settled lies in arrays that are
declared already. -/
structure Prepared (site : Site) (around : Surroundings) (settled : Set Cell)
    (before : Builder × Lowering) (final : Builder) : Prop where
  unbound : site.placement = .inline → before.2.scope.binding? (site.port 0) = none
  earlier : ∀ input ∈ site.inputs, ∀ coordinate ∈ input.elements, coordinate.node ≠ site.node
  offers : site.Offers around settled before.2.scope
  spares : before.1.Spares final settled
  awaits : site.placement = .subroutine → ∀ port, site.outputs[0]? = some port →
    Awaits around settled (site.outputParameter 0 port) 0 before.1 final

/-- The code of the node settles its output. -/
def Produces (site : Site) (around : Surroundings) (settled : Set Cell)
    (before after : Builder × Lowering) : Prop :=
  ∃ port later, site.outputs[0]? = some port ∧
    before.1.Gains around [] settled after.1 later
      (around.part (site.target before.1 port) port.size) ∧
    around.part (site.target before.1 port) port.size ⊆ later

/-- The array of the output is declared, or is a parameter.  It waits for its elements, and the inputs
can be read as before. -/
theorem awaits_of_outputArray {output : ArrayRef} {final : Builder} {rest : List Instruction}
    (emitted : Succeeds (site.outputArray 0) before output after)
    (grows : after.1.Grows rest final)
    (prepared : site.Prepared around settled before final) :
    before.1.Grows [] after.1 ∧ site.Offers around settled after.2.scope ∧
      after.1.Spares final settled ∧
      ∃ port, site.outputs[0]? = some port ∧ output = site.target before.1 port ∧
        Awaits around settled output 0 after.1 final := by
  obtain ⟨unbound, earlier, offers, spares, awaits⟩ := prepared
  obtain ⟨port, ported, typed, offset, length, placement⟩ := of_outputArray emitted unbound
  obtain ⟨array, type, start, size⟩ := output
  simp only at typed offset length
  subst typed offset length
  unfold Offers target at *
  cases placed : site.placement with
  | inline =>
      simp only [placed] at placement offers ⊢
      obtain ⟨rfl, rfl⟩ := placement
      have declares := Builder.Grows.withArray before.1 (.scratch port.type port.size)
      have scratch := before.1.scratch_withArray port.type port.size
      refine ⟨declares, ⟨offers.1, fun input mem coordinate inside => ?_⟩,
        fun cell mem later => spares cell mem (later.mono_left declares), port, ported, rfl, ?_⟩
      · have different : coordinate.output ≠ site.port 0 := fun same =>
          earlier input mem coordinate inside (congrArg OutputRef.node same)
        rw [Scope.bindArray, Scope.locate_bind_of_ne different]
        exact offers.2 input mem coordinate inside
      · refine ⟨fun element _ mem => spares _ mem ?_, ?_⟩
        · rw [Surroundings.cell, offers.1]
          exact scratch.mono_right grows
        · rw [offers.1]
          exact scratch.not_later
  | subroutine =>
      simp only [placed] at placement offers ⊢
      obtain ⟨rfl, rfl⟩ := placement
      exact ⟨.refl _, offers, spares, port, ported, rfl, awaits placed port ported⟩

end Site

end Dataflow
