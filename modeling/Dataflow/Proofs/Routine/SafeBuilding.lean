import Dataflow.Proofs.Routine.Safety

/-!
# Building safe code

The checks of a builder are what the rules of safe code ask for.  An emitter action that succeeds
adds code that is safe, provided that the variables it was given have scalars at this point, and
that loops stay inside the windows that their bodies go through.
-/

namespace Dataflow

/-! ## Code that was added -/

/-- What code that was added to a routine refers to. -/
def Builder.declarations (builder : Builder) (callees : String → List Parameter → Prop) :
    Declarations :=
  ⟨builder.valueTypes, builder.arrays, callees⟩

/-- A routine has grown by code that is safe where some variables are known, and makes others known.
The loops around the code count with variables that were declared before it. -/
def Builder.Adds (callees : String → List Parameter → Prop) (counters : Counters) (before : Builder)
    (known : Set ValueId) (after : Builder) (later : Set ValueId) : Prop :=
  ∃ code, before.Grows code after ∧
    ((∀ counter ∈ counters.map Prod.fst, counter < before.valueTypes.size) →
      (after.declarations callees).Safe counters known code later)

section Adding

variable {callees more : String → List Parameter → Prop} {counters : Counters}
  {before between after : Builder} {known later last : Set ValueId} {code : List Instruction}

theorem Builder.Grows.extends (grows : before.Grows code after)
    (others : ∀ name parameters, callees name parameters → more name parameters) :
    (before.declarations callees).Extends (after.declarations more) where
  values value type found := by
    obtain ⟨suffix, values⟩ := grows.values_prefix
    obtain ⟨bound, _⟩ := Array.getElem?_eq_some_iff.mp found
    simp only [declarations] at found bound ⊢
    rw [← Array.getElem?_toList] at found ⊢
    rw [← values, List.getElem?_append_left (by simpa using bound), found]
  arrays array declaration found := by
    obtain ⟨bound, _⟩ := Array.getElem?_eq_some_iff.mp found
    exact (grows.getElem?_arrays bound).trans found
  callees := others

theorem Builder.Adds.of_grows (grows : before.Grows [] after) (subset : later ⊆ known) :
    before.Adds callees counters known after later :=
  ⟨[], grows, fun _ => .nil subset⟩

theorem Builder.Adds.refl (builder : Builder) (known : Set ValueId) :
    builder.Adds callees counters known builder known :=
  .of_grows (.refl builder) subset_rfl

theorem Builder.Adds.trans (first : before.Adds callees counters known between later)
    (second : between.Adds callees counters later after last) :
    before.Adds callees counters known after last := by
  obtain ⟨code, grows, safe⟩ := first
  obtain ⟨rest, restGrows, restSafe⟩ := second
  refine ⟨code ++ rest, grows.trans restGrows, fun below => ?_⟩
  have extended : (between.declarations callees).Extends (after.declarations callees) :=
    restGrows.extends fun _ _ callee => callee
  refine ((safe below).extend extended).append (restSafe fun counter mem => ?_)
  exact Nat.lt_of_lt_of_le (below counter mem) grows.values_le

theorem Builder.Adds.weaken {fewer : Set ValueId}
    (adds : before.Adds callees counters known after later) (subset : fewer ⊆ later) :
    before.Adds callees counters known after fewer := by
  obtain ⟨code, grows, safe⟩ := adds
  exact ⟨code, grows, fun below => (safe below).weaken subset⟩

/-- A window that has passed its check passes it later as well. -/
theorem Builder.Adds.checkArray {window : ArrayRef}
    (adds : before.Adds callees counters known after later)
    (checked : before.checkArray window = .ok ()) : after.checkArray window = .ok () := by
  obtain ⟨code, grows, _⟩ := adds
  obtain ⟨declaration, declared, fits⟩ := Builder.checkArray_eq_ok_iff.mp checked
  obtain ⟨bound, _⟩ := Array.getElem?_eq_some_iff.mp declared
  exact Builder.checkArray_eq_ok_iff.mpr
    ⟨declaration, (grows.getElem?_arrays bound).trans declared, fits⟩

/-- A new variable gets the value of an expression. -/
theorem Builder.adds_define {type : ScalarType} {expression : Expression}
    (yields : (before.declarations callees).Yields counters known expression type) :
    before.Adds callees counters known (before.define type expression)
      (insert before.valueTypes.size known) := by
  have grows := Grows.define before type expression
  refine ⟨_, grows, fun below => ?_⟩
  have extended : (before.declarations callees).Extends
      ((before.define type expression).declarations callees) := grows.extends fun _ _ callee => callee
  refine .assign (extended.yields yields) ?_ (fun mem => ?_) (.nil subset_rfl)
  · simp [declarations, define]
  · exact Nat.lt_irrefl _ (below _ mem)

/-- An instruction that safe code can start with. -/
theorem Builder.adds_push {instruction : Instruction}
    (safe : (∀ counter ∈ counters.map Prod.fst, counter < before.valueTypes.size) →
      (before.declarations callees).Safe counters known [instruction] later) :
    before.Adds callees counters known (before.push instruction) later :=
  ⟨_, .push before instruction, safe⟩

end Adding

/-! ## Checks -/

section Checks

variable {builder : Builder} {value : ValueId} {known : Set ValueId} {counters : Counters}
  {callees : String → List Parameter → Prop} {window : ArrayRef}

theorem Builder.contains_of_checkArray (checked : builder.checkArray window = .ok ()) :
    (builder.declarations callees).Contains window :=
  Builder.checkArray_eq_ok_iff.mp checked

/-- An index stays inside a window: a fixed one is checked, a variable has to be a counter. -/
def Index.Counted (counters : Counters) (length : Nat) : Index → Prop
  | .fixed _ => True
  | .value counter => ∃ bound, (counter, bound) ∈ counters ∧ bound ≤ length

theorem Builder.covers_of_position {index : Index} {position : Position}
    (checked : builder.checkArray window = .ok ())
    (placed : builder.position window index = .ok position)
    (counted : index.Counted counters window.length) :
    (builder.declarations callees).Covers counters window.array position window.type := by
  obtain ⟨declaration, declared, room, typed⟩ := Builder.checkArray_eq_ok_iff.mp checked
  refine ⟨declaration, declared, typed, ?_⟩
  cases index with
  | fixed index =>
      obtain ⟨inside, rfl⟩ := position_fixed_eq_ok_iff.mp placed
      exact Nat.lt_of_lt_of_le (Nat.add_lt_add_left inside _) room
  | value counter =>
      obtain rfl := position_of_value placed
      obtain ⟨bound, mem, upTo⟩ := counted
      exact ⟨bound, mem, by omega⟩

end Checks

/-! ## Emitter actions -/

namespace Emit

variable {σ : Type} {before after : Builder × σ} {value : ValueId} {result : Unit}
  {callees : String → List Parameter → Prop} {counters : Counters} {known : Set ValueId}

theorem adds_literal {constant : Scalar}
    (emitted : Succeeds (literal (.scalar constant) : Emit σ ValueId) before value after) :
    before.1.Adds callees counters known after.1 (insert value known) := by
  obtain ⟨rfl, rfl⟩ := succeeds_literal_iff.mp emitted
  exact Builder.adds_define (.literal constant)

theorem adds_load {window : ArrayRef} {index : Index}
    (emitted : Succeeds (load window index : Emit σ ValueId) before value after)
    (counted : index.Counted counters window.length) :
    before.1.Adds callees counters known after.1 (insert value known) := by
  simp only [load, succeeds_bind_iff, succeeds_builder_iff, succeeds_check_iff,
    succeeds_define_iff] at emitted
  obtain ⟨_, _, ⟨rfl, rfl⟩, _, _, ⟨checked, rfl⟩, position, _, ⟨placed, rfl⟩, rfl, rfl⟩ := emitted
  exact Builder.adds_define (.load (Builder.covers_of_position checked placed counted))

theorem adds_store {window : ArrayRef} {index : Index}
    (emitted : Succeeds (store window index value : Emit σ Unit) before result after)
    (counted : index.Counted counters window.length) (mem : value ∈ known) :
    before.1.Adds callees counters known after.1 known := by
  simp only [store, succeeds_bind_iff, succeeds_builder_iff, succeeds_check_iff] at emitted
  obtain ⟨_, _, ⟨rfl, rfl⟩, _, _, ⟨checked, rfl⟩, rest⟩ := emitted
  split at rest
  · simp at rest
  · simp only [succeeds_bind_iff, succeeds_check_iff, succeeds_push_iff] at rest
    obtain ⟨_, _, ⟨typed, rfl⟩, position, _, ⟨placed, rfl⟩, rfl⟩ := rest
    exact Builder.adds_push fun _ => .store (Builder.covers_of_position checked placed counted)
      ⟨mem, Builder.expectType_eq_ok_iff.mp typed⟩ (.nil subset_rfl)

/-- A scalar that a builder lets through to arithmetic is a float. -/
theorem exists_realType {type : ValueType}
    (float : ¬(type ≠ ValueType.scalar .f32 ∧ type ≠ ValueType.scalar .f64)) :
    ∃ real : RealType, type = .scalar real.toScalarType := by
  by_cases single : type = .scalar .f32
  · exact ⟨.f32, single⟩
  · by_cases double : type = .scalar .f64
    · exact ⟨.f64, double⟩
    · exact absurd ⟨single, double⟩ float

theorem adds_binary {op : BinaryOp} {left right : ValueId}
    (emitted : Succeeds (binary op left right : Emit σ ValueId) before value after)
    (leftMem : left ∈ known) (rightMem : right ∈ known) :
    before.1.Adds callees counters known after.1 (insert value known) := by
  simp only [binary, succeeds_bind_iff, succeeds_builder_iff, succeeds_check_iff] at emitted
  obtain ⟨_, _, ⟨rfl, rfl⟩, type, _, ⟨leftType, rfl⟩, rest⟩ := emitted
  split at rest
  · simp at rest
  · rename_i float
    simp only [succeeds_bind_iff, succeeds_check_iff, succeeds_define_iff] at rest
    obtain ⟨_, _, ⟨rightType, rfl⟩, rfl, rfl⟩ := rest
    obtain ⟨real, rfl⟩ := exists_realType float
    exact Builder.adds_define (.binary ⟨leftMem, Builder.valueType_eq_ok_iff.mp leftType⟩
      ⟨rightMem, Builder.expectType_eq_ok_iff.mp rightType⟩)

theorem adds_compare {predicate : Predicate} {left right : ValueId}
    (emitted : Succeeds (compare predicate left right : Emit σ ValueId) before value after)
    (leftMem : left ∈ known) (rightMem : right ∈ known) :
    before.1.Adds callees counters known after.1 (insert value known) := by
  simp only [compare, succeeds_bind_iff, succeeds_builder_iff, succeeds_check_iff] at emitted
  obtain ⟨_, _, ⟨rfl, rfl⟩, type, _, ⟨leftType, rfl⟩, rest⟩ := emitted
  split at rest
  · simp at rest
  · rename_i scalar
    simp only [succeeds_bind_iff, succeeds_check_iff, succeeds_define_iff] at rest
    obtain ⟨_, _, ⟨rightType, rfl⟩, rfl, rfl⟩ := rest
    cases type with
    | index => exact absurd rfl scalar
    | scalar type =>
        exact Builder.adds_define (.compare ⟨leftMem, Builder.valueType_eq_ok_iff.mp leftType⟩
          ⟨rightMem, Builder.expectType_eq_ok_iff.mp rightType⟩)

/-- The sum of two floats is a float. -/
theorem exists_type_of_binary {op : BinaryOp} {left right : ValueId}
    (emitted : Succeeds (binary op left right : Emit σ ValueId) before value after) :
    ∃ type : ScalarType, after.1.valueTypes[value]? = some (.scalar type) := by
  simp only [binary, succeeds_bind_iff, succeeds_builder_iff, succeeds_check_iff] at emitted
  obtain ⟨_, _, ⟨rfl, rfl⟩, type, _, ⟨_, rfl⟩, rest⟩ := emitted
  split at rest
  · simp at rest
  · rename_i float
    simp only [succeeds_bind_iff, succeeds_check_iff, succeeds_define_iff] at rest
    obtain ⟨_, _, ⟨_, rfl⟩, rfl, rfl⟩ := rest
    obtain ⟨real, rfl⟩ := exists_realType float
    exact ⟨real.toScalarType, by simp [Builder.define]⟩

/-- An assignment of a scalar to a variable that counts no loop. -/
theorem adds_assign {target source : ValueId}
    (emitted : Succeeds (assign target source : Emit σ Unit) before result after)
    (mem : source ∈ known) (typed : ∃ type, before.1.valueTypes[source]? = some (.scalar type))
    (free : target ∉ counters.map Prod.fst) :
    before.1.Adds callees counters known after.1 known := by
  obtain ⟨type, declares⟩ := typed
  simp only [assign, succeeds_bind_iff, succeeds_builder_iff, succeeds_check_iff,
    succeeds_push_iff] at emitted
  obtain ⟨_, _, ⟨rfl, rfl⟩, expected, _, ⟨found, rfl⟩, _, _, ⟨sourceType, rfl⟩, rfl⟩ := emitted
  obtain rfl := Option.some.inj
    (declares.symm.trans (Builder.expectType_eq_ok_iff.mp sourceType))
  refine Builder.adds_push fun _ => ?_
  exact .assign (.copy ⟨mem, declares⟩) (Builder.valueType_eq_ok_iff.mp found) free
    (.nil (Set.subset_insert _ _))

/-- The window of a load has passed its check. -/
theorem checkArray_of_load {window : ArrayRef} {index : Index}
    (emitted : Succeeds (load window index : Emit σ ValueId) before value after) :
    after.1.checkArray window = .ok () := by
  simp only [load, succeeds_bind_iff, succeeds_builder_iff, succeeds_check_iff,
    succeeds_define_iff] at emitted
  obtain ⟨_, _, ⟨rfl, rfl⟩, _, _, ⟨checked, rfl⟩, _, _, ⟨_, rfl⟩, rfl, rfl⟩ := emitted
  exact checked

/-- The window of a store has passed its check. -/
theorem checkArray_of_store {window : ArrayRef} {index : Index}
    (emitted : Succeeds (store window index value : Emit σ Unit) before result after) :
    after.1.checkArray window = .ok () := by
  obtain ⟨_, _, checked, rfl⟩ := of_store emitted
  exact checked

theorem adds_loop {stop : Nat} {body : ValueId → Emit σ Unit}
    (emitted : Succeeds (loop 0 stop body) before result after)
    (turn : ∀ {inner : Builder × σ},
      Succeeds (body before.1.valueTypes.size) ((before.1.withValue .index).openBlock, before.2) ()
        inner →
      (before.1.withValue .index).openBlock.Adds callees ((before.1.valueTypes.size, stop) :: counters)
          known inner.1 known ∧
        ∃ window, inner.1.checkArray window = .ok () ∧ stop ≤ window.length) :
    before.1.Adds callees counters known after.1 known := by
  obtain ⟨inner, own, ran, rfl⟩ := of_loop emitted
  obtain ⟨adds, window, checked, upTo⟩ := turn ran
  obtain ⟨code, grows, safe⟩ := adds
  obtain ⟨rfl, closed⟩ := grows.block
  have counted := Builder.Grows.withValue before.1 .index
  have opened := counted.trans closed
  refine ⟨_, opened.trans (.push _ _), fun below => ?_⟩
  have inside : ∀ counter ∈ List.map Prod.fst ((before.1.valueTypes.size, stop) :: counters),
      counter < (before.1.withValue .index).openBlock.valueTypes.size := by
    intro counter mem
    have size : (before.1.withValue .index).openBlock.valueTypes.size =
        before.1.valueTypes.size + 1 := by simp [Builder.withValue]
    rw [size]
    rcases List.mem_cons.mp mem with rfl | earlier
    · exact Nat.lt_succ_self _
    · exact Nat.lt_succ_of_lt (below counter earlier)
  obtain ⟨declaration, declared, room, _⟩ := Builder.checkArray_eq_ok_iff.mp checked
  have extended : ((before.1.withValue .index).declarations callees).Extends
      (inner.closeBlock.declarations callees) := closed.extends fun _ _ callee => callee
  have counter : (inner.closeBlock.declarations callees).values[before.1.valueTypes.size]? =
      some .index :=
    extended.values _ _ (by simp [Builder.declarations, Builder.withValue])
  refine .loop ?_ (fun mem => Nat.lt_irrefl _ (below _ mem)) ⟨declaration, ?_, by omega⟩ ?_
    (.nil subset_rfl)
  · simpa [Builder.declarations] using counter
  · simpa [Builder.declarations] using Array.mem_of_getElem? declared
  · simpa [Builder.declarations] using safe inside

theorem adds_branch {condition : ValueId} {body : Emit σ Unit}
    (emitted : Succeeds (branch condition body) before result after) (mem : condition ∈ known)
    (taken : ∀ {inner : Builder × σ},
      Succeeds body (before.1.openBlock, before.2) () inner →
        before.1.openBlock.Adds callees counters known inner.1 known) :
    before.1.Adds callees counters known after.1 known := by
  simp only [branch, succeeds_bind_iff, succeeds_builder_iff, succeeds_check_iff,
    succeeds_push_iff] at emitted
  obtain ⟨_, _, ⟨rfl, rfl⟩, _, before, ⟨typed, rfl⟩, _, _, blocked, rfl⟩ := emitted
  obtain ⟨inner, own, ran, rfl, rfl⟩ := of_inBlock blocked
  obtain ⟨code, grows, safe⟩ := taken ran
  obtain ⟨rfl, closed⟩ := grows.block
  refine ⟨_, closed.trans (.push _ _), fun below => ?_⟩
  have extended : (before.1.declarations callees).Extends (inner.closeBlock.declarations callees) :=
    closed.extends fun _ _ callee => callee
  have knows : (inner.closeBlock.declarations callees).Knows known condition .bool :=
    extended.knows ⟨mem, Builder.expectType_eq_ok_iff.mp typed⟩
  refine .branch (by simpa [Builder.declarations] using knows) ?_ (.nil subset_rfl)
  simpa [Builder.declarations] using safe (by simpa using below)

/-- A call of the host with a window. -/
theorem adds_host {name : String} {window : ArrayRef}
    (emitted : Succeeds (call (.host name) [.array window] : Emit σ Unit) before result after) :
    before.1.Adds callees counters known after.1 known := by
  obtain ⟨arguments, passed, rfl⟩ := succeeds_call_iff.mp emitted
  have operands : List.Forall₂ (fun operand argument =>
      before.1.argument operand = .ok argument) ([window].map .array) arguments :=
    mapM_eq_ok_iff.mp passed
  obtain ⟨checked, rfl⟩ := arguments_eq_of_checked operands
  have contains : (before.1.declarations callees).Contains window :=
    Builder.contains_of_checkArray (checked window List.mem_cons_self)
  exact Builder.adds_push fun _ => .host contains (.nil subset_rfl)

end Emit

end Dataflow
