import Dataflow.Proofs.Routine.Emission

/-!
# Emitter actions that pass their checks

The checks of an emitter action ask about what has been declared so far: that a window lies in an
array of its type, that a variable has a type, that a fixed position lies inside its window.  What
has been declared stays declared, so what lets an action pass now lets it pass later.  The laws of
this module say for each action which facts it needs and which new one it gives.
-/

namespace Dataflow

/-! ## What stays declared -/

/-- A builder goes on with a routine: what was declared in it stays declared. -/
structure Builder.Continues (before after : Builder) : Prop where
  name_eq : after.name = before.name
  values : ∀ (value : ValueId) (type : ValueType), before.valueTypes[value]? = some type →
    after.valueTypes[value]? = some type
  arrays : ∀ (array : ArrayId) (declaration : ArrayDeclaration),
    before.arrays[array]? = some declaration → after.arrays[array]? = some declaration

/-- A window lies in an array of its type that can be written. -/
def Builder.Writable (builder : Builder) (window : ArrayRef) : Prop :=
  builder.checkArray window = .ok () ∧ builder.isConstant window = false

/-- An index can be used with a window: a fixed one lies inside it, a variable is an index. -/
def Builder.Indexes (builder : Builder) (window : ArrayRef) : Index → Prop
  | .fixed position => position < window.length
  | .value value => builder.valueTypes[value]? = some .index

namespace Builder

variable {before between after : Builder} {window : ArrayRef} {code : List Instruction}

namespace Continues

theorem refl (builder : Builder) : builder.Continues builder :=
  ⟨rfl, fun _ _ declared => declared, fun _ _ declared => declared⟩

theorem trans (first : before.Continues between) (second : between.Continues after) :
    before.Continues after where
  name_eq := second.name_eq.trans first.name_eq
  values value type declared := second.values value type (first.values value type declared)
  arrays array declaration declared :=
    second.arrays array declaration (first.arrays array declaration declared)

theorem of_grows (grows : before.Grows code after) : before.Continues after := by
  have extended : (before.declarations fun _ _ => True).Extends
      (after.declarations fun _ _ => True) := grows.extends fun _ _ callee => callee
  exact ⟨grows.name_eq, extended.values, extended.arrays⟩

theorem openBlock (builder : Builder) : builder.Continues builder.openBlock :=
  ⟨rfl, by simp, by simp⟩

theorem closeBlock (builder : Builder) : builder.Continues builder.closeBlock := by
  refine ⟨?_, by simp, by simp⟩
  unfold Builder.closeBlock
  split <;> rfl

theorem checkArray (continues : before.Continues after)
    (checked : before.checkArray window = .ok ()) : after.checkArray window = .ok () := by
  obtain ⟨declaration, declared, fits⟩ := checkArray_eq_ok_iff.mp checked
  exact checkArray_eq_ok_iff.mpr ⟨declaration, continues.arrays _ _ declared, fits⟩

theorem writable (continues : before.Continues after) (writable : before.Writable window) :
    after.Writable window := by
  obtain ⟨checked, changes⟩ := writable
  obtain ⟨declaration, declared, _⟩ := checkArray_eq_ok_iff.mp checked
  refine ⟨continues.checkArray checked, ?_⟩
  rw [isConstant, continues.arrays _ _ declared]
  rwa [isConstant, declared] at changes

end Continues

/-- An array that was just declared can be used as a whole. -/
theorem checkArray_withArray (builder : Builder) (declaration : ArrayDeclaration) :
    (builder.withArray declaration).checkArray
      ⟨builder.arrays.size, declaration.type, 0, declaration.length⟩ = .ok () :=
  checkArray_eq_ok_iff.mpr ⟨declaration, by simp [withArray], by simp, rfl⟩

theorem writable_withArray (builder : Builder) (type : ScalarType) (length : Nat) :
    (builder.withArray (.scratch type length)).Writable ⟨builder.arrays.size, type, 0, length⟩ :=
  ⟨builder.checkArray_withArray (.scratch type length), by
    simp [isConstant, withArray, ArrayDeclaration.isConstant]⟩

/-- The parameters of a routine can be read and written as a whole. -/
theorem writable_start {name : String} {parameters : List Parameter} {index : Nat}
    {parameter : Parameter} (listed : parameters[index]? = some parameter) :
    (start name parameters).Writable ⟨index, parameter.type, 0, parameter.length⟩ := by
  have declared : (start name parameters).arrays[index]? =
      some (.parameter parameter.type parameter.length) := by simp [start, listed]
  refine ⟨checkArray_eq_ok_iff.mpr ⟨_, declared, ?_, rfl⟩, ?_⟩
  · simp [ArrayDeclaration.length]
  · rw [isConstant, declared]
    rfl

theorem exists_position {index : Index} (indexes : before.Indexes window index) :
    ∃ position, before.position window index = .ok position := by
  cases index with
  | fixed position => exact ⟨_, position_fixed_eq_ok_iff.mpr ⟨indexes, rfl⟩⟩
  | value value =>
      have typed : before.expectType "index" value .index = .ok () :=
        expectType_eq_ok_iff.mpr indexes
      exact ⟨_, by simp only [position, typed]; rfl⟩

end Builder

/-! ## Emitter actions -/

namespace Emit

variable {σ α β : Type} {kept : σ → σ → Prop} {before : Builder × σ} {window : ArrayRef}
  {index : Index} {result : α → Builder → Prop}

/-- An action succeeds: the builder goes on with its routine, the state next to it is kept up to a
relation, and the result has a property. -/
def Passes (kept : σ → σ → Prop) (action : Emit σ α) (before : Builder × σ)
    (result : α → Builder → Prop) : Prop :=
  ∃ value after, Succeeds action before value after ∧ before.1.Continues after.1 ∧
    kept before.2 after.2 ∧ result value after.1

/-- The result is a variable of a type. -/
def Typed (type : ValueType) (value : ValueId) (builder : Builder) : Prop :=
  builder.valueTypes[value]? = some type

/-- Nothing is said about a result. -/
abbrev Done {α : Type} (_ : α) (_ : Builder) : Prop :=
  True

/-- A check that passes can be left out. -/
theorem passes_check {checked : Except CompileError α} {found : α} {next : α → Emit σ β}
    {last : β → Builder → Prop} (passed : checked = .ok found)
    (rest : (next found).Passes kept before last) :
    (check checked >>= next).Passes kept before last := by
  subst passed
  exact rest

/-- A block is closed where it was opened, and what was declared inside it stays declared. -/
theorem passes_inBlock {body : Emit σ Unit}
    (inside : body.Passes kept (before.1.openBlock, before.2) Done) :
    (inBlock body).Passes kept before Done := by
  obtain ⟨⟨⟩, inner, ran, continues, keeps, _⟩ := inside
  refine ⟨inner.1.block.toList, (inner.1.closeBlock, inner.2), ?_, ?_, keeps, trivial⟩
  · unfold Succeeds at ran ⊢
    rw [outcome_inBlock, ran]
  · exact ((Builder.Continues.openBlock before.1).trans continues).trans (.closeBlock inner.1)

section Preorder

variable [IsPreorder σ kept]

theorem passes_pure {value : α} (meets : result value before.1) :
    (pure value : Emit σ α).Passes kept before result :=
  ⟨value, before, succeeds_pure_iff.mpr ⟨rfl, rfl⟩, .refl _, refl _, meets⟩

theorem Passes.bind {action : Emit σ α} {next : α → Emit σ β} {last : β → Builder → Prop}
    (first : action.Passes kept before result)
    (second : ∀ value between, before.1.Continues between.1 → kept before.2 between.2 →
      result value between.1 → (next value).Passes kept between last) :
    (action >>= next).Passes kept before last := by
  obtain ⟨value, between, started, continues, keeps, meets⟩ := first
  obtain ⟨final, after, ended, further, still, ends⟩ :=
    second value between continues keeps meets
  exact ⟨final, after, succeeds_bind_iff.mpr ⟨value, between, started, ended⟩,
    continues.trans further, IsTrans.trans _ _ _ keeps still, ends⟩

theorem passes_define {type : ValueType} {expression : Expression} :
    (define type expression : Emit σ ValueId).Passes kept before (Typed type) :=
  ⟨_, _, succeeds_define_iff.mpr ⟨rfl, rfl⟩, .of_grows (.define before.1 type expression), refl _, by
    simp [Typed, Builder.define]⟩

theorem passes_push {instruction : Instruction} :
    (push instruction : Emit σ Unit).Passes kept before Done :=
  ⟨(), _, succeeds_push_iff.mpr rfl, .of_grows (.push before.1 instruction), refl _, trivial⟩

theorem passes_literal {constant : Literal} :
    (literal constant : Emit σ ValueId).Passes kept before (Typed constant.type) :=
  passes_define

theorem passes_load (checked : before.1.checkArray window = .ok ())
    (indexes : before.1.Indexes window index) :
    (load window index : Emit σ ValueId).Passes kept before (Typed window.type) := by
  obtain ⟨position, placed⟩ := Builder.exists_position indexes
  exact passes_check checked (passes_check placed passes_define)

theorem passes_store {value : ValueId} (writable : before.1.Writable window)
    (typed : Typed window.type value before.1) (indexes : before.1.Indexes window index) :
    (store window index value : Emit σ Unit).Passes kept before Done := by
  obtain ⟨checked, changes⟩ := writable
  obtain ⟨position, placed⟩ := Builder.exists_position indexes
  refine passes_check checked ?_
  simp only [changes, Bool.false_eq_true, if_false]
  exact passes_check (Builder.expectType_eq_ok_iff.mpr typed) (passes_check placed passes_push)

theorem passes_binary {op : BinaryOp} {left right : ValueId} (type : RealType)
    (leftTyped : Typed type.toScalarType left before.1)
    (rightTyped : Typed type.toScalarType right before.1) :
    (binary op left right : Emit σ ValueId).Passes kept before (Typed type.toScalarType) := by
  refine passes_check (Builder.valueType_eq_ok_iff.mpr leftTyped) ?_
  have float : ¬(ValueType.scalar type ≠ .scalar .f32 ∧ ValueType.scalar type ≠ .scalar .f64) := by
    cases type <;> simp [RealType.toScalarType]
  simp only [float, if_false]
  exact passes_check (Builder.expectType_eq_ok_iff.mpr rightTyped) passes_define

theorem passes_compare {predicate : Predicate} {left right : ValueId} {type : ScalarType}
    (leftTyped : Typed type left before.1) (rightTyped : Typed type right before.1) :
    (compare predicate left right : Emit σ ValueId).Passes kept before (Typed ScalarType.bool) := by
  refine passes_check (Builder.valueType_eq_ok_iff.mpr leftTyped) ?_
  simp only [reduceCtorEq, if_false]
  exact passes_check (Builder.expectType_eq_ok_iff.mpr rightTyped) passes_define

theorem passes_assign {target source : ValueId} {type : ValueType}
    (targetTyped : Typed type target before.1) (sourceTyped : Typed type source before.1) :
    (assign target source : Emit σ Unit).Passes kept before Done :=
  passes_check (Builder.valueType_eq_ok_iff.mpr targetTyped)
    (passes_check (Builder.expectType_eq_ok_iff.mpr sourceTyped) passes_push)

theorem passes_call {callee : Callee} {windows : List ArrayRef}
    (checked : ∀ window ∈ windows, before.1.checkArray window = .ok ()) :
    (call callee (windows.map .array) : Emit σ Unit).Passes kept before Done := by
  obtain ⟨arguments, passed⟩ : ∃ arguments,
      (windows.map Operand.array).mapM before.1.argument = .ok arguments := by
    refine exists_mapM_eq_ok fun operand mem => ?_
    obtain ⟨window, windowMem, rfl⟩ := List.mem_map.mp mem
    exact ⟨_, Builder.argument_array_eq_ok_iff.mpr ⟨checked window windowMem, rfl⟩⟩
  exact passes_check passed passes_push

theorem passes_loop {start stop : Nat} {body : ValueId → Emit σ Unit}
    (turn : ∀ counter between, before.1.Continues between.1 → kept before.2 between.2 →
      Typed .index counter between.1 → (body counter).Passes kept between Done) :
    (loop start stop body).Passes kept before Done := by
  have declares : (newValue .index : Emit σ ValueId).Passes kept before (Typed .index) :=
    ⟨_, _, succeeds_newValue_iff.mpr ⟨rfl, rfl⟩, .of_grows (.withValue before.1 .index), refl _, by
      simp [Typed, Builder.withValue]⟩
  refine declares.bind fun counter between continues keeps typed => ?_
  have opened : before.1.Continues between.1.openBlock := continues.trans (.openBlock _)
  have inside := turn counter (between.1.openBlock, between.2) opened keeps typed
  exact (passes_inBlock inside).bind fun _ _ _ _ _ => passes_push

theorem passes_branch {condition : ValueId} {body : Emit σ Unit}
    (typed : Typed ScalarType.bool condition before.1)
    (taken : ∀ between, before.1.Continues between.1 → kept before.2 between.2 →
      body.Passes kept between Done) :
    (branch condition body).Passes kept before Done := by
  refine passes_check (Builder.expectType_eq_ok_iff.mpr typed) ?_
  have inside := taken (before.1.openBlock, before.2) (.openBlock before.1) (refl before.2)
  exact (passes_inBlock inside).bind fun _ _ _ _ _ => passes_push

end Preorder

end Emit

end Dataflow
