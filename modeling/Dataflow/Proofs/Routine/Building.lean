import Dataflow.Proofs.Actions
import Dataflow.Routine.Builder

/-!
# What emitter actions do

An emitter action that succeeds makes its routine grow: it adds instructions to the
innermost block, and declares variables and arrays after those that are there.  The laws of
this module say for each action what it adds and which of its checks have passed.
-/

namespace Dataflow

/-! ## Growing routines -/

namespace Builder

/-- A routine with one more variable, which is assigned an expression. -/
def define (builder : Builder) (type : ValueType) (expression : Expression) : Builder :=
  { builder with
    valueTypes := builder.valueTypes.push type
    block := builder.block.push (.assign builder.valueTypes.size expression) }

/-- A routine with one more array. -/
def withArray (builder : Builder) (declaration : ArrayDeclaration) : Builder :=
  { builder with arrays := builder.arrays.push declaration }

/-- A routine with one more variable. -/
def withValue (builder : Builder) (type : ValueType) : Builder :=
  { builder with valueTypes := builder.valueTypes.push type }

/-- A routine grows by instructions in its innermost block, and maybe by variables and
arrays. -/
structure Grows (before : Builder) (code : List Instruction) (after : Builder) : Prop where
  name_eq : after.name = before.name
  parameters_eq : after.parameters = before.parameters
  enclosing_eq : after.enclosing = before.enclosing
  block_eq : after.block.toList = before.block.toList ++ code
  values_prefix : before.valueTypes.toList <+: after.valueTypes.toList
  arrays_prefix : before.arrays.toList <+: after.arrays.toList

namespace Grows

variable {before between after : Builder} {code rest : List Instruction}

theorem refl (builder : Builder) : builder.Grows [] builder :=
  ⟨rfl, rfl, rfl, (List.append_nil _).symm, List.prefix_rfl, List.prefix_rfl⟩

theorem trans (first : before.Grows code between) (second : between.Grows rest after) :
    before.Grows (code ++ rest) after where
  name_eq := second.name_eq.trans first.name_eq
  parameters_eq := second.parameters_eq.trans first.parameters_eq
  enclosing_eq := second.enclosing_eq.trans first.enclosing_eq
  block_eq := by rw [second.block_eq, first.block_eq, List.append_assoc]
  values_prefix := first.values_prefix.trans second.values_prefix
  arrays_prefix := first.arrays_prefix.trans second.arrays_prefix

theorem values_le (grows : before.Grows code after) :
    before.valueTypes.size ≤ after.valueTypes.size := by
  simpa using grows.values_prefix.length_le

theorem arrays_le (grows : before.Grows code after) : before.arrays.size ≤ after.arrays.size := by
  simpa using grows.arrays_prefix.length_le

/-- Declarations stay. -/
theorem getElem?_arrays (grows : before.Grows code after) {array : ArrayId}
    (declared : array < before.arrays.size) : after.arrays[array]? = before.arrays[array]? := by
  obtain ⟨more, arrays⟩ := grows.arrays_prefix
  rw [← Array.getElem?_toList, ← Array.getElem?_toList, ← arrays,
    List.getElem?_append_left (by simpa using declared)]

theorem push (builder : Builder) (instruction : Instruction) :
    builder.Grows [instruction] (builder.push instruction) :=
  ⟨rfl, rfl, rfl, by simp [Builder.push], List.prefix_rfl, List.prefix_rfl⟩

theorem define (builder : Builder) (type : ValueType) (expression : Expression) :
    builder.Grows [.assign builder.valueTypes.size expression] (builder.define type expression) :=
  ⟨rfl, rfl, rfl, by simp [Builder.define], by simp [Builder.define], List.prefix_rfl⟩

theorem withArray (builder : Builder) (declaration : ArrayDeclaration) :
    builder.Grows [] (builder.withArray declaration) :=
  ⟨rfl, rfl, rfl, by simp [Builder.withArray], List.prefix_rfl, by simp [Builder.withArray]⟩

theorem withValue (builder : Builder) (type : ValueType) :
    builder.Grows [] (builder.withValue type) :=
  ⟨rfl, rfl, rfl, by simp [Builder.withValue], by simp [Builder.withValue], List.prefix_rfl⟩

/-- What grows inside a block of its own is the code of that block. -/
theorem block (grows : before.openBlock.Grows code after) :
    after.block.toList = code ∧ before.Grows [] after.closeBlock := by
  have enclosing : after.enclosing = before.block :: before.enclosing := grows.enclosing_eq
  refine ⟨by simpa [openBlock] using grows.block_eq, ?_⟩
  rw [closeBlock, enclosing]
  exact ⟨grows.name_eq, grows.parameters_eq, rfl, (List.append_nil _).symm, grows.values_prefix,
    grows.arrays_prefix⟩

end Grows

@[simp]
theorem arrays_define (builder : Builder) (type : ValueType) (expression : Expression) :
    (builder.define type expression).arrays = builder.arrays :=
  rfl

@[simp]
theorem size_values_define (builder : Builder) (type : ValueType) (expression : Expression) :
    (builder.define type expression).valueTypes.size = builder.valueTypes.size + 1 := by
  simp [define]

theorem value_lt_define (builder : Builder) (type : ValueType) (expression : Expression) :
    builder.valueTypes.size < (builder.define type expression).valueTypes.size := by
  simp

@[simp]
theorem arrays_push (builder : Builder) (instruction : Instruction) :
    (builder.push instruction).arrays = builder.arrays :=
  rfl

@[simp]
theorem values_push (builder : Builder) (instruction : Instruction) :
    (builder.push instruction).valueTypes = builder.valueTypes :=
  rfl

@[simp]
theorem arrays_openBlock (builder : Builder) : builder.openBlock.arrays = builder.arrays :=
  rfl

@[simp]
theorem values_openBlock (builder : Builder) : builder.openBlock.valueTypes = builder.valueTypes :=
  rfl

@[simp]
theorem arrays_closeBlock (builder : Builder) : builder.closeBlock.arrays = builder.arrays := by
  unfold closeBlock
  split <;> rfl

@[simp]
theorem values_closeBlock (builder : Builder) :
    builder.closeBlock.valueTypes = builder.valueTypes := by
  unfold closeBlock
  split <;> rfl

/-- A window that passes its check lies in a declared array of its type. -/
theorem checkArray_eq_ok_iff {builder : Builder} {window : ArrayRef} :
    builder.checkArray window = .ok () ↔
      ∃ declaration, builder.arrays[window.array]? = some declaration ∧
        window.offset + window.length ≤ declaration.length ∧ declaration.type = window.type := by
  unfold checkArray
  cases builder.arrays[window.array]? with
  | none => simp
  | some declaration =>
      by_cases inside : declaration.length < window.offset + window.length
      · simp [inside, Nat.not_le.mpr inside]
      · by_cases typed : declaration.type = window.type <;>
          simp [inside, typed, Nat.le_of_not_lt inside]

theorem position_fixed_eq_ok_iff {builder : Builder} {window : ArrayRef} {index : Nat}
    {position : Position} :
    builder.position window (.fixed index) = .ok position ↔
      index < window.length ∧ position = .fixed (window.offset + index) := by
  by_cases inside : index < window.length <;> simp [Builder.position, inside, eq_comm]

theorem position_of_value {builder : Builder} {window : ArrayRef} {value : ValueId}
    {position : Position} (placed : builder.position window (.value value) = .ok position) :
    position = .indexed value window.offset := by
  simp only [Builder.position, bind_eq_ok_iff, pure_eq_ok_iff] at placed
  obtain ⟨_, _, rfl⟩ := placed
  rfl

theorem valueType_eq_ok_iff {builder : Builder} {value : ValueId} {type : ValueType} :
    builder.valueType value = .ok type ↔ builder.valueTypes[value]? = some type := by
  unfold valueType
  cases builder.valueTypes[value]? <;> simp

theorem expectType_eq_ok_iff {builder : Builder} {operation : String} {value : ValueId}
    {type : ValueType} :
    builder.expectType operation value type = .ok () ↔ builder.valueTypes[value]? = some type := by
  unfold expectType valueType
  cases builder.valueTypes[value]? with
  | none => simp
  | some found => by_cases same : found = type <;> simp [same]

theorem argument_array_eq_ok_iff {builder : Builder} {window : ArrayRef} {argument : Argument} :
    builder.argument (.array window) = .ok argument ↔
      builder.checkArray window = .ok () ∧
        argument = .window window.array window.offset window.length := by
  simp only [Builder.argument, bind_eq_ok_iff, pure_eq_ok_iff]
  constructor
  · rintro ⟨_, checked, rfl⟩
    exact ⟨checked, rfl⟩
  · rintro ⟨checked, rfl⟩
    exact ⟨(), checked, rfl⟩

end Builder

/-- Windows that can be passed have passed their checks. -/
theorem arguments_eq_of_checked {builder : Builder} {windows : List ArrayRef}
    {arguments : List Argument}
    (passed : List.Forall₂ (fun operand argument => builder.argument operand = .ok argument)
      (windows.map .array) arguments) :
    (∀ window ∈ windows, builder.checkArray window = .ok ()) ∧
      arguments = windows.map fun window => .window window.array window.offset window.length := by
  induction windows generalizing arguments with
  | nil =>
      obtain rfl := List.forall₂_nil_left_iff.mp passed
      exact ⟨by simp, rfl⟩
  | cons window rest ih =>
      obtain ⟨argument, others, first, passedRest, rfl⟩ := List.forall₂_cons_left_iff.mp passed
      obtain ⟨checked, rfl⟩ := Builder.argument_array_eq_ok_iff.mp first
      obtain ⟨otherChecked, rfl⟩ := ih passedRest
      exact ⟨List.forall_mem_cons.mpr ⟨checked, otherChecked⟩, rfl⟩

/-! ## The actions -/

namespace Emit

variable {σ α : Type} {before after : Builder × σ} {value : ValueId} {result : Unit}

@[simp]
theorem succeeds_builder_iff {found : Builder} :
    Succeeds (builder : Emit σ Builder) before found after ↔ found = before.1 ∧ after = before := by
  simp only [builder, bind_pure_comp, succeeds_map_iff, succeeds_get_iff]
  constructor
  · rintro ⟨_, ⟨rfl, rfl⟩, rfl⟩
    exact ⟨rfl, rfl⟩
  · rintro ⟨rfl, rfl⟩
    exact ⟨_, ⟨rfl, rfl⟩, rfl⟩

@[simp]
theorem succeeds_own_iff {found : σ} :
    Succeeds (own : Emit σ σ) before found after ↔ found = before.2 ∧ after = before := by
  simp only [own, bind_pure_comp, succeeds_map_iff, succeeds_get_iff]
  constructor
  · rintro ⟨_, ⟨rfl, rfl⟩, rfl⟩
    exact ⟨rfl, rfl⟩
  · rintro ⟨rfl, rfl⟩
    exact ⟨_, ⟨rfl, rfl⟩, rfl⟩

@[simp]
theorem succeeds_modifyBuilder_iff {change : Builder → Builder} :
    Succeeds (modifyBuilder change : Emit σ Unit) before result after ↔
      after = (change before.1, before.2) := by
  rw [modifyBuilder]
  exact succeeds_modify_iff

@[simp]
theorem succeeds_modifyOwn_iff {change : σ → σ} :
    Succeeds (modifyOwn change : Emit σ Unit) before result after ↔
      after = (before.1, change before.2) := by
  rw [modifyOwn]
  exact succeeds_modify_iff

@[simp]
theorem succeeds_check_iff {checked : Except CompileError α} {found : α} :
    Succeeds (check checked : Emit σ α) before found after ↔ checked = .ok found ∧ after = before := by
  cases checked <;> simp [check, eq_comm]

@[simp]
theorem succeeds_push_iff {instruction : Instruction} :
    Succeeds (push instruction : Emit σ Unit) before result after ↔
      after = (before.1.push instruction, before.2) :=
  succeeds_modifyBuilder_iff

@[simp]
theorem succeeds_newValue_iff {type : ValueType} :
    Succeeds (newValue type : Emit σ ValueId) before value after ↔
      value = before.1.valueTypes.size ∧ after = (before.1.withValue type, before.2) := by
  simp only [newValue, succeeds_bind_iff, succeeds_builder_iff,
    succeeds_modifyBuilder_iff, succeeds_pure_iff]
  constructor
  · rintro ⟨_, _, ⟨rfl, rfl⟩, _, _, rfl, rfl, rfl⟩
    exact ⟨rfl, rfl⟩
  · rintro ⟨rfl, rfl⟩
    exact ⟨_, _, ⟨rfl, rfl⟩, (), _, rfl, rfl, rfl⟩

theorem succeeds_newArray_iff {declaration : ArrayDeclaration} {window : ArrayRef} :
    Succeeds (newArray declaration : Emit σ ArrayRef) before window after ↔
      window = ⟨before.1.arrays.size, declaration.type, 0, declaration.length⟩ ∧
        after = (before.1.withArray declaration, before.2) := by
  simp only [newArray, succeeds_bind_iff, succeeds_builder_iff,
    succeeds_modifyBuilder_iff, succeeds_pure_iff]
  constructor
  · rintro ⟨_, _, ⟨rfl, rfl⟩, _, _, rfl, rfl, rfl⟩
    exact ⟨rfl, rfl⟩
  · rintro ⟨rfl, rfl⟩
    exact ⟨_, _, ⟨rfl, rfl⟩, (), _, rfl, rfl, rfl⟩

@[simp]
theorem succeeds_define_iff {type : ValueType} {expression : Expression} :
    Succeeds (define type expression : Emit σ ValueId) before value after ↔
      value = before.1.valueTypes.size ∧ after = (before.1.define type expression, before.2) := by
  simp only [define, succeeds_bind_iff, succeeds_newValue_iff, succeeds_push_iff,
    succeeds_pure_iff]
  constructor
  · rintro ⟨_, _, ⟨rfl, rfl⟩, _, _, rfl, rfl, rfl⟩
    exact ⟨rfl, rfl⟩
  · rintro ⟨rfl, rfl⟩
    exact ⟨_, _, ⟨rfl, rfl⟩, (), _, rfl, rfl, rfl⟩

theorem succeeds_literal_iff {constant : Literal} :
    Succeeds (literal constant : Emit σ ValueId) before value after ↔
      value = before.1.valueTypes.size ∧
        after = (before.1.define constant.type (.literal constant), before.2) :=
  succeeds_define_iff

theorem succeeds_declareArray_iff {type : ScalarType} {length : Nat} {window : ArrayRef} :
    Succeeds (declareArray type length : Emit σ ArrayRef) before window after ↔
      window = ⟨before.1.arrays.size, type, 0, length⟩ ∧
        after = (before.1.withArray (.scratch type length), before.2) :=
  succeeds_newArray_iff

theorem succeeds_declareConstant_iff {values : Buffer} {window : ArrayRef} :
    Succeeds (declareConstant values : Emit σ ArrayRef) before window after ↔
      window = ⟨before.1.arrays.size, values.type, 0, values.size⟩ ∧
        after = (before.1.withArray (.constant values), before.2) :=
  succeeds_newArray_iff

theorem of_assign {target source : ValueId}
    (emitted : Succeeds (assign target source : Emit σ Unit) before result after) :
    after = (before.1.push (.assign target (.copy source)), before.2) := by
  simp only [assign, succeeds_bind_iff, succeeds_builder_iff, succeeds_check_iff,
    succeeds_push_iff] at emitted
  obtain ⟨_, _, ⟨rfl, rfl⟩, _, _, ⟨_, rfl⟩, _, _, ⟨_, rfl⟩, rfl⟩ := emitted
  rfl

theorem of_load {window : ArrayRef} {index : Index}
    (emitted : Succeeds (load window index : Emit σ ValueId) before value after) :
    ∃ position, before.1.position window index = .ok position ∧
      value = before.1.valueTypes.size ∧
      after = (before.1.define window.type (.load window.array position), before.2) := by
  simp only [load, succeeds_bind_iff, succeeds_builder_iff, succeeds_check_iff,
    succeeds_define_iff] at emitted
  obtain ⟨_, _, ⟨rfl, rfl⟩, _, _, ⟨_, rfl⟩, position, _, ⟨placed, rfl⟩, rfl, rfl⟩ := emitted
  exact ⟨position, placed, rfl, rfl⟩

theorem of_store {window : ArrayRef} {index : Index}
    (emitted : Succeeds (store window index value : Emit σ Unit) before result after) :
    ∃ position, before.1.position window index = .ok position ∧
      before.1.checkArray window = .ok () ∧
      after = (before.1.push (.store window.array position value), before.2) := by
  simp only [store, succeeds_bind_iff, succeeds_builder_iff, succeeds_check_iff] at emitted
  obtain ⟨_, _, ⟨rfl, rfl⟩, _, _, ⟨checked, rfl⟩, rest⟩ := emitted
  split at rest
  · simp at rest
  · simp only [succeeds_bind_iff, succeeds_check_iff, succeeds_push_iff] at rest
    obtain ⟨_, _, ⟨_, rfl⟩, position, _, ⟨placed, rfl⟩, rfl⟩ := rest
    exact ⟨position, placed, checked, rfl⟩

/-- What is stored has the type of the window. -/
theorem type_of_store {window : ArrayRef} {index : Index}
    (emitted : Succeeds (store window index value : Emit σ Unit) before result after) :
    before.1.valueTypes[value]? = some (.scalar window.type) := by
  simp only [store, succeeds_bind_iff, succeeds_builder_iff, succeeds_check_iff] at emitted
  obtain ⟨_, _, ⟨rfl, rfl⟩, _, _, ⟨_, rfl⟩, rest⟩ := emitted
  split at rest
  · simp at rest
  · simp only [succeeds_bind_iff, succeeds_check_iff] at rest
    obtain ⟨_, _, ⟨typed, rfl⟩, _⟩ := rest
    exact Builder.expectType_eq_ok_iff.mp typed

theorem of_binary {op : BinaryOp} {left right : ValueId}
    (emitted : Succeeds (binary op left right : Emit σ ValueId) before value after) :
    ∃ type, value = before.1.valueTypes.size ∧
      after = (before.1.define type (.binary op left right), before.2) := by
  simp only [binary, succeeds_bind_iff, succeeds_builder_iff, succeeds_check_iff] at emitted
  obtain ⟨_, _, ⟨rfl, rfl⟩, type, _, ⟨_, rfl⟩, rest⟩ := emitted
  split at rest
  · simp at rest
  · simp only [succeeds_bind_iff, succeeds_check_iff, succeeds_define_iff] at rest
    obtain ⟨_, _, ⟨_, rfl⟩, rfl, rfl⟩ := rest
    exact ⟨type, rfl, rfl⟩

theorem of_compare {predicate : Predicate} {left right : ValueId}
    (emitted : Succeeds (compare predicate left right : Emit σ ValueId) before value after) :
    value = before.1.valueTypes.size ∧
      after = (before.1.define ScalarType.bool (.compare predicate left right), before.2) := by
  simp only [compare, succeeds_bind_iff, succeeds_builder_iff, succeeds_check_iff] at emitted
  obtain ⟨_, _, ⟨rfl, rfl⟩, type, _, ⟨_, rfl⟩, rest⟩ := emitted
  split at rest
  · simp at rest
  · simp only [succeeds_bind_iff, succeeds_check_iff, succeeds_define_iff] at rest
    obtain ⟨_, _, ⟨_, rfl⟩, rfl, rfl⟩ := rest
    exact ⟨rfl, rfl⟩

theorem of_inBlock {body : Emit σ Unit} {code : List Instruction}
    (emitted : Succeeds (inBlock body) before code after) :
    ∃ inner own, Succeeds body (before.1.openBlock, before.2) () (inner, own) ∧
      code = inner.block.toList ∧ after = (inner.closeBlock, own) := by
  simp only [inBlock, succeeds_bind_iff, succeeds_modifyBuilder_iff, succeeds_builder_iff,
    succeeds_pure_iff] at emitted
  obtain ⟨_, _, rfl, ⟨⟩, ⟨_, own⟩, ran, _, _, ⟨rfl, rfl⟩, _, _, rfl, rfl, rfl⟩ := emitted
  refine ⟨_, own, ?_, rfl, rfl⟩
  unfold Succeeds at ran ⊢
  rw [outcome_tryCatch] at ran
  rcases done : outcome body (before.1.openBlock, before.2) with ⟨_ | ⟨⟩, _⟩
  · simp [done, outcome_bind, modifyBuilder] at ran
  · simpa [done] using ran

theorem of_loop {start stop : Nat} {body : ValueId → Emit σ Unit}
    (emitted : Succeeds (loop start stop body) before result after) :
    ∃ inner own,
      Succeeds (body before.1.valueTypes.size) ((before.1.withValue .index).openBlock, before.2) ()
        (inner, own) ∧
      after = (inner.closeBlock.push
        (.loop before.1.valueTypes.size start stop inner.block.toList), own) := by
  simp only [loop, succeeds_bind_iff, succeeds_newValue_iff, succeeds_push_iff] at emitted
  obtain ⟨_, _, ⟨rfl, rfl⟩, _, _, blocked, rfl⟩ := emitted
  obtain ⟨inner, own, ran, rfl, rfl⟩ := of_inBlock blocked
  exact ⟨inner, own, ran, rfl⟩

theorem of_branch {condition : ValueId} {body : Emit σ Unit}
    (emitted : Succeeds (branch condition body) before result after) :
    ∃ inner own, Succeeds body (before.1.openBlock, before.2) () (inner, own) ∧
      after = (inner.closeBlock.push (.branch condition inner.block.toList), own) := by
  simp only [branch, succeeds_bind_iff, succeeds_builder_iff, succeeds_check_iff,
    succeeds_push_iff] at emitted
  obtain ⟨_, _, ⟨rfl, rfl⟩, _, _, ⟨_, rfl⟩, _, _, blocked, rfl⟩ := emitted
  obtain ⟨inner, own, ran, rfl, rfl⟩ := of_inBlock blocked
  exact ⟨inner, own, ran, rfl⟩

theorem succeeds_call_iff {callee : Callee} {operands : List Operand} :
    Succeeds (call callee operands : Emit σ Unit) before result after ↔
      ∃ arguments, operands.mapM before.1.argument = .ok arguments ∧
        after = (before.1.push (.call callee arguments), before.2) := by
  simp only [call, succeeds_bind_iff, succeeds_builder_iff, succeeds_check_iff, succeeds_push_iff]
  constructor
  · rintro ⟨_, _, ⟨rfl, rfl⟩, arguments, _, ⟨checked, rfl⟩, rfl⟩
    exact ⟨arguments, checked, rfl⟩
  · rintro ⟨arguments, checked, rfl⟩
    exact ⟨_, _, ⟨rfl, rfl⟩, arguments, _, ⟨checked, rfl⟩, rfl⟩

theorem of_inRoutine {routine inner : Builder} {action : Emit σ Unit}
    (emitted : Succeeds (inRoutine routine action) before inner after) :
    after.1 = before.1 ∧ Succeeds action (routine, before.2) () (inner, after.2) := by
  rcases ran : outcome action (routine, before.2) with ⟨checked, reached, own⟩
  have unfolded : outcome (inRoutine routine action : Emit σ Builder) before =
      outcome (check checked >>= fun _ => pure reached) (before.1, own) := by
    rw [inRoutine, outcome_bind_of_succeeds (succeeds_get_iff.mpr ⟨rfl, rfl⟩)]
    simp only [outcome] at ran
    simp only [ran]
    have kept : Succeeds (set (before.1, own) : Emit σ PUnit) before ⟨⟩ (before.1, own) := rfl
    exact outcome_bind_of_succeeds kept _
  unfold Succeeds at emitted
  rw [unfolded] at emitted
  obtain ⟨_, _, ⟨rfl, rfl⟩, rfl, rfl⟩ := by
    simpa only [succeeds_bind_iff, succeeds_check_iff, succeeds_pure_iff] using
      (show Succeeds _ _ _ _ from emitted)
  exact ⟨rfl, ran⟩

end Emit

end Dataflow
