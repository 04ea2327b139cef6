import Dataflow.Proofs.Routine.Safety

/-!
# Typed code

Code is typed when every instruction fits the declarations of its routine: variables are assigned
values of their types, fixed positions lie inside their arrays, other positions are given by index
variables, and windows lie inside their arrays.  Typing is weaker than safety.  Typed code may read
variables before they have values, let an index run past the end of an array, and call routines
that do not exist.
-/

namespace Dataflow

/-! ## Instructions in code -/

/-- An instruction occurs in some code, perhaps in the body of a loop or of a branch. -/
inductive Instruction.Occurs (instruction : Instruction) : List Instruction → Prop
  | here {rest : List Instruction} : Occurs instruction (instruction :: rest)
  | later {first : Instruction} {rest : List Instruction} (occurs : Occurs instruction rest) :
      Occurs instruction (first :: rest)
  | loop {counter : ValueId} {start stop : Nat} {body rest : List Instruction}
      (occurs : Occurs instruction body) :
      Occurs instruction (.loop counter start stop body :: rest)
  | branch {condition : ValueId} {body rest : List Instruction} (occurs : Occurs instruction body) :
      Occurs instruction (.branch condition body :: rest)

theorem Instruction.Occurs.of_singleton {instruction first : Instruction}
    (occurs : instruction.Occurs [first]) (rest : List Instruction) :
    instruction.Occurs (first :: rest) := by
  cases occurs with
  | here => exact .here
  | later none => cases none
  | loop inside => exact .loop inside
  | branch inside => exact .branch inside

theorem Instruction.Occurs.of_append {instruction : Instruction} {code rest : List Instruction}
    (occurs : instruction.Occurs (code ++ rest)) : instruction.Occurs code ∨ instruction.Occurs rest := by
  induction code with
  | nil => exact .inr occurs
  | cons first code ih =>
      cases occurs with
      | here => exact .inl .here
      | later occurs => exact (ih occurs).imp_left .later
      | loop occurs => exact .inl (.loop occurs)
      | branch occurs => exact .inl (.branch occurs)

/-! ## Types -/

/-- An argument of a call is declared: a variable, or a window inside an array. -/
def Argument.Declared (declared : Declarations) : Argument → Prop
  | .value source => ∃ type, declared.values[source]? = some type
  | .window array offset length =>
      ∃ declaration, declared.arrays[array]? = some declaration ∧
        offset + length ≤ declaration.length

namespace Declarations

/-- A position in an array of a type: a fixed one lies inside, and the others are given by index
variables. -/
def Admits (declared : Declarations) (array : ArrayId) (position : Position) (type : ScalarType) :
    Prop :=
  ∃ declaration, declared.arrays[array]? = some declaration ∧ declaration.type = type ∧
    match position with
    | .fixed position => position < declaration.length
    | .indexed value _ => declared.values[value]? = some .index

/-- The types of expressions. -/
inductive HasType (declared : Declarations) : Expression → ValueType → Prop
  | literal (value : Literal) : HasType declared (.literal value) value.type
  | copy {source : ValueId} {type : ValueType} (source_type : declared.values[source]? = some type) :
      HasType declared (.copy source) type
  | load {array : ArrayId} {position : Position} {type : ScalarType}
      (admits : declared.Admits array position type) :
      HasType declared (.load array position) (.scalar type)
  | binary {op : BinaryOp} {left right : ValueId} {type : RealType}
      (left_type : declared.values[left]? = some (.scalar type.toScalarType))
      (right_type : declared.values[right]? = some (.scalar type.toScalarType)) :
      HasType declared (.binary op left right) (.scalar type.toScalarType)
  | compare {predicate : Predicate} {left right : ValueId} {type : ScalarType}
      (left_type : declared.values[left]? = some (.scalar type))
      (right_type : declared.values[right]? = some (.scalar type)) :
      HasType declared (.compare predicate left right) (.scalar .bool)

/-- Code whose instructions fit the declarations. -/
inductive Typed (declared : Declarations) : List Instruction → Prop
  | nil : Typed declared []
  | assign {target : ValueId} {expression : Expression} {type : ValueType} {rest : List Instruction}
      (has_type : declared.HasType expression type)
      (target_type : declared.values[target]? = some type) (next : Typed declared rest) :
      Typed declared (.assign target expression :: rest)
  | store {array : ArrayId} {position : Position} {value : ValueId} {type : ScalarType}
      {rest : List Instruction} (admits : declared.Admits array position type)
      (value_type : declared.values[value]? = some (.scalar type)) (next : Typed declared rest) :
      Typed declared (.store array position value :: rest)
  | loop {counter : ValueId} {start stop : Nat} {body rest : List Instruction}
      (counts : declared.values[counter]? = some .index) (turn : Typed declared body)
      (next : Typed declared rest) : Typed declared (.loop counter start stop body :: rest)
  | branch {condition : ValueId} {body rest : List Instruction}
      (condition_type : declared.values[condition]? = some (.scalar .bool))
      (taken : Typed declared body) (next : Typed declared rest) :
      Typed declared (.branch condition body :: rest)
  | call {callee : Callee} {arguments : List Argument} {rest : List Instruction}
      (passes : ∀ argument ∈ arguments, argument.Declared declared) (next : Typed declared rest) :
      Typed declared (.call callee arguments :: rest)

section Laws

variable {declared more : Declarations} {code rest : List Instruction}

theorem Typed.append (first : declared.Typed code) (second : declared.Typed rest) :
    declared.Typed (code ++ rest) := by
  induction first with
  | nil => exact second
  | assign hasType targetType _ ih => exact .assign hasType targetType ih
  | store admits valueType _ ih => exact .store admits valueType ih
  | loop counts turn _ _ ih => exact .loop counts turn ih
  | branch conditionType taken _ _ ih => exact .branch conditionType taken ih
  | call passes _ ih => exact .call passes ih

theorem Extends.admits {array : ArrayId} {position : Position} {type : ScalarType}
    (extended : declared.Extends more) (admits : declared.Admits array position type) :
    more.Admits array position type := by
  obtain ⟨declaration, found, typed, inside⟩ := admits
  refine ⟨declaration, extended.arrays _ _ found, typed, ?_⟩
  cases position with
  | fixed position => exact inside
  | indexed value offset => exact extended.values _ _ inside

theorem Extends.hasType {expression : Expression} {type : ValueType}
    (extended : declared.Extends more) (hasType : declared.HasType expression type) :
    more.HasType expression type := by
  cases hasType with
  | literal value => exact .literal value
  | copy sourceType => exact .copy (extended.values _ _ sourceType)
  | load admits => exact .load (extended.admits admits)
  | binary left right => exact .binary (extended.values _ _ left) (extended.values _ _ right)
  | compare left right => exact .compare (extended.values _ _ left) (extended.values _ _ right)

theorem Extends.argument {argument : Argument} (extended : declared.Extends more)
    (passes : argument.Declared declared) : argument.Declared more := by
  cases argument with
  | value source => exact passes.imp fun type found => extended.values _ _ found
  | window array offset length =>
      exact passes.imp fun declaration ⟨found, room⟩ => ⟨extended.arrays _ _ found, room⟩

/-- Code stays typed when more is declared. -/
theorem Typed.extend (typed : declared.Typed code) (extended : declared.Extends more) :
    more.Typed code := by
  induction typed with
  | nil => exact .nil
  | assign hasType targetType _ ih =>
      exact .assign (extended.hasType hasType) (extended.values _ _ targetType) ih
  | store admits valueType _ ih =>
      exact .store (extended.admits admits) (extended.values _ _ valueType) ih
  | loop counts _ _ turn ih => exact .loop (extended.values _ _ counts) turn ih
  | branch conditionType _ _ taken ih => exact .branch (extended.values _ _ conditionType) taken ih
  | call passes _ ih =>
      exact .call (fun argument mem => extended.argument (passes argument mem)) ih

end Laws

end Declarations

end Dataflow
