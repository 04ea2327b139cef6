import Dataflow.Proofs.Routine.Calls

/-!
# Safe code

Code is safe where it reads only variables that have a value, of the type that its instructions
ask for, where its positions lie inside their arrays for every value of the loop counters, and where
it calls only routines that exist, with windows that fit their parameters.  Safe code fails only
when the host makes it fail: no other failure of a run can be reached.

What is known at a point of the code are the variables that have scalars, and the counters of
the loops around it with the numbers that they stay below.
-/

namespace Dataflow

/-! ## What code refers to -/

/-- What the code of a routine can refer to: its variables and arrays by number, and the routines
that it can call, with their parameters. -/
structure Declarations where
  values : Array ValueType
  arrays : Array ArrayDeclaration
  callees : String → List Parameter → Prop

/-- The counters of the loops around some code, each with a number that it stays below. -/
abbrev Counters := List (ValueId × Nat)

/-- A position stays below a length. -/
def Position.Inside (counters : Counters) (length : Nat) : Position → Prop
  | .fixed position => position < length
  | .indexed counter offset => ∃ bound, (counter, bound) ∈ counters ∧ bound + offset ≤ length

namespace Declarations

/-- A position lies in an array of a type. -/
def Covers (declared : Declarations) (counters : Counters) (array : ArrayId) (position : Position)
    (type : ScalarType) : Prop :=
  ∃ declaration, declared.arrays[array]? = some declaration ∧ declaration.type = type ∧
    position.Inside counters declaration.length

/-- A window lies in an array of its type. -/
def Contains (declared : Declarations) (window : ArrayRef) : Prop :=
  ∃ declaration, declared.arrays[window.array]? = some declaration ∧
    window.offset + window.length ≤ declaration.length ∧ declaration.type = window.type

/-- A variable has a scalar of a type. -/
def Knows (declared : Declarations) (known : Set ValueId) (value : ValueId) (type : ScalarType) :
    Prop :=
  value ∈ known ∧ declared.values[value]? = some (.scalar type)

/-- An expression has a scalar of a type. -/
inductive Yields (declared : Declarations) (counters : Counters) (known : Set ValueId) :
    Expression → ScalarType → Prop
  | literal (scalar : Scalar) : Yields declared counters known (.literal (.scalar scalar)) scalar.type
  | copy {source : ValueId} {type : ScalarType} (knows : declared.Knows known source type) :
      Yields declared counters known (.copy source) type
  | load {array : ArrayId} {position : Position} {type : ScalarType}
      (covers : declared.Covers counters array position type) :
      Yields declared counters known (.load array position) type
  | binary {op : BinaryOp} {left right : ValueId} {type : RealType}
      (left_knows : declared.Knows known left type.toScalarType)
      (right_knows : declared.Knows known right type.toScalarType) :
      Yields declared counters known (.binary op left right) type.toScalarType
  | compare {predicate : Predicate} {left right : ValueId} {type : ScalarType}
      (left_knows : declared.Knows known left type) (right_knows : declared.Knows known right type) :
      Yields declared counters known (.compare predicate left right) .bool

/-- Code is safe where some variables have scalars, and leaves some variables with scalars.  A loop
runs over an array, and its body neither assigns the counter nor relies on variables that are
assigned there; a counter is not known after its loop. -/
inductive Safe (declared : Declarations) :
    Counters → Set ValueId → List Instruction → Set ValueId → Prop
  | nil {counters : Counters} {known fewer : Set ValueId} (subset : fewer ⊆ known) :
      Safe declared counters known [] fewer
  | assign {counters : Counters} {known after : Set ValueId} {target : ValueId}
      {expression : Expression} {type : ScalarType} {rest : List Instruction}
      (yields : declared.Yields counters known expression type)
      (declares : declared.values[target]? = some (.scalar type))
      (free : target ∉ counters.map Prod.fst)
      (next : Safe declared counters (insert target known) rest after) :
      Safe declared counters known (.assign target expression :: rest) after
  | store {counters : Counters} {known after : Set ValueId} {array : ArrayId} {position : Position}
      {value : ValueId} {type : ScalarType} {rest : List Instruction}
      (covers : declared.Covers counters array position type)
      (knows : declared.Knows known value type) (next : Safe declared counters known rest after) :
      Safe declared counters known (.store array position value :: rest) after
  | loop {counters : Counters} {known after : Set ValueId} {counter : ValueId} {stop : Nat}
      {body rest : List Instruction} (counts : declared.values[counter]? = some .index)
      (free : counter ∉ counters.map Prod.fst)
      (ranges : ∃ declaration ∈ declared.arrays, stop ≤ declaration.length)
      (turn : Safe declared ((counter, stop) :: counters) known body known)
      (next : Safe declared counters known rest after) :
      Safe declared counters known (.loop counter 0 stop body :: rest) after
  | branch {counters : Counters} {known after : Set ValueId} {condition : ValueId}
      {body rest : List Instruction} (knows : declared.Knows known condition .bool)
      (taken : Safe declared counters known body known)
      (next : Safe declared counters known rest after) :
      Safe declared counters known (.branch condition body :: rest) after
  | host {counters : Counters} {known after : Set ValueId} {name : String} {window : ArrayRef}
      {rest : List Instruction} (contains : declared.Contains window)
      (next : Safe declared counters known rest after) :
      Safe declared counters known
        (.call (.host name) [.window window.array window.offset window.length] :: rest) after
  | routine {counters : Counters} {known after : Set ValueId} {name : String}
      {parameters : List Parameter} {windows : List ArrayRef} {rest : List Instruction}
      (callee : declared.callees name parameters)
      (fits : List.Forall₂ (fun (parameter : Parameter) (window : ArrayRef) =>
        parameter.type = window.type ∧ parameter.length = window.length) parameters windows)
      (contains : ∀ window ∈ windows, declared.Contains window)
      (next : Safe declared counters known rest after) :
      Safe declared counters known
        (.call (.routine name)
          (windows.map fun window => .window window.array window.offset window.length) :: rest) after

/-! ## Laws of safe code -/

section Laws

variable {declared more : Declarations} {counters : Counters} {known between after : Set ValueId}
  {code rest : List Instruction}

theorem Knows.mono {value : ValueId} {type : ScalarType} {others : Set ValueId}
    (knows : declared.Knows known value type) (subset : known ⊆ others) :
    declared.Knows others value type :=
  ⟨subset knows.1, knows.2⟩

theorem Yields.mono {expression : Expression} {type : ScalarType} {others : Set ValueId}
    (yields : declared.Yields counters known expression type) (subset : known ⊆ others) :
    declared.Yields counters others expression type := by
  cases yields with
  | literal scalar => exact .literal scalar
  | copy knows => exact .copy (knows.mono subset)
  | load covers => exact .load covers
  | binary left right => exact .binary (left.mono subset) (right.mono subset)
  | compare left right => exact .compare (left.mono subset) (right.mono subset)

/-- Code may leave less. -/
theorem Safe.weaken {fewer : Set ValueId} (safe : declared.Safe counters known code after)
    (subset : fewer ⊆ after) : declared.Safe counters known code fewer := by
  induction safe with
  | nil upTo => exact .nil (subset.trans upTo)
  | assign yields declares free _ ih => exact .assign yields declares free (ih subset)
  | store covers knows _ ih => exact .store covers knows (ih subset)
  | loop counts free ranges turn _ _ ih => exact .loop counts free ranges turn (ih subset)
  | branch knows taken _ _ ih => exact .branch knows taken (ih subset)
  | host contains _ ih => exact .host contains (ih subset)
  | routine callee fits contains _ ih => exact .routine callee fits contains (ih subset)

/-- Code leaves the other variables that have scalars as they are. -/
theorem Safe.frame (safe : declared.Safe counters known code after) (others : Set ValueId) :
    declared.Safe counters (known ∪ others) code (after ∪ others) := by
  induction safe with
  | nil upTo => exact .nil (Set.union_subset_union_left others upTo)
  | assign yields declares free _ ih =>
      refine .assign (yields.mono Set.subset_union_left) declares free ?_
      rwa [← Set.insert_union]
  | store covers knows _ ih => exact .store covers (knows.mono Set.subset_union_left) ih
  | loop counts free ranges _ _ turn ih => exact .loop counts free ranges turn ih
  | branch knows _ _ taken ih => exact .branch (knows.mono Set.subset_union_left) taken ih
  | host contains _ ih => exact .host contains ih
  | routine callee fits contains _ ih => exact .routine callee fits contains ih

/-- Code stays safe where more variables have scalars. -/
theorem Safe.mono {others : Set ValueId} (safe : declared.Safe counters known code after)
    (subset : known ⊆ others) : declared.Safe counters others code after := by
  have framed := safe.frame others
  rw [Set.union_eq_self_of_subset_left subset] at framed
  exact framed.weaken Set.subset_union_left

theorem Safe.append (first : declared.Safe counters known code between)
    (second : declared.Safe counters between rest after) :
    declared.Safe counters known (code ++ rest) after := by
  induction first with
  | nil upTo => exact second.mono upTo
  | assign yields declares free _ ih => exact .assign yields declares free (ih second)
  | store covers knows _ ih => exact .store covers knows (ih second)
  | loop counts free ranges turn _ _ ih => exact .loop counts free ranges turn (ih second)
  | branch knows taken _ _ ih => exact .branch knows taken (ih second)
  | host contains _ ih => exact .host contains (ih second)
  | routine callee fits contains _ ih => exact .routine callee fits contains (ih second)

/-- Declarations after which others were added. -/
structure Extends (declared more : Declarations) : Prop where
  values : ∀ (value : ValueId) (type : ValueType), declared.values[value]? = some type →
    more.values[value]? = some type
  arrays : ∀ (array : ArrayId) (declaration : ArrayDeclaration),
    declared.arrays[array]? = some declaration → more.arrays[array]? = some declaration
  callees : ∀ name parameters, declared.callees name parameters → more.callees name parameters

theorem Extends.knows {value : ValueId} {type : ScalarType} (extended : declared.Extends more)
    (knows : declared.Knows known value type) : more.Knows known value type :=
  ⟨knows.1, extended.values _ _ knows.2⟩

theorem Extends.covers {array : ArrayId} {position : Position} {type : ScalarType}
    (extended : declared.Extends more) (covers : declared.Covers counters array position type) :
    more.Covers counters array position type := by
  obtain ⟨declaration, found, rest⟩ := covers
  exact ⟨declaration, extended.arrays _ _ found, rest⟩

theorem Extends.contains {window : ArrayRef} (extended : declared.Extends more)
    (contains : declared.Contains window) : more.Contains window := by
  obtain ⟨declaration, found, rest⟩ := contains
  exact ⟨declaration, extended.arrays _ _ found, rest⟩

theorem Extends.yields {expression : Expression} {type : ScalarType}
    (extended : declared.Extends more) (yields : declared.Yields counters known expression type) :
    more.Yields counters known expression type := by
  cases yields with
  | literal scalar => exact .literal scalar
  | copy knows => exact .copy (extended.knows knows)
  | load covers => exact .load (extended.covers covers)
  | binary left right => exact .binary (extended.knows left) (extended.knows right)
  | compare left right => exact .compare (extended.knows left) (extended.knows right)

/-- Code stays safe when more is declared. -/
theorem Safe.extend (safe : declared.Safe counters known code after)
    (extended : declared.Extends more) : more.Safe counters known code after := by
  induction safe with
  | nil upTo => exact .nil upTo
  | assign yields declares free _ ih =>
      exact .assign (extended.yields yields) (extended.values _ _ declares) free ih
  | store covers knows _ ih => exact .store (extended.covers covers) (extended.knows knows) ih
  | loop counts free ranges _ _ turn ih =>
      obtain ⟨declaration, mem, upTo⟩ := ranges
      obtain ⟨array, found⟩ := Array.mem_iff_getElem?.mp mem
      exact .loop (extended.values _ _ counts) free
        ⟨declaration, Array.mem_of_getElem? (extended.arrays _ _ found), upTo⟩ turn ih
  | branch knows _ _ taken ih => exact .branch (extended.knows knows) taken ih
  | host contains _ ih => exact .host (extended.contains contains) ih
  | routine callee fits contains _ ih =>
      exact .routine (extended.callees _ _ callee) fits
        (fun window mem => extended.contains (contains window mem)) ih

end Laws

end Declarations

end Dataflow
