import Dataflow.Proofs.Routine.Accesses
import Dataflow.Proofs.Routine.SafeBuilding

/-!
# Settling code

Code settles cells: it takes those that are settled before it to those that are settled after it, and
on the way it reads settled cells and writes others.  This can be told from the code, turn by turn of
its loops, when it is known where its arrays begin in the memory.  Every run of such code has a history,
whether it runs to its end or not.
-/

namespace Dataflow

/-! ## Code -/

/-- The loops around some code: their counters, and the turns that they are at. -/
abbrev Turns := List (ValueId × Nat)

/-- A position names an element, at some turns of the loops around it. -/
def Position.Names (turns : Turns) (element : Nat) : Position → Prop
  | .fixed position => position = element
  | .indexed counter offset => ∃ turn, (counter, turn) ∈ turns ∧ turn + offset = element

/-- What is around the code of a routine: the cells in which its arrays begin, and what the routines
that it can call make of settled cells, by the cells in which their arguments begin. -/
structure Surroundings where
  origin : ArrayId → Cell
  callees : String → List Cell → Set Cell → Set Cell → Prop

namespace Surroundings

/-- The cell of an element of a window. -/
def cell (around : Surroundings) (window : ArrayRef) (element : Nat) : Cell :=
  (around.origin window.array).shift (window.offset + element)

/-- An expression reads nothing but settled cells. -/
def Reads (around : Surroundings) (turns : Turns) (settled : Set Cell) : Expression → Prop
  | .load array position =>
      ∃ element, position.Names turns element ∧ (around.origin array).shift element ∈ settled
  | _ => True

/-- Code takes settled cells to other settled cells.  A loop takes them along from turn to turn; the
body of a branch, which may be left out, settles nothing. -/
inductive Settles (around : Surroundings) : Turns → Set Cell → List Instruction → Set Cell → Prop
  | nil {turns : Turns} (settled : Set Cell) : Settles around turns settled [] settled
  | assign {turns : Turns} {settled later : Set Cell} {target : ValueId} {expression : Expression}
      {rest : List Instruction} (reads : around.Reads turns settled expression)
      (free : target ∉ turns.map Prod.fst) (next : Settles around turns settled rest later) :
      Settles around turns settled (.assign target expression :: rest) later
  | store {turns : Turns} {settled later : Set Cell} {array : ArrayId} {position : Position}
      {value : ValueId} {element : Nat} {rest : List Instruction}
      (names : position.Names turns element)
      (free : (around.origin array).shift element ∉ settled)
      (next : Settles around turns (insert ((around.origin array).shift element) settled) rest
        later) :
      Settles around turns settled (.store array position value :: rest) later
  | loop {turns : Turns} {later : Set Cell} {counter : ValueId} {stop : Nat}
      {body rest : List Instruction} (settled : Nat → Set Cell) (free : counter ∉ turns.map Prod.fst)
      (turn : ∀ index < stop,
        Settles around ((counter, index) :: turns) (settled index) body (settled (index + 1)))
      (next : Settles around turns (settled stop) rest later) :
      Settles around turns (settled 0) (.loop counter 0 stop body :: rest) later
  | branch {turns : Turns} {settled later : Set Cell} {condition : ValueId}
      {body rest : List Instruction} (taken : Settles around turns settled body settled)
      (next : Settles around turns settled rest later) :
      Settles around turns settled (.branch condition body :: rest) later
  | host {turns : Turns} {settled later : Set Cell} {name : String} {window : ArrayRef}
      {rest : List Instruction} (reads : ∀ element < window.length, around.cell window element ∈ settled)
      (next : Settles around turns settled rest later) :
      Settles around turns settled
        (.call (.host name) [.window window.array window.offset window.length] :: rest) later
  | routine {turns : Turns} {settled between later : Set Cell} {name : String}
      {windows : List ArrayRef} {rest : List Instruction}
      (callee : around.callees name (windows.map (around.cell · 0)) settled between)
      (next : Settles around turns between rest later) :
      Settles around turns settled
        (.call (.routine name)
          (windows.map fun window => .window window.array window.offset window.length) :: rest) later

theorem Settles.append {around : Surroundings} {turns : Turns} {settled between later : Set Cell}
    {code rest : List Instruction} (first : around.Settles turns settled code between)
    (second : around.Settles turns between rest later) :
    around.Settles turns settled (code ++ rest) later := by
  induction first with
  | nil => exact second
  | assign reads free _ ih => exact .assign reads free (ih second)
  | store names free _ ih => exact .store names free (ih second)
  | loop settled free turn _ _ ih => exact .loop settled free turn (ih second)
  | branch taken _ _ ih => exact .branch taken (ih second)
  | host reads _ ih => exact .host reads (ih second)
  | routine callee _ ih => exact .routine callee (ih second)

end Surroundings

/-! ## Code that was added -/

/-- A routine has grown by code that takes settled cells to others.  The loops around the code count
with variables that were declared before it. -/
def Builder.Settles (around : Surroundings) (turns : Turns) (before : Builder) (settled : Set Cell)
    (after : Builder) (later : Set Cell) : Prop :=
  ∃ code, before.Grows code after ∧
    ((∀ counter ∈ turns.map Prod.fst, counter < before.valueTypes.size) →
      around.Settles turns settled code later)

section Adding

variable {around : Surroundings} {turns : Turns} {before between after : Builder}
  {settled middle later : Set Cell}

theorem Builder.Settles.of_grows (grows : before.Grows [] after) :
    before.Settles around turns settled after settled :=
  ⟨[], grows, fun _ => .nil settled⟩

theorem Builder.Settles.refl (builder : Builder) (settled : Set Cell) :
    builder.Settles around turns settled builder settled :=
  .of_grows (.refl builder)

theorem Builder.Settles.trans (first : before.Settles around turns settled between middle)
    (second : between.Settles around turns middle after later) :
    before.Settles around turns settled after later := by
  obtain ⟨code, grows, settles⟩ := first
  obtain ⟨rest, restGrows, restSettles⟩ := second
  refine ⟨code ++ rest, grows.trans restGrows, fun below => ?_⟩
  refine (settles below).append (restSettles fun counter mem => ?_)
  exact Nat.lt_of_lt_of_le (below counter mem) grows.values_le

/-- A new variable gets the value of an expression. -/
theorem Builder.settles_define {type : ValueType} {expression : Expression}
    (reads : around.Reads turns settled expression) :
    before.Settles around turns settled (before.define type expression) settled :=
  ⟨_, .define before type expression, fun below =>
    .assign reads (fun mem => Nat.lt_irrefl _ (below _ mem)) (.nil settled)⟩

/-- An instruction that settling code can start with. -/
theorem Builder.settles_push {instruction : Instruction}
    (settles : around.Settles turns settled [instruction] later) :
    before.Settles around turns settled (before.push instruction) later :=
  ⟨_, .push before instruction, fun _ => settles⟩

end Adding

/-- An index names an element of its window, at some turns of the loops around it. -/
def Index.Names (turns : Turns) (element : Nat) : Index → Prop
  | .fixed position => position = element
  | .value counter => (counter, element) ∈ turns

theorem Builder.names_of_position {builder : Builder} {window : ArrayRef} {index : Index}
    {position : Position} {turns : Turns} {element : Nat}
    (placed : builder.position window index = .ok position) (names : index.Names turns element) :
    position.Names turns (window.offset + element) := by
  cases index with
  | fixed index =>
      obtain ⟨_, rfl⟩ := position_fixed_eq_ok_iff.mp placed
      exact congrArg (window.offset + ·) names
  | value counter =>
      obtain rfl := position_of_value placed
      exact ⟨element, names, Nat.add_comm _ _⟩

/-! ## Emitter actions -/

namespace Emit

variable {σ : Type} {before after : Builder × σ} {value : ValueId} {result : Unit}
  {around : Surroundings} {turns : Turns} {settled : Set Cell}

theorem settles_literal {constant : Literal}
    (emitted : Succeeds (literal constant : Emit σ ValueId) before value after) :
    before.1.Settles around turns settled after.1 settled := by
  obtain ⟨_, rfl⟩ := succeeds_literal_iff.mp emitted
  exact Builder.settles_define trivial

theorem settles_load {window : ArrayRef} {index : Index} {element : Nat}
    (emitted : Succeeds (load window index : Emit σ ValueId) before value after)
    (names : index.Names turns element) (mem : around.cell window element ∈ settled) :
    before.1.Settles around turns settled after.1 settled := by
  obtain ⟨position, placed, _, rfl⟩ := of_load emitted
  exact Builder.settles_define ⟨_, Builder.names_of_position placed names, mem⟩

theorem settles_store {window : ArrayRef} {index : Index} {element : Nat}
    (emitted : Succeeds (store window index value : Emit σ Unit) before result after)
    (names : index.Names turns element) (free : around.cell window element ∉ settled) :
    before.1.Settles around turns settled after.1 (insert (around.cell window element) settled) := by
  obtain ⟨position, placed, _, rfl⟩ := of_store emitted
  exact Builder.settles_push (.store (Builder.names_of_position placed names) free (.nil _))

theorem settles_binary {op : BinaryOp} {left right : ValueId}
    (emitted : Succeeds (binary op left right : Emit σ ValueId) before value after) :
    before.1.Settles around turns settled after.1 settled := by
  obtain ⟨type, _, rfl⟩ := of_binary emitted
  exact Builder.settles_define trivial

theorem settles_compare {predicate : Predicate} {left right : ValueId}
    (emitted : Succeeds (compare predicate left right : Emit σ ValueId) before value after) :
    before.1.Settles around turns settled after.1 settled := by
  obtain ⟨_, rfl⟩ := of_compare emitted
  exact Builder.settles_define trivial

theorem settles_assign {target source : ValueId}
    (emitted : Succeeds (assign target source : Emit σ Unit) before result after)
    (free : target ∉ turns.map Prod.fst) :
    before.1.Settles around turns settled after.1 settled := by
  obtain rfl := of_assign emitted
  exact Builder.settles_push (.assign trivial free (.nil settled))

/-- A loop takes the settled cells along from turn to turn, as its body does at each of them. -/
theorem settles_loop {stop : Nat} {body : ValueId → Emit σ Unit} (family : Nat → Set Cell)
    (emitted : Succeeds (loop 0 stop body) before result after)
    (turn : ∀ {inner : Builder × σ},
      Succeeds (body before.1.valueTypes.size) ((before.1.withValue .index).openBlock, before.2) ()
        inner →
      (∃ code, (before.1.withValue .index).openBlock.Grows code inner.1) ∧
        ∀ index < stop, (before.1.withValue .index).openBlock.Settles around
          ((before.1.valueTypes.size, index) :: turns) (family index) inner.1 (family (index + 1))) :
    before.1.Settles around turns (family 0) after.1 (family stop) := by
  obtain ⟨inner, own, ran, rfl⟩ := of_loop emitted
  obtain ⟨⟨body, grows⟩, each⟩ := turn ran
  have closed := (Builder.Grows.withValue before.1 .index).trans grows.block.2
  refine ⟨_, closed.trans (.push _ _), fun below => ?_⟩
  refine .loop family (fun mem => Nat.lt_irrefl _ (below _ mem)) (fun index inside => ?_) (.nil _)
  -- the code of the block is the same at all turns
  obtain ⟨code, codeGrows, settles⟩ := each index inside
  rw [codeGrows.block.1]
  refine settles fun counter mem => ?_
  have size : (before.1.withValue .index).openBlock.valueTypes.size =
      before.1.valueTypes.size + 1 := by simp [Builder.withValue]
  rw [size]
  rcases List.mem_cons.mp mem with rfl | earlier
  · exact Nat.lt_succ_self _
  · exact Nat.lt_succ_of_lt (below counter earlier)

theorem settles_branch {condition : ValueId} {body : Emit σ Unit}
    (emitted : Succeeds (branch condition body) before result after)
    (taken : ∀ {inner : Builder × σ},
      Succeeds body (before.1.openBlock, before.2) () inner →
        before.1.openBlock.Settles around turns settled inner.1 settled) :
    before.1.Settles around turns settled after.1 settled := by
  obtain ⟨inner, own, ran, rfl⟩ := of_branch emitted
  obtain ⟨code, grows, settles⟩ := taken ran
  obtain ⟨rfl, closed⟩ := grows.block
  refine ⟨_, closed.trans (.push _ _), fun below => ?_⟩
  exact .branch (settles (by simpa using below)) (.nil settled)

/-- A call of the host with a window. -/
theorem settles_host {name : String} {window : ArrayRef}
    (emitted : Succeeds (call (.host name) [.array window] : Emit σ Unit) before result after)
    (reads : ∀ element < window.length, around.cell window element ∈ settled) :
    before.1.Settles around turns settled after.1 settled := by
  obtain ⟨arguments, passed, rfl⟩ := succeeds_call_iff.mp emitted
  have operands : List.Forall₂ (fun operand argument =>
      before.1.argument operand = .ok argument) ([window].map .array) arguments :=
    mapM_eq_ok_iff.mp passed
  obtain ⟨_, rfl⟩ := arguments_eq_of_checked operands
  exact Builder.settles_push (.host reads (.nil settled))

end Emit

end Dataflow
