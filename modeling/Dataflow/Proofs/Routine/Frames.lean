import Dataflow.Proofs.Routine.Accounts

/-!
# What a call touches

A routine sees the heap through views, and a window of a view lies within the view.  So a call changes
no cells but those of the views that it was given, however they overlap and however the call ends.  Of
these, it changes only those that the routine may write, by a store or through the calls in its code.
The arrays of the routine itself lie behind the heap of its caller, and they are gone afterwards.
-/

namespace Dataflow

/-! ## Cells of views -/

theorem View.mem_cells_iff {view : View} {cell : Cell} :
    cell ∈ view.cells ↔ cell.slot = view.slot ∧ view.offset ≤ cell.element ∧
      cell.element < view.offset + view.length := by
  obtain ⟨slot, element⟩ := cell
  simp only [cells, origin, Cell.shift, List.mem_map, List.mem_range, Cell.mk.injEq]
  constructor
  · rintro ⟨index, inside, rfl, rfl⟩
    exact ⟨rfl, Nat.le_add_right _ _, Nat.add_lt_add_left inside _⟩
  · rintro ⟨rfl, start, stop⟩
    exact ⟨element - view.offset, by omega, rfl, by omega⟩

/-- The cells that can be reached through some of the views, which are given by their numbers. -/
def reachOf (views : List View) (arrays : Set ArrayId) : Set Cell :=
  {cell | ∃ array ∈ arrays, ∃ view, views[array]? = some view ∧ cell ∈ view.cells}

section Views

variable {views : Array View} {array : ArrayId} {before after : Machine}

/-- A position that is found is a cell of its array. -/
theorem exists_view_of_locate {position : Position} {slot element : Nat}
    (found : Succeeds (Run.locate views array position) before (slot, element) after) :
    ∃ view, views[array]? = some view ∧ ⟨slot, element⟩ ∈ view.cells := by
  simp only [Run.locate, succeeds_bind_iff] at found
  obtain ⟨view, _, viewed, rest⟩ := found
  obtain ⟨index, between, inside⟩ : ∃ index between,
      Succeeds (if index < view.length then pure (view.slot, view.offset + index)
        else throw (.indexOutOfBounds index view.length) : Run (Nat × Nat)) between (slot, element)
        after := by
    cases position with
    | fixed position =>
        obtain ⟨index, between, _, inside⟩ := succeeds_bind_iff.mp rest
        exact ⟨index, between, inside⟩
    | indexed counter offset =>
        obtain ⟨index, between, _, inside⟩ := succeeds_bind_iff.mp rest
        exact ⟨index, between, inside⟩
  split at inside
  · rename_i below
    obtain ⟨rfl, rfl⟩ := Prod.mk.inj (succeeds_pure_iff.mp inside).1
    exact ⟨view, of_view viewed,
      View.mem_cells_iff.mpr ⟨rfl, Nat.le_add_right _ _, Nat.add_lt_add_left below _⟩⟩
  · exact absurd inside not_succeeds_throw

/-- A window lies within its array. -/
theorem exists_view_of_window {offset length : Nat} {view : View}
    (found : Succeeds (Run.window views array offset length) before view after) :
    ∃ parent, views[array]? = some parent ∧ ∀ cell ∈ view.cells, cell ∈ parent.cells := by
  simp only [Run.window, succeeds_bind_iff] at found
  obtain ⟨parent, _, viewed, rest⟩ := found
  split at rest
  · rename_i room
    obtain ⟨rfl, _⟩ := succeeds_pure_iff.mp rest
    refine ⟨parent, of_view viewed, fun cell mem => ?_⟩
    obtain ⟨slot, start, stop⟩ := View.mem_cells_iff.mp mem
    dsimp only at slot start stop
    exact View.mem_cells_iff.mpr ⟨slot, by omega, by omega⟩
  · exact absurd rest not_succeeds_throw

/-- What is passed to a routine are windows within the arrays that its arguments name. -/
theorem exists_view_of_windows {activation : Activation} {callee : String} {index : Nat}
    {arguments : List Argument} {passed : List View}
    (found : Succeeds (activation.windows callee index arguments) before passed after)
    {number : Nat} {view : View} (viewed : passed[number]? = some view) :
    ∃ array offset length parent, arguments[number]? = some (.window array offset length) ∧
      activation.views[array]? = some parent ∧ ∀ cell ∈ view.cells, cell ∈ parent.cells := by
  induction arguments generalizing index passed before after number with
  | nil =>
      obtain ⟨rfl, _⟩ := succeeds_pure_iff.mp found
      simp at viewed
  | cons argument rest ih =>
      cases argument with
      | value source => exact absurd found not_succeeds_throw
      | window array offset length =>
          simp only [Activation.windows, succeeds_bind_iff, succeeds_pure_iff] at found
          obtain ⟨first, _, one, others, _, all, rfl, _⟩ := found
          cases number with
          | zero =>
              obtain rfl := Option.some.inj viewed
              obtain ⟨parent, parentViewed, within⟩ := exists_view_of_window one
              exact ⟨array, offset, length, parent, rfl, parentViewed, within⟩
          | succ number => exact ih all viewed

end Views

/-! ## Machines that agree outside of some cells -/

/-- Two machines are alike, and all cells but some hold the same. -/
structure Machine.AgreeOutside (cells : Set Cell) (before after : Machine) : Prop where
  alike : before.Alike after
  holds : ∀ cell, cell ∉ cells → after.holds cell = before.holds cell

namespace Machine.AgreeOutside

variable {cells more : Set Cell} {before between after : Machine}

theorem refl (cells : Set Cell) (machine : Machine) : AgreeOutside cells machine machine :=
  ⟨.refl machine, fun _ _ => rfl⟩

theorem trans (first : AgreeOutside cells before between) (second : AgreeOutside cells between after) :
    AgreeOutside cells before after :=
  ⟨first.alike.trans second.alike,
    fun cell outside => (second.holds cell outside).trans (first.holds cell outside)⟩

theorem mono (agree : AgreeOutside cells before after) (subset : cells ⊆ more) :
    AgreeOutside more before after :=
  ⟨agree.alike, fun cell outside => agree.holds cell fun mem => outside (subset mem)⟩

/-- A buffer without any of the cells is the same. -/
theorem getElem?_heap (agree : AgreeOutside cells before after) {slot : Nat}
    (outside : ∀ cell ∈ cells, cell.slot ≠ slot) : after.heap[slot]? = before.heap[slot]? := by
  cases found : before.heap[slot]? with
  | none =>
      rw [Array.getElem?_eq_none_iff] at found ⊢
      exact agree.alike.size_heap ▸ found
  | some buffer =>
      obtain ⟨changed, stored, type, _⟩ := agree.alike.shapes slot buffer found
      rw [stored]
      refine congrArg some (Buffer.ext_get? type fun index => ?_)
      have same := agree.holds ⟨slot, index⟩ fun mem => outside _ mem rfl
      simpa [Machine.holds, found, stored] using same

end Machine.AgreeOutside

/-! ## Actions that touch cells -/

/-- Whether it fails or not, an action changes no cells but some. -/
def Touches {α : Type} (cells : Set Cell) (action : Run α) : Prop :=
  ∀ before, Machine.AgreeOutside cells before (outcome action before).2

section Touching

variable {α β : Type} {cells more : Set Cell} {action : Run α}

theorem Reading.touches (reading : Reading action) (cells : Set Cell) : Touches cells action :=
  fun before => (reading before).symm ▸ .refl cells before

theorem Touches.mono (touches : Touches cells action) (subset : cells ⊆ more) : Touches more action :=
  fun before => (touches before).mono subset

theorem Touches.bind {next : α → Run β} (first : Touches cells action)
    (second : ∀ before value between, Succeeds action before value between →
      Touches cells (next value)) : Touches cells (action >>= next) := by
  intro before
  have agree := first before
  rw [outcome_bind]
  rcases done : outcome action before with ⟨error | value, between⟩
  · rwa [done] at agree
  · rw [done] at agree
    exact agree.trans (second before value between done between)

theorem touches_forRange {turn : Nat → Run Unit} (each : ∀ index, Touches cells (turn index))
    (first count : Nat) : Touches cells (Activation.forRange turn first count) := by
  induction count generalizing first with
  | zero => exact (reading_pure ()).touches cells
  | succ count ih => exact (each first).bind fun _ _ _ _ => ih (first + 1)

theorem touches_writeValue (target : ValueId) (literal : Literal) :
    Touches cells (Run.writeValue target literal) :=
  fun before => ⟨before.alike_write target literal, fun _ _ => rfl⟩

theorem touches_writeElement {slot element : Nat} (mem : ⟨slot, element⟩ ∈ cells) (scalar : Scalar) :
    Touches cells (Run.writeElement slot element scalar) := by
  refine (reading_get.touches cells).bind fun _ machine _ _ => ?_
  split
  · exact fun before => ⟨before.alike_set slot element scalar, fun cell outside =>
      Machine.holds_set fun same => outside (same ▸ mem)⟩
  · exact (reading_throw _).touches cells

theorem touches_callHost (host : Host) (name : String) (arguments : List HostValue) :
    Touches cells (Run.callHost host name arguments) := by
  intro before
  rw [Activation.outcome_callHost]
  cases host.function? name with
  | none => exact .refl cells before
  | some function => exact ⟨⟨rfl, rfl, fun _ buffer found => ⟨buffer, found, rfl, rfl⟩⟩, fun _ _ => rfl⟩

end Touching

/-! ## Code -/

namespace Activation

variable {activation : Activation} {cells : Set Cell}

/-- The stores and the calls of routines in some code change no cells but some. -/
structure Confines (activation : Activation) (cells : Set Cell) (code : List Instruction) : Prop where
  stores : ∀ array position value, Instruction.Occurs (.store array position value) code →
    ∀ view, activation.views[array]? = some view → ∀ cell ∈ view.cells, cell ∈ cells
  calls : ∀ name arguments, Instruction.Occurs (.call (.routine name) arguments) code →
    ∀ before passed after, Succeeds (activation.windows name 0 arguments) before passed after →
      Touches cells (activation.call name passed)

theorem Confines.of_occurs {code part : List Instruction} (confines : activation.Confines cells code)
    (occurs : ∀ instruction : Instruction, instruction.Occurs part → instruction.Occurs code) :
    activation.Confines cells part :=
  ⟨fun array position value within => confines.stores array position value (occurs _ within),
    fun name arguments within => confines.calls name arguments (occurs _ within)⟩

theorem Confines.head {instruction : Instruction} {rest : List Instruction}
    (confines : activation.Confines cells (instruction :: rest)) :
    activation.Confines cells [instruction] :=
  confines.of_occurs fun _ occurs => occurs.of_singleton rest

theorem Confines.tail {instruction : Instruction} {rest : List Instruction}
    (confines : activation.Confines cells (instruction :: rest)) : activation.Confines cells rest :=
  confines.of_occurs fun _ => .later

mutual

/-- An instruction touches only what its stores and calls touch, with one case for each kind of
instruction. -/
theorem touches_execute : ∀ instruction : Instruction, activation.Confines cells [instruction] →
    Touches cells (activation.execute instruction)
  | .assign target expression, _ => by
      rw [execute]
      exact ((reading_evaluate activation expression).touches _).bind fun _ _ _ _ =>
        touches_writeValue _ _
  | .store array position value, confines => by
      rw [execute]
      refine ((reading_locate _ array position).touches _).bind fun _ _ _ found =>
        ((reading_readScalar value).touches _).bind fun _ _ _ _ => ?_
      obtain ⟨view, viewed, mem⟩ := exists_view_of_locate found
      exact touches_writeElement (confines.stores array position value .here view viewed _ mem) _
  | .loop counter start stop body, confines => by
      rw [execute]
      have inside : activation.Confines cells body := confines.of_occurs fun _ => .loop
      exact touches_forRange (fun index => (touches_writeValue counter _).bind fun _ _ _ _ =>
        touches_executeBody body inside) start _
  | .branch condition body, confines => by
      rw [execute]
      have inside : activation.Confines cells body := confines.of_occurs fun _ => .branch
      refine ((reading_readValue condition).touches _).bind fun _ literal _ _ => ?_
      split
      · exact touches_executeBody body inside
      · exact (reading_pure ()).touches _
      · exact (reading_throw _).touches _
  | .call (.routine name) arguments, confines => by
      rw [execute]
      exact ((reading_windows activation name 0 arguments).touches _).bind fun _ passed _ found =>
        confines.calls name arguments .here _ passed _ found
  | .call (.host name) arguments, _ => by
      rw [execute]
      exact ((reading_mapM (reading_hostValue activation) arguments).touches _).bind fun _ _ _ _ =>
        touches_callHost _ _ _

theorem touches_executeBody : ∀ body : List Instruction, activation.Confines cells body →
    Touches cells (activation.executeBody body)
  | [], _ => by
      rw [executeBody]
      exact (reading_pure ()).touches _
  | instruction :: rest, confines => by
      rw [executeBody]
      exact (touches_execute instruction confines.head).bind fun _ _ _ _ =>
        touches_executeBody rest confines.tail

end

end Activation

/-! ## What routines write -/

/-- A routine may write to an array: it stores there, or it passes a window of it for a parameter to
which the callee may write. -/
inductive Program.Writes (program : Program) : String → ArrayId → Prop
  | store {name : String} {routine : Routine} {array : ArrayId} {position : Position} {value : ValueId}
      (found : program.routine? name = some routine)
      (occurs : Instruction.Occurs (.store array position value) routine.body) :
      Writes program name array
  | pass {name callee : String} {routine : Routine} {arguments : List Argument} {index : Nat}
      {array : ArrayId} {offset length : Nat} (found : program.routine? name = some routine)
      (occurs : Instruction.Occurs (.call (.routine callee) arguments) routine.body)
      (passes : arguments[index]? = some (.window array offset length))
      (writes : Writes program callee index) : Writes program name array

/-- The cells that a routine may write, with views of its arrays. -/
def Program.written (program : Program) (name : String) (views : List View) : Set Cell :=
  reachOf views {array | program.Writes name array}

/-! ## Calls -/

section Calls

variable {program : Program} {host : Host} {name : String} {routine : Routine}
  {arguments : List View} {before after : Machine}

/-- The views of a routine are those that were passed and those of its local arrays, which lie one
after another. -/
theorem Routine.views_cases {base array : Nat} {view : View}
    (viewed : (arguments ++ viewsFrom base routine.locals)[array]? = some view) :
    arguments[array]? = some view ∨
      arguments.length ≤ array ∧ view.slot = base + (array - arguments.length) := by
  rw [List.getElem?_append] at viewed
  split at viewed
  · exact .inl viewed
  · rename_i beyond
    rw [viewsFrom, List.getElem?_mapIdx, Option.map_eq_some_iff] at viewed
    obtain ⟨_, _, rfl⟩ := viewed
    exact .inr ⟨Nat.le_of_not_lt beyond, rfl⟩

/-- What a routine reaches, its caller has passed, or it lies behind the heap of its caller. -/
theorem Routine.mem_reachOf_views {base : Nat} {arrays : Set ArrayId} {cell : Cell}
    (mem : cell ∈ reachOf (arguments ++ viewsFrom base routine.locals) arrays) :
    cell ∈ reachOf arguments arrays ∨ base ≤ cell.slot := by
  obtain ⟨array, chosen, view, viewed, within⟩ := mem
  rcases Routine.views_cases viewed with passed | ⟨_, own⟩
  · exact .inl ⟨array, chosen, view, passed, within⟩
  · exact .inr ((View.mem_cells_iff.mp within).1 ▸ own ▸ Nat.le_add_right _ _)

/-- Back where a routine was called, only the cells that were passed can have changed: the arrays of
the routine lie behind the heap of the caller. -/
theorem Machine.AgreeOutside.leave {arrays : Set ArrayId}
    (agree : AgreeOutside (reachOf (arguments ++ viewsFrom before.heap.size routine.locals) arrays)
      (before.enter routine) after) :
    AgreeOutside (reachOf arguments arrays) before (after.leave before) := by
  have alike := agree.alike.leave
  refine ⟨alike, fun cell outside => ?_⟩
  by_cases inside : cell.slot < before.heap.size
  · have notOwn :
        cell ∉ reachOf (arguments ++ viewsFrom before.heap.size routine.locals) arrays := fun mem =>
      (Routine.mem_reachOf_views mem).elim outside (Nat.not_le.mpr inside)
    have kept := agree.holds cell notOwn
    have entered : (before.enter routine).holds cell = before.holds cell := by
      simp only [Machine.holds, enter, Array.getElem?_append_left inside]
    have room : before.heap.size ≤ after.heap.size := by
      rw [agree.alike.size_heap]
      simp [enter]
    have left : (after.leave before).holds cell = after.holds cell := by
      have below := Nat.lt_of_lt_of_le inside room
      simp [Machine.holds, Machine.leave, inside, below]
    rw [left, kept, entered]
  · have absent : ∀ machine : Machine, machine.heap.size = before.heap.size →
        machine.holds cell = none := by
      intro machine size
      have beyond : machine.heap[cell.slot]? = none := by
        rw [Array.getElem?_eq_none_iff]
        omega
      simp [Machine.holds, beyond]
    rw [absent _ alike.size_heap, absent _ rfl]

/-- A call leaves the machine alone, or it runs the body of a routine, to its end or not. -/
theorem Program.call_cases (host : Host) (depth : Nat) (name : String) (arguments : List View)
    (before : Machine) :
    (outcome (program.call host (depth + 1) name arguments) before).2 = before ∨
      ∃ routine, program.routine? name = some routine ∧
        (outcome (program.call host (depth + 1) name arguments) before).2 =
          (outcome ((program.activation host depth routine arguments before.heap.size).executeBody
            routine.body) (before.enter routine)).2.leave before := by
  cases found : program.routine? name with
  | none =>
      left
      simp only [Program.call, found]
      rfl
  | some routine =>
      rcases looks_checkArguments routine arguments before with
        ⟨_, _, accepts⟩ | ⟨error, refused, _⟩
      · exact .inr ⟨routine, rfl, by rw [Program.outcome_call found accepts]⟩
      · left
        simp only [Program.call, found]
        rw [outcome_bind, refused]

/-- What a callee may write of its arguments, the routine that calls it may write of its arrays. -/
theorem Program.written_subset_of_windows (found : program.routine? name = some routine)
    {callee : String} {given : List Argument} {activation : Activation} {index : Nat}
    {passed : List View} (occurs : Instruction.Occurs (.call (.routine callee) given) routine.body)
    (passes : Succeeds (activation.windows callee index given) before passed after) :
    program.written callee passed ⊆ program.written name activation.views.toList := by
  rintro cell ⟨number, writes, view, viewed, mem⟩
  obtain ⟨array, offset, length, parent, names, parentViewed, within⟩ :=
    exists_view_of_windows passes viewed
  exact ⟨array, .pass found occurs names writes, parent,
    Array.getElem?_toList.trans parentViewed, within cell mem⟩

/-- The body of a routine touches only what the routine may write, if its callees do. -/
theorem Program.confines_activation (found : program.routine? name = some routine) {depth : Nat}
    (callees : ∀ callee passed,
      Touches (program.written callee passed) (program.call host depth callee passed))
    (arguments : List View) (base : Nat) :
    (program.activation host depth routine arguments base).Confines
      (program.written name (arguments ++ viewsFrom base routine.locals)) routine.body :=
  ⟨fun array _ _ occurs view viewed _ mem =>
      ⟨array, .store found occurs, view, List.getElem?_toArray.symm.trans viewed, mem⟩,
    fun callee _ occurs _ passed _ passes =>
      (callees callee passed).mono (Program.written_subset_of_windows found occurs passes)⟩

/-- A call touches only what the routine may write.  The induction is on the number of calls that may
be open. -/
theorem Program.touches_written (program : Program) (host : Host) (depth : Nat) (name : String)
    (arguments : List View) :
    Touches (program.written name arguments) (program.call host depth name arguments) := by
  induction depth generalizing name arguments with
  | zero => exact (reading_throw _).touches _
  | succ depth ih =>
      intro before
      rcases program.call_cases host depth name arguments before with same | ⟨routine, found, left⟩
      · rw [same]
        exact .refl _ before
      · have ran := Activation.touches_executeBody routine.body
          (program.confines_activation found ih arguments before.heap.size) (before.enter routine)
        rw [left]
        exact Machine.AgreeOutside.leave ran

end Calls

end Dataflow
