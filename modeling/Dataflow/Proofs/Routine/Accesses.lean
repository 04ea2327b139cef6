import Dataflow.Proofs.Routine.Moments
import Mathlib.Data.Set.Insert

/-!
# Accesses of a run

Before each instruction, a moment of a run says which cells of the memory the instruction reads and
which cell it writes.  A run assigns each cell once if it writes no cell that is settled, which is one
that was given or written before, and reads no other cells than those.  The history of such a run says
which cells are settled at each moment, and that they hold what they hold in the end.
-/

namespace Dataflow

/-! ## Cells -/

/-- A cell of the memory. -/
structure Cell where
  slot : Nat
  element : Nat
  deriving DecidableEq, Repr, Inhabited

/-- The cell some elements further on. -/
def Cell.shift (cell : Cell) (count : Nat) : Cell :=
  { cell with element := cell.element + count }

@[simp]
theorem Cell.slot_shift (cell : Cell) (count : Nat) : (cell.shift count).slot = cell.slot :=
  rfl

@[simp]
theorem Cell.shift_shift (cell : Cell) (first second : Nat) :
    (cell.shift first).shift second = cell.shift (first + second) := by
  simp [shift, Nat.add_assoc]

@[simp]
theorem Cell.shift_inj {cell : Cell} {first second : Nat} :
    cell.shift first = cell.shift second ↔ first = second := by
  simp [shift]

/-- The first cell of a view. -/
def View.origin (view : View) : Cell :=
  ⟨view.slot, view.offset⟩

/-- The cells of a view. -/
def View.cells (view : View) : List Cell :=
  (List.range view.length).map view.origin.shift

/-- What a cell holds. -/
def Machine.holds (machine : Machine) (cell : Cell) : Option Scalar :=
  machine.heap[cell.slot]?.bind (·.get? cell.element)

/-! ## Actions that read -/

/-- An action that leaves the machine as it is, whether it fails or not. -/
def Reading {α : Type} (action : Run α) : Prop :=
  ∀ before, (outcome action before).2 = before

section Reading

variable {α β : Type}

theorem Reading.eq {action : Run α} (reading : Reading action) {before after : Machine} {value : α}
    (done : Succeeds action before value after) : after = before :=
  (congrArg Prod.snd done).symm.trans (reading before)

theorem reading_pure (value : α) : Reading (pure value) :=
  fun _ => rfl

theorem reading_throw (error : RunError) : Reading (throw error : Run α) :=
  fun _ => rfl

theorem Reading.bind {action : Run α} {next : α → Run β} (first : Reading action)
    (second : ∀ value, Reading (next value)) : Reading (action >>= next) := by
  intro before
  have same := first before
  rw [outcome_bind]
  generalize outcome action before = done at same ⊢
  rcases done with ⟨error | value, between⟩
  · exact same
  · exact (second value between).trans same

theorem Reading.map {action : Run α} (reading : Reading action) (change : α → β) :
    Reading (change <$> action) := by
  rw [← bind_pure_comp]
  exact reading.bind fun _ => reading_pure _

theorem reading_get : Reading (get : Run Machine) :=
  fun _ => rfl

theorem reading_readValue (value : ValueId) : Reading (Run.readValue value) := by
  refine reading_get.bind fun machine => ?_
  split
  · exact reading_pure _
  · exact reading_throw _

theorem reading_readIndex (value : ValueId) : Reading (Run.readIndex value) := by
  refine (reading_readValue value).bind fun literal => ?_
  split
  · exact reading_pure _
  · exact reading_throw _

theorem reading_readScalar (value : ValueId) : Reading (Run.readScalar value) := by
  refine (reading_readValue value).bind fun literal => ?_
  split
  · exact reading_pure _
  · exact reading_throw _

theorem reading_view (views : Array View) (array : ArrayId) : Reading (Run.view views array) := by
  unfold Run.view
  split
  · exact reading_pure _
  · exact reading_throw _

theorem reading_locate (views : Array View) (array : ArrayId) (position : Position) :
    Reading (Run.locate views array position) := by
  refine (reading_view views array).bind fun view => ?_
  have inside : ∀ element, Reading (if element < view.length then
      pure (view.slot, view.offset + element)
      else throw (.indexOutOfBounds element view.length) : Run (Nat × Nat)) := by
    intro element
    split
    · exact reading_pure _
    · exact reading_throw _
  cases position with
  | fixed position => exact (reading_pure position).bind inside
  | indexed counter offset => exact ((reading_readIndex counter).map _).bind inside

theorem reading_readElement (slot element : Nat) : Reading (Run.readElement slot element) := by
  refine reading_get.bind fun machine => ?_
  dsimp only
  split
  · exact reading_pure _
  · exact reading_throw _

theorem reading_window (views : Array View) (array : ArrayId) (offset length : Nat) :
    Reading (Run.window views array offset length) := by
  refine (reading_view views array).bind fun parent => ?_
  split
  · exact reading_pure _
  · exact reading_throw _

theorem reading_readWindow (view : View) : Reading (Run.readWindow view) := by
  refine reading_get.bind fun machine => ?_
  dsimp only
  split
  · exact reading_pure _
  · exact reading_throw _

theorem reading_evaluate (activation : Activation) (expression : Expression) :
    Reading (activation.evaluate expression) := by
  cases expression with
  | literal value => exact reading_pure _
  | copy source => exact reading_readValue source
  | load array position =>
      exact (reading_locate _ array position).bind fun _ =>
        (reading_readElement _ _).bind fun _ => reading_pure _
  | binary op left right =>
      refine (reading_readValue left).bind fun _ => (reading_readValue right).bind fun _ => ?_
      repeat' split
      all_goals first | exact reading_pure _ | exact reading_throw _
  | compare predicate left right =>
      refine (reading_readValue left).bind fun _ => (reading_readValue right).bind fun _ => ?_
      repeat' split
      all_goals first | exact reading_pure _ | exact reading_throw _

theorem reading_hostValue (activation : Activation) (argument : Argument) :
    Reading (activation.hostValue argument) := by
  cases argument with
  | value source => exact (reading_readScalar source).map _
  | window array offset length =>
      exact (reading_window _ array offset length).bind fun view => (reading_readWindow view).map _

theorem reading_windows (activation : Activation) (callee : String) (index : Nat)
    (arguments : List Argument) : Reading (activation.windows callee index arguments) := by
  induction arguments generalizing index with
  | nil => exact reading_pure []
  | cons argument rest ih =>
      cases argument with
      | value value => exact reading_throw _
      | window array offset length =>
          exact (reading_window _ array offset length).bind fun _ =>
            (ih (index + 1)).bind fun _ => reading_pure _

theorem reading_mapM {action : α → Run β} (each : ∀ item, Reading (action item)) (items : List α) :
    Reading (items.mapM action) := by
  induction items with
  | nil => exact reading_pure _
  | cons item items ih =>
      rw [List.mapM_cons]
      exact (each item).bind fun _ => ih.bind fun _ => reading_pure _

end Reading

/-! ## Accesses -/

/-- What an instruction does to a cell. -/
inductive Access
  | read (cell : Cell)
  | write (cell : Cell)
  deriving DecidableEq, Repr

namespace Moment

/-- The cell that a position of an array stands for. -/
def located (moment : Moment) (array : ArrayId) (position : Position) : List Cell :=
  match (outcome (Run.locate moment.views array position) moment.machine).1 with
  | .ok (slot, element) => [⟨slot, element⟩]
  | .error _ => []

/-- The cells that an argument hands over. -/
def handed (moment : Moment) : Argument → List Cell
  | .value _ => []
  | .window array offset length =>
      match (outcome (Run.window moment.views array offset length) moment.machine).1 with
      | .ok view => view.cells
      | .error _ => []

/-- The accesses of the instruction that comes next.  The body of a loop or a branch and a routine
that is called have moments of their own. -/
def accesses (moment : Moment) : List Access :=
  match moment.code with
  | .assign _ (.load array position) :: _ => (moment.located array position).map .read
  | .store array position _ :: _ => (moment.located array position).map .write
  | .call (.host _) arguments :: _ => (arguments.flatMap moment.handed).map .read
  | _ => []

end Moment

/-- The accesses of several moments, in the order of time. -/
def accessesOf (moments : List Moment) : List Access :=
  moments.flatMap Moment.accesses

namespace Observed

/-- The first moment of some code has the machine that the code starts on. -/
theorem exists_moments_eq_cons (observed : Observed) (code : List Instruction)
    (machine : Machine) :
    ∃ later, observed.moments code machine = observed.moment code machine :: later := by
  cases code <;> exact ⟨_, rfl⟩

/-- The accesses of an instruction do not depend on the code after it. -/
theorem accesses_moment_cons (observed : Observed) (instruction : Instruction)
    (rest others : List Instruction) (machine : Machine) :
    (observed.moment (instruction :: rest) machine).accesses =
      (observed.moment (instruction :: others) machine).accesses := by
  cases instruction with
  | assign target expression => cases expression <;> rfl
  | call callee arguments => cases callee <;> rfl
  | store | loop | branch => rfl

/-- The moments of some code, followed by those of the code after it, which starts on the machine
that the code leaves.  The induction is on the code. -/
theorem exists_moments_append {observed : Observed} {code : List Instruction}
    {machine after : Machine} (rest : List Instruction)
    (ran : Succeeds (observed.executeBody code) machine () after) :
    ∃ earlier, observed.moments (code ++ rest) machine = earlier ++ observed.moments rest after ∧
      accessesOf earlier = accessesOf (observed.moments code machine) := by
  induction code generalizing machine with
  | nil =>
      obtain ⟨_, rfl⟩ := succeeds_pure_iff.mp ran
      exact ⟨[], rfl, rfl⟩
  | cons instruction code ih =>
      rw [Activation.executeBody, succeeds_bind_iff] at ran
      obtain ⟨_, middle, executed, others⟩ := ran
      obtain ⟨earlier, later, accesses⟩ := ih others
      have executed : outcome (observed.execute instruction) machine = (.ok (), middle) := executed
      refine ⟨observed.moment (instruction :: (code ++ rest)) machine ::
        (observed.inside instruction machine ++ earlier), ?_, ?_⟩
      · simp [moments, momentsAfter, executed, later]
      · simp only [moments, momentsAfter, executed]
        simp only [accessesOf, List.flatMap_cons, List.flatMap_append] at accesses ⊢
        rw [observed.accesses_moment_cons instruction _ code, accesses]

end Observed

/-! ## Orderly accesses -/

/-- From some settled cells on, accesses read settled cells and write others, which are settled
then. -/
inductive Orderly : Set Cell → List Access → Set Cell → Prop
  | nil (settled : Set Cell) : Orderly settled [] settled
  | read {settled later : Set Cell} {cell : Cell} {rest : List Access} (mem : cell ∈ settled)
      (next : Orderly settled rest later) : Orderly settled (.read cell :: rest) later
  | write {settled later : Set Cell} {cell : Cell} {rest : List Access} (free : cell ∉ settled)
      (next : Orderly (insert cell settled) rest later) :
      Orderly settled (.write cell :: rest) later

namespace Orderly

variable {settled between later : Set Cell} {accesses first rest : List Access} {cell : Cell}

theorem append (one : Orderly settled first between) (other : Orderly between rest later) :
    Orderly settled (first ++ rest) later := by
  induction one with
  | nil => exact other
  | read mem _ ih => exact .read mem (ih other)
  | write free _ ih => exact .write free (ih other)

theorem of_append (orderly : Orderly settled (first ++ rest) later) :
    ∃ between, Orderly settled first between ∧ Orderly between rest later := by
  induction first generalizing settled with
  | nil => exact ⟨settled, .nil settled, orderly⟩
  | cons access first ih =>
      cases orderly with
      | read mem next =>
          obtain ⟨between, one, other⟩ := ih next
          exact ⟨between, .read mem one, other⟩
      | write free next =>
          obtain ⟨between, one, other⟩ := ih next
          exact ⟨between, .write free one, other⟩

/-- Cells that are read are settled. -/
theorem of_reads {cells : List Cell} (each : ∀ cell ∈ cells, cell ∈ settled) :
    Orderly settled (cells.map .read) settled := by
  induction cells with
  | nil => exact .nil settled
  | cons cell cells ih =>
      obtain ⟨mem, others⟩ := List.forall_mem_cons.mp each
      exact .read mem (ih others)

/-- What is settled in the end was settled before or has been written. -/
theorem mem_iff (orderly : Orderly settled accesses later) :
    cell ∈ later ↔ cell ∈ settled ∨ .write cell ∈ accesses := by
  induction orderly with
  | nil => simp
  | read _ _ ih => simp [ih]
  | write _ _ ih => simp [ih, or_assoc, or_left_comm]

theorem subset (orderly : Orderly settled accesses later) : settled ⊆ later :=
  fun _ mem => orderly.mem_iff.mpr (.inl mem)

/-- What is settled is not written. -/
theorem not_mem (orderly : Orderly settled accesses later) (mem : cell ∈ settled) :
    .write cell ∉ accesses := by
  induction orderly with
  | nil => simp
  | read _ _ ih => simp [ih mem]
  | write free _ ih =>
      simp only [List.mem_cons, Access.write.injEq, not_or]
      exact ⟨fun same => free (same ▸ mem), ih (Set.mem_insert_of_mem _ mem)⟩

/-- Nothing is written twice. -/
theorem count_le (orderly : Orderly settled accesses later) (cell : Cell) :
    accesses.count (.write cell) ≤ 1 := by
  induction orderly with
  | nil => simp
  | read _ _ ih => simpa [List.count_cons] using ih
  | @write settled _ written rest _ next ih =>
      by_cases same : written = cell
      · have absent : Access.write cell ∉ rest := next.not_mem (same ▸ Set.mem_insert _ _)
        simp [same, List.count_eq_zero_of_not_mem absent]
      · simpa [List.count_cons, same] using ih

/-- What is read was settled before or written earlier. -/
theorem of_read (orderly : Orderly settled (first ++ .read cell :: rest) later) :
    cell ∈ settled ∨ .write cell ∈ first := by
  obtain ⟨between, one, other⟩ := orderly.of_append
  cases other with
  | read mem _ => exact one.mem_iff.mp mem

end Orderly

/-! ## Histories -/

/-- The accesses of moments are orderly, and at each moment the settled cells hold what they hold on
the last machine. -/
inductive History (last : Machine) : Set Cell → List Moment → Set Cell → Prop
  | nil (settled : Set Cell) : History last settled [] settled
  | cons {settled between later : Set Cell} {moment : Moment} {rest : List Moment}
      (keeps : ∀ cell ∈ settled, moment.machine.holds cell = last.holds cell)
      (orderly : Orderly settled moment.accesses between) (next : History last between rest later) :
      History last settled (moment :: rest) later

namespace History

variable {last other : Machine} {settled between later : Set Cell} {moments first rest : List Moment}
  {moment : Moment} {cell : Cell}

theorem orderly (history : History last settled moments later) :
    Orderly settled (accessesOf moments) later := by
  induction history with
  | nil settled => exact .nil settled
  | cons _ one _ ih => exact one.append ih

theorem append (one : History last settled first between) (next : History last between rest later) :
    History last settled (first ++ rest) later := by
  induction one with
  | nil => exact next
  | cons keeps orderly _ ih => exact .cons keeps orderly (ih next)

theorem of_append (history : History last settled (first ++ rest) later) :
    ∃ between, History last settled first between ∧ History last between rest later := by
  induction first generalizing settled with
  | nil => exact ⟨settled, .nil settled, history⟩
  | cons moment first ih =>
      cases history with
      | cons keeps orderly next =>
          obtain ⟨between, one, other⟩ := ih next
          exact ⟨between, .cons keeps orderly one, other⟩

/-- A history depends on the last machine through the cells that are settled in the end. -/
theorem congr (history : History last settled moments later)
    (same : ∀ cell ∈ later, last.holds cell = other.holds cell) :
    History other settled moments later := by
  induction history with
  | nil settled => exact .nil settled
  | cons keeps orderly next ih =>
      refine .cons (fun cell mem => ?_) orderly (ih same)
      exact (keeps cell mem).trans (same cell (next.orderly.subset (orderly.subset mem)))

/-- What is settled at the beginning holds the same at every moment. -/
theorem holds (history : History last settled moments later) (mem : moment ∈ moments)
    (settles : cell ∈ settled) : moment.machine.holds cell = last.holds cell := by
  induction history with
  | nil => contradiction
  | cons keeps orderly _ ih =>
      rcases List.mem_cons.mp mem with rfl | mem
      · exact keeps cell settles
      · exact ih mem (orderly.subset settles)

end History

/-- A run assigns each cell at most once, if some cells are given before. -/
structure SingleAssignment (given : Set Cell) (moments : List Moment) : Prop where
  /-- What is given is never written. -/
  kept : ∀ cell ∈ given, .write cell ∉ accessesOf moments
  /-- Nothing is written twice. -/
  once : ∀ cell, (accessesOf moments).count (.write cell) ≤ 1
  /-- What is read is given or was written earlier. -/
  earlier : ∀ (first rest : List Access) (cell : Cell),
    accessesOf moments = first ++ .read cell :: rest → cell ∈ given ∨ .write cell ∈ first
  /-- What is given or was written does not change any more. -/
  stable : ∀ (first rest : List Moment) (moment : Moment), moments = first ++ moment :: rest →
    ∀ cell, cell ∈ given ∨ .write cell ∈ accessesOf first → ∀ later ∈ rest,
      later.machine.holds cell = moment.machine.holds cell

theorem History.singleAssignment {last : Machine} {given later : Set Cell} {moments : List Moment}
    (history : History last given moments later) : SingleAssignment given moments where
  kept _ mem := history.orderly.not_mem mem
  once := history.orderly.count_le
  earlier first rest cell split := by
    have orderly := history.orderly
    rw [split] at orderly
    exact orderly.of_read
  stable first rest moment split cell settled later mem := by
    subst split
    obtain ⟨between, before, after⟩ := history.of_append
    have here : cell ∈ between := before.orderly.mem_iff.mpr settled
    exact (after.holds (List.mem_cons_of_mem _ mem) here).trans
      (after.holds List.mem_cons_self here).symm

end Dataflow
