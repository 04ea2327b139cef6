import Dataflow.Proofs.Routine.Settling
import Dataflow.Proofs.Routine.Soundness

/-!
# Runs of settling code

A run of code that settles cells accounts for the memory: whether it runs to its end or not, its
moments are a history from the cells on that were settled before.  Nothing else has to be known of the
code; where an instruction fails, there is no later moment.
-/

namespace Dataflow

/-! ## Accounts -/

/-- An action accounts for the memory: its moments are a history from some settled cells on, which
keep what they hold; and if it succeeds, then the cells that are settled in the end are the expected
ones, and a goal is reached. -/
def Accounts (action : Run Unit) (moments : List Moment) (before : Machine)
    (settled later : Set Cell) (goal : Machine → Prop) : Prop :=
  ∃ last reached, (∀ cell ∈ settled, last.holds cell = before.holds cell) ∧
    History last settled moments reached ∧
    ∀ after, Succeeds action before () after → last = after ∧ reached = later ∧ goal after

section Accounting

variable {action : Run Unit} {moments : List Moment} {before : Machine}
  {settled between later : Set Cell} {goal more : Machine → Prop}

theorem Accounts.mono (accounts : Accounts action moments before settled later goal)
    (implies : ∀ after, goal after → more after) :
    Accounts action moments before settled later more := by
  obtain ⟨last, reached, keeps, history, ends⟩ := accounts
  refine ⟨last, reached, keeps, history, fun after done => ?_⟩
  obtain ⟨same, all, reaches⟩ := ends after done
  exact ⟨same, all, implies after reaches⟩

/-- An action without moments that fails. -/
theorem accounts_of_failed {error : RunError} {after : Machine}
    (failed : outcome action before = (.error error, after)) :
    Accounts action [] before settled later goal :=
  ⟨before, settled, fun _ _ => rfl, .nil settled,
    fun _ done => absurd (failed.symm.trans done) (by simp)⟩

/-- An action without moments that changes no settled cell. -/
theorem accounts_of_succeeds {after : Machine} (done : Succeeds action before () after)
    (keeps : ∀ cell ∈ settled, after.holds cell = before.holds cell) (reached : goal after) :
    Accounts action [] before settled settled goal := by
  refine ⟨after, settled, keeps, .nil settled, fun other otherDone => ?_⟩
  obtain rfl : after = other := by simpa using done.symm.trans otherDone
  exact ⟨rfl, rfl, reached⟩

/-- An instruction without moments of its own, together with the moment before it. -/
theorem accounts_of_moment {moment : Moment} {reached : Set Cell} (here : moment.machine = before)
    (orderly : Orderly settled moment.accesses reached)
    (ends : ∀ after, Succeeds action before () after →
      (∀ cell ∈ settled, after.holds cell = before.holds cell) ∧ reached = later ∧ goal after) :
    Accounts action [moment] before settled later goal := by
  rcases done : outcome action before with ⟨error | ⟨⟩, after⟩
  · exact ⟨before, reached, fun _ _ => rfl, .cons (fun _ _ => by rw [here]) orderly (.nil reached),
      fun other otherDone => absurd (done.symm.trans otherDone) (by simp)⟩
  · obtain ⟨keeps, rest⟩ := ends after done
    refine ⟨after, reached, keeps,
      .cons (fun cell mem => by rw [here, keeps cell mem]) orderly (.nil reached),
      fun other otherDone => ?_⟩
    obtain rfl : after = other := by simpa using done.symm.trans otherDone
    exact ⟨rfl, rest⟩

/-- A moment before which nothing is accessed. -/
theorem Accounts.cons (accounts : Accounts action moments before settled later goal)
    {moment : Moment} (here : moment.machine = before) (silent : moment.accesses = []) :
    Accounts action (moment :: moments) before settled later goal := by
  obtain ⟨last, reached, keeps, history, ends⟩ := accounts
  refine ⟨last, reached, keeps, .cons (fun cell mem => ?_) (silent ▸ .nil settled) history, ends⟩
  rw [here, keeps cell mem]

theorem Accounts.bind {next : Unit → Run Unit} {after : Unit → Machine → List Moment}
    (first : Accounts action moments before settled between goal)
    (second : ∀ middle, goal middle →
      Accounts (next ()) (after () middle) middle between later more) :
    Accounts (action >>= next) (moments ++ momentsAfter action after before) before settled later
      more := by
  obtain ⟨last, reached, keeps, history, ends⟩ := first
  have unfolded := outcome_bind action next before
  rcases done : outcome action before with ⟨error | ⟨⟩, middle⟩
  · rw [done] at unfolded
    rw [momentsAfter, done, List.append_nil]
    exact ⟨last, reached, keeps, history, fun _ other => absurd (unfolded.symm.trans other) (by simp)⟩
  · rw [done] at unfolded
    rw [momentsAfter, done]
    obtain ⟨rfl, rfl, reaches⟩ := ends middle done
    obtain ⟨final, all, kept, rest, finishes⟩ := second last reaches
    refine ⟨final, all, fun cell mem => ?_, ?_, fun other otherDone => ?_⟩
    · exact (kept cell (history.orderly.subset mem)).trans (keeps cell mem)
    · exact (history.congr fun cell mem => (kept cell mem).symm).append rest
    · exact finishes other (unfolded.symm.trans otherDone)

/-- An action that starts with something that changes no settled cell. -/
theorem accounts_after {α : Type} {check : Run α} {next : α → Run Unit}
    {after : α → Machine → List Moment}
    (rest : ∀ value middle, Succeeds check before value middle →
      (∀ cell ∈ settled, middle.holds cell = before.holds cell) ∧
        Accounts (next value) (after value middle) middle settled later goal) :
    Accounts (check >>= next) (momentsAfter check after before) before settled later goal := by
  rcases done : outcome check before with ⟨error | value, middle⟩
  · rw [momentsAfter, done]
    exact accounts_of_failed (by rw [outcome_bind, done])
  · rw [momentsAfter, done]
    obtain ⟨same, last, reached, keeps, history, ends⟩ := rest value middle done
    refine ⟨last, reached, fun cell mem => (keeps cell mem).trans (same cell mem), history,
      fun other otherDone => ends other ?_⟩
    rwa [Succeeds, outcome_bind_of_succeeds done] at otherDone

/-- The turns of a loop take the settled cells along.  The induction is on the number of turns that
are left. -/
theorem accounts_forRange {turn : Nat → Run Unit} {inside : Nat → Machine → List Moment}
    {family : Nat → Set Cell} {first count : Nat} (start : goal before)
    (each : ∀ index middle, first ≤ index → index < first + count → goal middle →
      Accounts (turn index) (inside index middle) middle (family index) (family (index + 1)) goal) :
    Accounts (Activation.forRange turn first count) (rangeMoments turn inside first count before)
      before (family first) (family (first + count)) goal := by
  induction count generalizing first before with
  | zero => exact accounts_of_succeeds rfl (fun _ _ => rfl) start
  | succ count ih =>
      rw [← Nat.succ_add_eq_add_succ first count]
      refine (each first before (Nat.le_refl _) (by omega) start).bind fun middle reached => ?_
      exact ih reached fun index other above below => each index other (by omega) (by omega)

end Accounting

/-! ## What instructions access -/

/-- The counters of the loops around some code have no other values than their turns. -/
def Machine.Counts (machine : Machine) (turns : Turns) : Prop :=
  ∀ counter turn, (counter, turn) ∈ turns → ∀ literal,
    machine.registers[counter]? = some (some literal) → literal = .index turn

/-- The arrays that are seen begin where the surroundings say. -/
def Surroundings.Shows (around : Surroundings) (views : Array View) : Prop :=
  ∀ (array : ArrayId) (view : View), views[array]? = some view → around.origin array = view.origin

section Locating

variable {around : Surroundings} {views : Array View} {turns : Turns} {machine after : Machine}

theorem of_view {array : ArrayId} {view : View}
    (found : Succeeds (Run.view views array) machine view after) : views[array]? = some view := by
  unfold Run.view at found
  split at found
  · rename_i viewed
    exact (succeeds_pure_iff.mp found).1 ▸ viewed
  · exact absurd found not_succeeds_throw

theorem of_readIndex {value : ValueId} {index : Nat}
    (read : Succeeds (Run.readIndex value) machine index after) :
    machine.registers[value]? = some (some (.index index)) := by
  simp only [Run.readIndex, Run.readValue, succeeds_bind_iff, succeeds_get_iff] at read
  obtain ⟨literal, _, ⟨_, _, ⟨rfl, rfl⟩, found⟩, rest⟩ := read
  split at found
  · rename_i stored
    obtain ⟨rfl, rfl⟩ := succeeds_pure_iff.mp found
    split at rest
    · exact (succeeds_pure_iff.mp rest).1 ▸ stored
    · exact absurd rest not_succeeds_throw
  · exact absurd found not_succeeds_throw

theorem of_writeElement {slot element : Nat} {scalar : Scalar}
    (written : Succeeds (Run.writeElement slot element scalar) machine () after) :
    after = { machine with heap := machine.heap.modify slot (·.set element scalar) } := by
  simp only [Run.writeElement, succeeds_bind_iff, succeeds_get_iff] at written
  obtain ⟨_, _, ⟨rfl, rfl⟩, rest⟩ := written
  split at rest
  · simpa using rest
  · exact absurd rest not_succeeds_throw

theorem of_callHost {host : Host} {name : String} {arguments : List HostValue}
    (called : Succeeds (Run.callHost host name arguments) machine () after) :
    after.registers = machine.registers ∧ after.heap = machine.heap := by
  have behaves : Behaves host (Run.callHost host name arguments) machine _ := behaves_callHost
  rwa [Behaves, called] at behaves

/-- A position that is found is the one that it names. -/
theorem Surroundings.Shows.of_locate (shows : around.Shows views) (counts : machine.Counts turns)
    {array : ArrayId} {position : Position} {element slot inner : Nat}
    (names : position.Names turns element)
    (found : Succeeds (Run.locate views array position) machine (slot, inner) after) :
    (around.origin array).shift element = ⟨slot, inner⟩ := by
  rw [Run.locate, succeeds_bind_iff] at found
  obtain ⟨view, between, viewed, rest⟩ := found
  obtain rfl : between = machine := (reading_view views array).eq viewed
  have inside : Succeeds (if element < view.length then pure (view.slot, view.offset + element)
      else throw (.indexOutOfBounds element view.length) : Run (Nat × Nat)) between (slot, inner)
      after := by
    cases position with
    | fixed position =>
        simp only [succeeds_bind_iff, succeeds_pure_iff] at rest
        obtain ⟨index, _, ⟨rfl, rfl⟩, rest⟩ := rest
        obtain rfl : index = element := names
        exact rest
    | indexed counter offset =>
        simp only [succeeds_bind_iff, succeeds_map_iff] at rest
        obtain ⟨_, _, ⟨index, read, rfl⟩, rest⟩ := rest
        obtain ⟨turn, mem, rfl⟩ := names
        obtain ⟨rfl⟩ := counts counter turn mem _ (of_readIndex read)
        obtain rfl := (reading_readIndex counter).eq read
        exact rest
  split at inside
  · obtain ⟨rfl, rfl⟩ := Prod.mk.inj (succeeds_pure_iff.mp inside).1
    rw [shows array view (of_view viewed), View.origin, Cell.shift]
  · exact absurd inside not_succeeds_throw

/-- A window that is found begins with its first cell. -/
theorem Surroundings.Shows.of_window (shows : around.Shows views) {window : ArrayRef} {view : View}
    (found : Succeeds (Run.window views window.array window.offset window.length) machine view
      after) :
    view.origin = around.cell window 0 ∧ view.length = window.length := by
  rw [Run.window, succeeds_bind_iff] at found
  obtain ⟨parent, _, viewed, rest⟩ := found
  split at rest
  · obtain ⟨rfl, _⟩ := succeeds_pure_iff.mp rest
    simp [Surroundings.cell, shows _ parent (of_view viewed), View.origin, Cell.shift]
  · exact absurd rest not_succeeds_throw

/-- Windows that are passed begin with their first cells. -/
theorem Surroundings.Shows.of_windows {activation : Activation}
    (shows : around.Shows activation.views) {callee : String} {index : Nat} {windows : List ArrayRef}
    {passed : List View}
    (found : Succeeds (activation.windows callee index
      (windows.map fun window => .window window.array window.offset window.length)) machine passed
      after) :
    passed.map View.origin = windows.map (around.cell · 0) := by
  induction windows generalizing index passed machine after with
  | nil =>
      obtain ⟨rfl, _⟩ := succeeds_pure_iff.mp found
      rfl
  | cons window windows ih =>
      simp only [List.map_cons, Activation.windows, succeeds_bind_iff, succeeds_pure_iff] at found
      obtain ⟨view, _, one, others, _, all, rfl, _⟩ := found
      rw [List.map_cons, List.map_cons, (shows.of_window one).1, ih all]

end Locating

/-- Counters are not assigned in the code of their loops. -/
theorem Machine.Counts.write {turns : Turns} {machine : Machine} (counts : machine.Counts turns)
    {target : ValueId} (literal : Literal) (free : target ∉ turns.map Prod.fst) :
    (machine.write target literal).Counts turns := by
  intro counter turn mem value stored
  have different : target ≠ counter := by
    rintro rfl
    exact free (List.mem_map_of_mem mem)
  refine counts counter turn mem value ?_
  rwa [Machine.write, Array.getElem?_setIfInBounds_ne different] at stored

theorem Machine.Counts.drop {turns : Turns} {machine : Machine} {turn : ValueId × Nat}
    (counts : machine.Counts (turn :: turns)) : machine.Counts turns :=
  fun counter index mem => counts counter index (List.mem_cons_of_mem _ mem)

/-- A loop writes its turn to its counter. -/
theorem Machine.Counts.count {turns : Turns} {machine : Machine} (counts : machine.Counts turns)
    {counter : ValueId} (index : Nat) (free : counter ∉ turns.map Prod.fst) :
    (machine.write counter (.index index)).Counts ((counter, index) :: turns) := by
  intro other turn mem value stored
  rcases List.mem_cons.mp mem with here | earlier
  · obtain ⟨rfl, rfl⟩ := Prod.mk.inj here
    rw [Machine.write, Array.getElem?_setIfInBounds_self] at stored
    split at stored
    · exact (Option.some.inj (Option.some.inj stored)).symm
    · contradiction
  · exact counts.write (.index index) free other turn earlier value stored

/-- A cell that is not written holds what it held. -/
theorem Machine.holds_set {machine : Machine} {slot element : Nat} {scalar : Scalar} {cell : Cell}
    (different : cell ≠ ⟨slot, element⟩) :
    Machine.holds { machine with heap := machine.heap.modify slot (·.set element scalar) } cell =
      machine.holds cell := by
  simp only [holds, Array.getElem?_modify]
  split
  · rename_i same
    have other : cell.element ≠ element := by
      rintro rfl
      exact different (by rw [same])
    cases machine.heap[cell.slot]? with
    | none => rfl
    | some buffer => simp [Buffer.get?_set, other]
  · rfl

/-- A machine has as many buffers as another one, and the loops are at their turns. -/
def Machine.Stays (before : Machine) (turns : Turns) (after : Machine) : Prop :=
  after.heap.size = before.heap.size ∧ after.Counts turns

theorem Machine.Stays.trans {before between after : Machine} {turns : Turns}
    (first : before.Stays turns between) (second : between.Stays turns after) :
    before.Stays turns after :=
  ⟨second.1.trans first.1, second.2⟩

namespace Observed

variable {observed : Observed} {around : Surroundings} {turns : Turns} {machine : Machine}
  {settled later : Set Cell} {rest : List Instruction}

/-- Calls account for the memory as the surroundings say. -/
def Heeds (observed : Observed) (around : Surroundings) : Prop :=
  ∀ (name : String) (passed : List View) (settled later : Set Cell),
    around.callees name (passed.map View.origin) settled later → ∀ before : Machine,
      Accounts (observed.call name passed) (observed.called name passed before) before settled later
        fun after => after.heap.size = before.heap.size ∧ after.registers = before.registers

/-- A position stands for the cell that it names, if it stands for one. -/
theorem located_cases (shows : around.Shows observed.views) (counts : machine.Counts turns)
    {code : List Instruction} {array : ArrayId} {position : Position} {element : Nat}
    (names : position.Names turns element) :
    (observed.moment code machine).located array position = [] ∨
      (observed.moment code machine).located array position =
        [(around.origin array).shift element] := by
  simp only [Moment.located, moment]
  rcases done : outcome (Run.locate observed.views array position) machine with
    ⟨error | ⟨slot, inner⟩, after⟩
  · exact .inl rfl
  · exact .inr (by rw [shows.of_locate counts names done])

theorem accounts_assign (shows : around.Shows observed.views) (counts : machine.Counts turns)
    {target : ValueId} {expression : Expression} (reads : around.Reads turns settled expression)
    (free : target ∉ turns.map Prod.fst) :
    Accounts (observed.execute (.assign target expression))
      [observed.moment (.assign target expression :: rest) machine] machine settled settled
      (machine.Stays turns) := by
  have orderly : Orderly settled
      (observed.moment (.assign target expression :: rest) machine).accesses settled := by
    cases expression with
    | load array position =>
        obtain ⟨element, names, mem⟩ := reads
        refine Orderly.of_reads fun cell found => ?_
        rcases located_cases shows counts names with none | one
        · rw [none] at found
          contradiction
        · rw [one] at found
          exact List.mem_singleton.mp found ▸ mem
    | literal | copy | binary | compare => exact .nil settled
  refine accounts_of_moment rfl orderly fun after done => ?_
  rw [Activation.execute, succeeds_bind_iff] at done
  obtain ⟨literal, between, evaluated, written⟩ := done
  obtain rfl : between = machine := (reading_evaluate _ expression).eq evaluated
  obtain rfl : after = between.write target literal := by
    simpa [Run.writeValue, Machine.write] using written
  exact ⟨fun _ _ => rfl, rfl, rfl, counts.write literal free⟩

theorem accounts_store (shows : around.Shows observed.views) (counts : machine.Counts turns)
    {array : ArrayId} {position : Position} {value : ValueId} {element : Nat}
    (names : position.Names turns element) (free : (around.origin array).shift element ∉ settled) :
    Accounts (observed.execute (.store array position value))
      [observed.moment (.store array position value :: rest) machine] machine settled
      (insert ((around.origin array).shift element) settled) (machine.Stays turns) := by
  -- where the position is not found, the store fails
  obtain ⟨reached, orderly, all⟩ : ∃ reached, Orderly settled
      (observed.moment (.store array position value :: rest) machine).accesses reached ∧
      ∀ found after, Succeeds (Run.locate observed.views array position) machine found after →
        reached = insert ((around.origin array).shift element) settled := by
    rcases located : outcome (Run.locate observed.views array position) machine with
      ⟨error | ⟨slot, inner⟩, between⟩
    · refine ⟨settled, ?_, fun _ _ found => absurd (located.symm.trans found) (by simp)⟩
      simp only [Moment.accesses, moment, Moment.located, located, List.map_nil]
      exact .nil settled
    · refine ⟨_, ?_, fun _ _ _ => rfl⟩
      simp only [Moment.accesses, moment, Moment.located, located, List.map_singleton]
      rw [← shows.of_locate counts names located]
      exact .write free (.nil _)
  refine accounts_of_moment rfl orderly fun after done => ?_
  simp only [Activation.execute, succeeds_bind_iff] at done
  obtain ⟨⟨slot, inner⟩, between, found, scalar, middle, read, written⟩ := done
  obtain rfl : between = machine := (reading_locate _ _ _).eq found
  obtain rfl : middle = between := (reading_readScalar _).eq read
  obtain rfl := of_writeElement written
  refine ⟨fun cell mem => ?_, all _ _ found, by simp, counts⟩
  have different : cell ≠ ⟨slot, inner⟩ := by
    rw [← shows.of_locate counts names found]
    rintro rfl
    exact free mem
  exact Machine.holds_set different

theorem accounts_host (shows : around.Shows observed.views) (counts : machine.Counts turns)
    {name : String} {window : ArrayRef}
    (reads : ∀ element < window.length, around.cell window element ∈ settled) :
    Accounts
      (observed.execute
        (.call (.host name) [.window window.array window.offset window.length]))
      [observed.moment
        (.call (.host name) [.window window.array window.offset window.length] :: rest) machine]
      machine settled settled (machine.Stays turns) := by
  have orderly : Orderly settled (observed.moment
      (.call (.host name) [.window window.array window.offset window.length] :: rest)
      machine).accesses settled := by
    refine Orderly.of_reads fun cell found => ?_
    simp only [List.flatMap_cons, List.flatMap_nil, List.append_nil, Moment.handed, moment] at found
    rcases done : outcome (Run.window observed.views window.array window.offset window.length) machine
      with ⟨error | view, after⟩
    · simp [done] at found
    · obtain ⟨origin, length⟩ := shows.of_window done
      simp only [done, View.cells, List.mem_map, List.mem_range, origin, length] at found
      obtain ⟨element, below, rfl⟩ := found
      simpa [Surroundings.cell] using reads element below
  refine accounts_of_moment rfl orderly fun after done => ?_
  rw [Activation.execute, succeeds_bind_iff] at done
  obtain ⟨values, between, read, called⟩ := done
  obtain rfl : between = machine :=
    (reading_mapM (reading_hostValue observed.toActivation) _).eq read
  obtain ⟨registers, heap⟩ := of_callHost called
  refine ⟨fun cell _ => by rw [Machine.holds, heap, Machine.holds], rfl, congrArg Array.size heap, ?_⟩
  rw [Machine.Counts, registers]
  exact counts

theorem accounts_routine (shows : around.Shows observed.views) (heeds : observed.Heeds around)
    (counts : machine.Counts turns) {name : String} {windows : List ArrayRef}
    (callee : around.callees name (windows.map (around.cell · 0)) settled later) :
    Accounts
      (observed.execute (.call (.routine name)
        (windows.map fun window => .window window.array window.offset window.length)))
      (observed.inside (.call (.routine name)
        (windows.map fun window => .window window.array window.offset window.length)) machine)
      machine settled later (machine.Stays turns) := by
  rw [Activation.execute, Observed.inside]
  refine accounts_after fun passed between read => ?_
  obtain rfl : between = machine := (reading_windows _ _ _ _).eq read
  refine ⟨fun _ _ => rfl, ?_⟩
  rw [← shows.of_windows read] at callee
  refine (heeds name passed settled later callee between).mono fun after left => ?_
  obtain ⟨size, registers⟩ := left
  refine ⟨size, ?_⟩
  rw [Machine.Counts, registers]
  exact counts

end Observed

/-! ## Bodies -/

/-- Code that settles cells accounts for the memory.  The induction is on the rules, with one case for
each instruction; an instruction is taken together with the moment before it. -/
theorem Surroundings.Settles.accounts {around : Surroundings} {turns : Turns}
    {settled later : Set Cell} {code : List Instruction} {observed : Observed} {machine : Machine}
    (settles : around.Settles turns settled code later) (shows : around.Shows observed.views)
    (heeds : observed.Heeds around) (counts : machine.Counts turns) :
    Accounts (observed.executeBody code) (observed.moments code machine) machine settled later
      (machine.Stays turns) := by
  have next : ∀ {turns : Turns} {settled between later : Set Cell} {instruction : Instruction}
      {rest : List Instruction} {machine : Machine},
      Accounts (observed.execute instruction)
        (observed.moment (instruction :: rest) machine :: observed.inside instruction machine) machine
        settled between (machine.Stays turns) →
      (∀ middle, middle.Counts turns →
        Accounts (observed.executeBody rest) (observed.moments rest middle) middle between later
          (middle.Stays turns)) →
      Accounts (observed.executeBody (instruction :: rest))
        (observed.moments (instruction :: rest) machine) machine settled later
        (machine.Stays turns) := by
    intro turns settled between later instruction rest machine first after
    rw [Activation.executeBody, Observed.moments, ← List.cons_append]
    exact first.bind fun middle stays => (after middle stays.2).mono fun _ => stays.trans
  induction settles generalizing machine with
  | nil settled =>
      refine accounts_of_moment rfl (.nil settled) fun after done => ?_
      obtain ⟨_, rfl⟩ := succeeds_pure_iff.mp done
      exact ⟨fun _ _ => rfl, rfl, rfl, counts⟩
  | assign reads free _ ih =>
      exact next (Observed.accounts_assign shows counts reads free) fun _ => ih
  | store names free _ ih =>
      exact next (Observed.accounts_store shows counts names free) fun _ => ih
  | @loop turns later counter stop body rest settled free _ _ turn ih =>
      refine next (Accounts.cons ?_ rfl rfl) fun _ => ih
      rw [Activation.execute, Observed.inside, Nat.sub_zero]
      have start : machine.Stays turns machine := ⟨rfl, counts⟩
      rw [show settled stop = settled (0 + stop) by rw [Nat.zero_add]]
      refine accounts_forRange start fun index middle _ below stays => ?_
      have counted := stays.2.count index free
      have written : Succeeds (Run.writeValue counter (.index index)) middle ()
          (middle.write counter (.index index)) := rfl
      refine accounts_after fun _ between wrote => ?_
      obtain rfl : middle.write counter (.index index) = between := by
        simpa using written.symm.trans wrote
      refine ⟨fun _ _ => rfl, (turn index (by simpa using below) counted).mono fun after left => ?_⟩
      exact stays.trans ⟨left.1, left.2.drop⟩
  | @branch turns settled later condition body rest _ _ taken ih =>
      refine next (Accounts.cons ?_ rfl rfl) fun _ => ih
      rw [Activation.execute, Observed.inside]
      refine accounts_after fun literal between read => ?_
      obtain rfl : between = machine := (reading_readValue _).eq read
      refine ⟨fun _ _ => rfl, ?_⟩
      rcases literal with (_ | _ | trigger) | _
      · exact accounts_of_failed rfl
      · exact accounts_of_failed rfl
      · cases trigger with
        | true => exact taken counts
        | false => exact accounts_of_succeeds rfl (fun _ _ => rfl) ⟨rfl, counts⟩
      · exact accounts_of_failed rfl
  | host reads _ ih => exact next (Observed.accounts_host shows counts reads) fun _ => ih
  | routine callee _ ih =>
      exact next ((Observed.accounts_routine shows heeds counts callee).cons rfl rfl) fun _ => ih

/-! ## Calls -/

/-- A routine that calls no others, whose parameters begin in given cells. -/
def Surroundings.leaf (origins : List Cell) : Surroundings where
  origin array := origins.getD array default
  callees _ _ _ _ := False

/-- What a routine of a program without arrays of its own makes of settled cells, if it calls no
others and its parameters begin in given cells. -/
def Program.settles (program : Program) (name : String) (origins : List Cell)
    (settled later : Set Cell) : Prop :=
  ∃ routine, program.routine? name = some routine ∧ routine.locals = [] ∧
    (Surroundings.leaf origins).Settles [] settled routine.body later

section Calls

variable {program : Program} {host : Host} {depth : Nat} {name : String} {settled later : Set Cell}

theorem Surroundings.shows_leaf (passed : List View) :
    (leaf (passed.map View.origin)).Shows passed.toArray := by
  intro array view viewed
  rw [List.getElem?_toArray] at viewed
  simp [leaf, List.getD_eq_getElem?_getD, viewed]

/-- A machine on which a routine without local arrays starts holds what its caller held. -/
theorem Machine.heap_enter {machine : Machine} {routine : Routine} (locals : routine.locals = []) :
    (machine.enter routine).heap = machine.heap := by
  simp [enter, locals]

/-- A call accounts for the memory as the body of its routine does, if the routine has no arrays of
its own. -/
theorem Accounts.of_call {action body : Run Unit} {moments : List Moment} {before entered : Machine}
    (accounts : Accounts body moments entered settled later (entered.Stays []))
    (same : entered.heap = before.heap)
    (called : outcome action before =
      ((outcome body entered).1, (outcome body entered).2.leave before)) :
    Accounts action moments before settled later
      fun after => after.heap.size = before.heap.size ∧ after.registers = before.registers := by
  obtain ⟨last, reached, keeps, history, ends⟩ := accounts
  have kept : ∀ cell ∈ settled, last.holds cell = before.holds cell := fun cell mem => by
    rw [keeps cell mem, Machine.holds, same, Machine.holds]
  rcases ran : outcome body entered with ⟨error | ⟨⟩, after⟩
  · rw [ran] at called
    exact ⟨last, reached, kept, history, fun _ done => absurd (called.symm.trans done) (by simp)⟩
  · rw [ran] at called
    obtain ⟨rfl, rfl, size, _⟩ := ends after ran
    have left : (last.leave before).heap = last.heap := by
      simp [Machine.leave, size, ← same]
    have holds : ∀ cell, (last.leave before).holds cell = last.holds cell := fun cell => by
      rw [Machine.holds, left, Machine.holds]
    refine ⟨last.leave before, reached, fun cell mem => (holds cell).trans (kept cell mem),
      history.congr fun cell _ => (holds cell).symm, fun other done => ?_⟩
    obtain rfl : last.leave before = other := by simpa using called.symm.trans done
    exact ⟨rfl, rfl, by rw [left, size, same], rfl⟩

/-- A call of a routine that settles cells accounts for the memory. -/
theorem Program.accounts_call {passed : List View}
    (settles : program.settles name (passed.map View.origin) settled later) (before : Machine) :
    Accounts (program.call host depth name passed) (program.moments host depth name passed before)
      before settled later
      fun after => after.heap.size = before.heap.size ∧ after.registers = before.registers := by
  obtain ⟨routine, found, locals, settles⟩ := settles
  cases depth with
  | zero => exact accounts_of_failed rfl
  | succ depth =>
      simp only [Program.moments, found, momentsAfter]
      rcases looks_checkArguments routine passed before with
        ⟨_, checked, accepts⟩ | ⟨error, refused, _⟩
      · rw [checked]
        have shows : (Surroundings.leaf (passed.map View.origin)).Shows (program.observed host depth
            routine passed before.heap.size (program.moments host depth)).views := by
          rw [show (program.observed host depth routine passed before.heap.size
            (program.moments host depth)).views = passed.toArray from
              Program.views_activation locals]
          exact Surroundings.shows_leaf passed
        have counts : (before.enter routine).Counts [] := by simp [Machine.Counts]
        exact (settles.accounts shows (fun _ _ _ _ impossible => impossible.elim) counts).of_call
          (Machine.heap_enter locals) (Program.outcome_call found accepts)
      · have failed : outcome (program.call host (depth + 1) name passed) before =
            (.error error, before) := by
          simp only [Program.call, found]
          rw [outcome_bind, refused]
        rw [refused]
        exact accounts_of_failed failed

end Calls

end Dataflow
