import Dataflow.Proofs.Routine.Emission
import Dataflow.Proofs.Routine.Frames

/-!
# Constant arrays

The emitter refuses to store into a constant array.  It does not look at what a callee does with the
windows that are passed to it, so a routine can write to a constant array of its caller.  Where no
window of a constant array is passed for a parameter to which the callee may write, constant arrays hold
their declared values at every moment: while their routine runs, and while the routines run that it
calls.
-/

namespace Dataflow

/-! ## Stores of the emitter -/

/-- Nothing is stored into a constant array. -/
def Declarations.SparesConstants (declared : Declarations) (code : List Instruction) : Prop :=
  ∀ array position value, Instruction.Occurs (.store array position value) code →
    ∃ declaration, declared.arrays[array]? = some declaration ∧ declaration.isConstant = false

theorem Declarations.law_sparesConstants : Law SparesConstants where
  nil _ _ _ _ occurs := nomatch occurs
  append first second array position value occurs :=
    occurs.of_append.elim (first array position value) (second array position value)
  extend spares extended array position value occurs := by
    obtain ⟨declaration, declared, variable_elements⟩ := spares array position value occurs
    exact ⟨declaration, extended.arrays _ _ declared, variable_elements⟩
  assign _ _ _ _ _ occurs := nomatch occurs
  store admits _ variable_elements array position value occurs := by
    rcases occurs with _ | none
    · obtain ⟨declaration, declared, _⟩ := admits
      refine ⟨declaration, declared, ?_⟩
      cases declaration with
      | constant values => exact absurd declared (variable_elements values)
      | parameter | scratch => rfl
    · cases none
  loop _ _ turn array position value occurs := by
    cases occurs with
    | later none => cases none
    | loop occurs => exact turn array position value occurs
  branch _ taken array position value occurs := by
    cases occurs with
    | later none => cases none
    | branch occurs => exact taken array position value occurs
  call _ _ _ _ occurs := nomatch occurs

/-- No window of a constant array is passed for a parameter to which the callee may write. -/
def Program.Careful (program : Program) : Prop :=
  ∀ routine ∈ program.routines, ∀ callee arguments,
    Instruction.Occurs (.call (.routine callee) arguments) routine.body →
      ∀ (index : Nat) (array : ArrayId) (offset length : Nat) (values : Buffer),
        arguments[index]? = some (.window array offset length) →
          routine.arrays[array]? = some (.constant values) → ¬program.Writes callee index

section Constants

variable {program : Program} {name : String} {routine : Routine} {array : ArrayId} {values : Buffer}

/-- A routine of a careful program may write to none of its constant arrays. -/
theorem Program.Assembled.not_writes_constant (assembled : program.Assembled)
    (careful : program.Careful) (found : program.routine? name = some routine)
    (declared : routine.arrays[array]? = some (.constant values)) : ¬program.Writes name array := by
  intro writes
  cases writes with
  | store sameFound occurs =>
      obtain rfl := Option.some.inj (found.symm.trans sameFound)
      obtain ⟨builder, built, rfl⟩ := assembled.exists_built routine (List.mem_of_find?_eq_some found)
      obtain ⟨declaration, sameDeclared, variable_elements⟩ :=
        built.obeys Declarations.law_sparesConstants _ _ _ occurs
      obtain rfl := Option.some.inj (declared.symm.trans sameDeclared)
      simp [ArrayDeclaration.isConstant] at variable_elements
  | pass sameFound occurs passes writes =>
      obtain rfl := Option.some.inj (found.symm.trans sameFound)
      exact careful routine (List.mem_of_find?_eq_some found) _ _ occurs _ _ _ _ _ passes declared
        writes

/-- Constant arrays follow the parameters. -/
theorem Routine.Typed.parameters_le (typed : routine.Typed)
    (declared : routine.arrays[array]? = some (.constant values)) :
    routine.parameters.length ≤ array := by
  refine Nat.le_of_not_lt fun inside => ?_
  have parameter := typed.parameters array _ (List.getElem?_eq_getElem inside)
  simp [declared] at parameter

end Constants

/-! ## Throughout a run -/

/-- From machines with an invariant on, all moments meet a condition. -/
def Throughout (invariant : Machine → Prop) (meets : Moment → Prop)
    (moments : Machine → List Moment) : Prop :=
  ∀ before, invariant before → ∀ moment ∈ moments before, meets moment

section Throughout

variable {α : Type} {invariant : Machine → Prop} {meets : Moment → Prop} {cells : Set Cell}

theorem throughout_nil : Throughout invariant meets fun _ => [] :=
  fun _ _ _ mem => nomatch mem

theorem Throughout.append {first second : Machine → List Moment}
    (one : Throughout invariant meets first) (other : Throughout invariant meets second) :
    Throughout invariant meets fun machine => first machine ++ second machine :=
  fun before holds moment mem =>
    (List.mem_append.mp mem).elim (one before holds moment) (other before holds moment)

/-- An invariant survives changes of some cells. -/
def Survives (cells : Set Cell) (invariant : Machine → Prop) : Prop :=
  ∀ before after, Machine.AgreeOutside cells before after → invariant before → invariant after

theorem Touches.throughout {action : Run α} (touches : Touches cells action)
    (survives : Survives cells invariant) {later : α → Machine → List Moment}
    (rest : ∀ before value between, Succeeds action before value between →
      Throughout invariant meets (later value)) :
    Throughout invariant meets (momentsAfter action later) := by
  intro before holds moment mem
  have agree := touches before
  rw [momentsAfter] at mem
  rcases done : outcome action before with ⟨error | value, between⟩
  · simp [done] at mem
  · rw [done] at mem agree
    exact rest before value between done between (survives before between agree holds) moment mem

/-- The turns of a loop.  The induction is on the number of turns that are left. -/
theorem throughout_rangeMoments {turn : Nat → Run Unit} {inside : Nat → Machine → List Moment}
    (survives : Survives cells invariant) (touches : ∀ index, Touches cells (turn index))
    (each : ∀ index, Throughout invariant meets (inside index)) (first count : Nat) :
    Throughout invariant meets (rangeMoments turn inside first count) := by
  induction count generalizing first with
  | zero => exact throughout_nil
  | succ count ih =>
      exact (each first).append ((touches first).throughout survives fun _ _ _ _ => ih (first + 1))

/-- What is needed of some code and of the routines that it calls, so that all its moments meet a
condition. -/
structure Observed.Upholds (observed : Observed) (cells : Set Cell) (invariant : Machine → Prop)
    (meets : Moment → Prop) (code : List Instruction) : Prop where
  confines : observed.Confines cells code
  survives : Survives cells invariant
  own : ∀ code machine, invariant machine → meets (observed.moment code machine)
  called : ∀ name arguments, Instruction.Occurs (.call (.routine name) arguments) code →
    ∀ before passed after, Succeeds (observed.windows name 0 arguments) before passed after →
      Throughout invariant meets (observed.called name passed)

namespace Observed

variable {observed : Observed}

theorem Upholds.of_occurs {code part : List Instruction}
    (upholds : observed.Upholds cells invariant meets code)
    (occurs : ∀ instruction : Instruction, instruction.Occurs part → instruction.Occurs code) :
    observed.Upholds cells invariant meets part :=
  { upholds with
    confines := upholds.confines.of_occurs occurs
    called := fun name arguments within => upholds.called name arguments (occurs _ within) }

mutual

/-- The moments inside an instruction, with one case for each kind of instruction. -/
theorem throughout_inside : ∀ instruction : Instruction,
    observed.Upholds cells invariant meets [instruction] →
      Throughout invariant meets (observed.inside instruction)
  | .assign _ _, _ => throughout_nil
  | .store _ _ _, _ => throughout_nil
  | .loop counter start stop body, upholds => by
      have within : observed.Upholds cells invariant meets body := upholds.of_occurs fun _ => .loop
      refine throughout_rangeMoments upholds.survives (fun index => ?_) (fun index => ?_) start _
      · exact (touches_writeValue counter _).bind fun _ _ _ _ =>
          Activation.touches_executeBody body within.confines
      · exact (touches_writeValue counter _).throughout upholds.survives fun _ _ _ _ =>
          throughout_moments body within
  | .branch condition body, upholds => by
      have within : observed.Upholds cells invariant meets body := upholds.of_occurs fun _ => .branch
      refine ((reading_readValue condition).touches cells).throughout upholds.survives
        fun _ value _ _ => ?_
      intro before holds moment mem
      split at mem
      · exact throughout_moments body within before holds moment mem
      · contradiction
  | .call (.routine name) arguments, upholds =>
      ((reading_windows observed.toActivation name 0 arguments).touches cells).throughout
        upholds.survives (upholds.called name arguments .here)
  | .call (.host _) _, _ => throughout_nil

/-- The moments of a body. -/
theorem throughout_moments : ∀ body : List Instruction,
    observed.Upholds cells invariant meets body →
      Throughout invariant meets (observed.moments body)
  | [], upholds => by
      intro before holds moment mem
      obtain rfl := List.mem_singleton.mp mem
      exact upholds.own [] before holds
  | instruction :: rest, upholds => by
      have later : observed.Upholds cells invariant meets rest := upholds.of_occurs fun _ => .later
      have first : observed.Upholds cells invariant meets [instruction] :=
        { upholds with
          confines := upholds.confines.head
          called := fun name arguments occurs =>
            upholds.called name arguments (occurs.of_singleton rest) }
      intro before holds moment mem
      rcases List.mem_cons.mp mem with rfl | mem
      · exact upholds.own _ before holds
      · exact (throughout_inside instruction first).append
          ((Activation.touches_execute instruction first.confines).throughout upholds.survives
            fun _ _ _ _ => throughout_moments rest later) before holds moment mem

end

end Observed

end Throughout

/-! ## Constant arrays -/

/-- The constant arrays of the routine that runs hold their declared values. -/
def Moment.HoldsConstants (moment : Moment) : Prop :=
  ∀ (array : ArrayId) (values : Buffer), moment.routine.arrays[array]? = some (.constant values) →
    ∃ slot, moment.views[array]? = some ⟨slot, 0, values.size⟩ ∧
      moment.machine.heap[slot]? = some values

/-- Buffers without any of some cells are as they were. -/
def Machine.KeepsOutside (cells : Set Cell) (before after : Machine) : Prop :=
  ∀ (slot : Nat) (buffer : Buffer), before.heap[slot]? = some buffer →
    (∀ cell ∈ cells, cell.slot ≠ slot) → after.heap[slot]? = some buffer

section Keeping

variable {cells more : Set Cell} {before between after : Machine}

theorem Machine.KeepsOutside.refl (cells : Set Cell) (machine : Machine) :
    machine.KeepsOutside cells machine :=
  fun _ _ found _ => found

theorem Machine.KeepsOutside.trans (first : before.KeepsOutside cells between)
    (second : between.KeepsOutside cells after) : before.KeepsOutside cells after :=
  fun slot buffer found outside => second slot buffer (first slot buffer found outside) outside

theorem Machine.KeepsOutside.mono (keeps : before.KeepsOutside cells after) (subset : cells ⊆ more) :
    before.KeepsOutside more after :=
  fun slot buffer found outside => keeps slot buffer found fun cell mem => outside cell (subset mem)

theorem Machine.survives_keepsOutside (start : Machine) :
    Survives cells (start.KeepsOutside cells) :=
  fun _ _ agree keeps slot buffer found outside =>
    (agree.getElem?_heap outside).trans (keeps slot buffer found outside)

end Keeping

section Runs

variable {program : Program} {name : String} {routine : Routine} {arguments : List View}
  {before machine : Machine}

/-- The cells that a call may write: some that its views reach, and some of its own arrays. -/
def Program.writtenInside (program : Program) (name : String) (routine : Routine)
    (arguments : List View) (before : Machine) : Set Cell :=
  program.written name (arguments ++ viewsFrom before.heap.size routine.locals)

/-- A constant array that its routine may not write holds its values as long as the cells are kept that
the routine may not write. -/
theorem Program.getElem?_heap_of_constant (typed : routine.Typed)
    (accepts : routine.Accepts before arguments) {array : Nat} {values : Buffer}
    (declared : routine.arrays[array]? = some (.constant values))
    (unwritten : ¬program.Writes name array)
    (keeps : (before.enter routine).KeepsOutside
      (program.writtenInside name routine arguments before) machine) :
    (arguments ++ viewsFrom before.heap.size routine.locals)[array]? =
        some ⟨before.heap.size + (array - arguments.length), 0, values.size⟩ ∧
      machine.heap[before.heap.size + (array - arguments.length)]? = some values := by
  have count : routine.parameters.length = arguments.length := accepts.length_eq
  have beyond : arguments.length ≤ array := count ▸ typed.parameters_le declared
  refine ⟨routine.view_local _ count beyond declared,
    keeps _ _ (Machine.heap_enter_local count beyond declared) ?_⟩
  rintro cell ⟨other, writes, view, viewed, mem⟩ same
  have slot := (View.mem_cells_iff.mp mem).1
  rcases Routine.views_cases viewed with passed | ⟨otherBeyond, own⟩
  · -- what was passed lies in the heap of the caller
    obtain ⟨bound, rfl⟩ := List.getElem?_eq_some_iff.mp passed
    have typed := (accepts.get (count ▸ bound) bound).2
    rw [Option.map_eq_some_iff] at typed
    obtain ⟨buffer, stored, _⟩ := typed
    have inside := (Array.getElem?_eq_some_iff.mp stored).1
    simp only [List.get_eq_getElem] at inside
    omega
  · obtain rfl : other = array := Nat.le_antisymm (by omega) (by omega)
    exact unwritten writes

/-- The heap of the caller does not see what a call does to its own arrays. -/
theorem Program.keepsOutside_of_enter
    (keeps : (before.enter routine).KeepsOutside
      (program.writtenInside name routine arguments before) machine) :
    before.KeepsOutside (program.written name arguments) machine := by
  intro slot buffer stored outside
  have bound := (Array.getElem?_eq_some_iff.mp stored).1
  refine keeps slot buffer ?_ fun cell written same => ?_
  · rw [Machine.enter, Array.getElem?_append_left bound, stored]
  · rcases Routine.mem_reachOf_views written with passed | own
    · exact outside cell passed same
    · omega

/-- The constant arrays of the routine that runs hold their values, and buffers that it may not write
are as they were at a machine before. -/
def Moment.Constant (cells : Set Cell) (start : Machine) (moment : Moment) : Prop :=
  moment.HoldsConstants ∧ start.KeepsOutside cells moment.machine

/-- In a call, constant arrays hold their values as long as they do in the routines that it calls. -/
theorem Program.Assembled.upholds_constants (assembled : program.Assembled)
    (careful : program.Careful) {host : Host} {depth : Nat}
    (found : program.routine? name = some routine) (accepts : routine.Accepts before arguments)
    (calls : ∀ callee given start, ∀ moment ∈ program.moments host depth callee given start,
      moment.Constant (program.written callee given) start) :
    (program.observed host depth routine arguments before.heap.size
      (program.moments host depth)).Upholds
      (program.writtenInside name routine arguments before)
      ((before.enter routine).KeepsOutside (program.writtenInside name routine arguments before))
      (Moment.Constant (program.writtenInside name routine arguments before) (before.enter routine))
      routine.body where
  confines := program.confines_activation found (program.touches_written host depth) arguments _
  survives := Machine.survives_keepsOutside _
  own code machine keeps := by
    refine ⟨fun array values declared => ?_, keeps⟩
    have typed := assembled.typed routine (List.mem_of_find?_eq_some found)
    obtain ⟨viewed, stored⟩ := Program.getElem?_heap_of_constant typed accepts declared
      (assembled.not_writes_constant careful found declared) keeps
    exact ⟨_, List.getElem?_toArray.trans viewed, stored⟩
  called callee given occurs _ passed _ passes machine keeps inner innerMem := by
    obtain ⟨holds, kept⟩ := calls callee passed machine inner innerMem
    exact ⟨holds, keeps.trans (kept.mono (Program.written_subset_of_windows found occurs passes))⟩

/-- At every moment of a call, the constant arrays of the routine that runs hold their declared values,
and buffers that the called routine may not write are as they were.  The induction is on the number of
calls that may be open. -/
theorem Program.Assembled.constants_stay (assembled : program.Assembled) (careful : program.Careful)
    (host : Host) (depth : Nat) (name : String) (arguments : List View) (before : Machine) :
    ∀ moment ∈ program.moments host depth name arguments before,
      moment.Constant (program.written name arguments) before := by
  induction depth generalizing name arguments before with
  | zero => exact nofun
  | succ depth ih =>
      intro moment mem
      rw [Program.moments] at mem
      cases found : program.routine? name with
      | none => simp [found] at mem
      | some routine =>
          simp only [found, momentsAfter] at mem
          rcases looks_checkArguments routine arguments before with
            ⟨_, checked, accepts⟩ | ⟨error, refused, _⟩
          · rw [checked] at mem
            obtain ⟨holds, keeps⟩ := Observed.throughout_moments routine.body
              (assembled.upholds_constants careful found accepts ih) (before.enter routine) (.refl _ _)
              moment mem
            exact ⟨holds, Program.keepsOutside_of_enter keeps⟩
          · simp [refused] at mem

/-- Constant arrays stay constant where no callee may write to them.  For every program that clients
have assembled by emitter calls, and that passes no window of a constant array for a parameter to which
the callee may write, every host, and every run of one of its routines on any buffers: at every moment,
the constant arrays of the routine that runs hold exactly their declared values. -/
theorem Program.Assembled.holdsConstants_run (assembled : program.Assembled)
    (careful : program.Careful) (host : Host) (name : String) (arguments : List Buffer) :
    ∀ moment ∈ program.runMoments host name arguments, moment.HoldsConstants :=
  fun moment mem => (assembled.constants_stay careful host _ name _ _ moment mem).1

end Runs

/-- A routine that zeroes its parameter. -/
def zeroing : Emit Unit Unit := do
  let value ← Emit.literal (.scalar (.f64 0))
  Emit.store ⟨0, .f64, 0, 1⟩ (.fixed 0) value

/-- A routine that passes its constant array to a routine that zeroes it. -/
def careless : Emit Unit Unit := do
  let table ← Emit.declareConstant (.f64 #[1])
  Emit.call (.routine "zeroing") [.array table]

/-- The emitter accepts a call that changes a constant array. -/
theorem exists_changed_constant :
    ∃ program : Program, program.Assembled ∧
      ∃ moment ∈ program.runMoments ⟨[]⟩ "careless" [], ¬moment.HoldsConstants := by
  have zeroingBuilt : (outcome zeroing (.start "zeroing" [⟨"data", .f64, 1⟩], ())).2.1.Built :=
    .emit (.start _ _) (.bind (.literal _) fun _ => .store _ _ _) ()
  have carelessBuilt : (outcome careless (.start "careless" [], ())).2.1.Built :=
    .emit (.start _ _) (.bind (.declareConstant _) fun _ => .call _ _) ()
  let program : Program := ⟨[(outcome zeroing (.start "zeroing" [⟨"data", .f64, 1⟩], ())).2.1.finish,
    (outcome careless (.start "careless" [], ())).2.1.finish]⟩
  have assembled : program.Assembled := .define (.define .empty zeroingBuilt rfl) carelessBuilt rfl
  have last : ((program.runMoments ⟨[]⟩ "careless" []).getLast?).map
      (fun moment => (moment.routine.arrays, moment.views, moment.machine.heap)) =
        some (#[.constant (.f64 #[1])], #[⟨0, 0, 1⟩], #[.f64 #[0]]) := by
    cbv
  obtain ⟨moment, found, state⟩ := Option.map_eq_some_iff.mp last
  refine ⟨program, assembled, moment, List.mem_of_getLast? found, fun holds => ?_⟩
  obtain ⟨arrays, views, heap⟩ : _ ∧ _ ∧ _ := by simpa using state
  obtain ⟨slot, viewed, stored⟩ := holds 0 (.f64 #[1]) (by simp [arrays])
  obtain ⟨rfl, _⟩ : 0 = slot ∧ _ := by simpa [views] using viewed
  exact absurd (by simpa [heap] using stored) (by decide : (0 : Double) ≠ 1)

end Dataflow
