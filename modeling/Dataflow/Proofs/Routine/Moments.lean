import Dataflow.Proofs.Routine.Calls

/-!
# Moments of a run

The interpreter says what a run leaves behind.  Its moments say what it goes through: before each
instruction, and at the end of each body, the routine that runs, its views, the code that is left of
the innermost body, and the machine.  The moments of a run are listed in the order of time; what
lies between two of them is the interpreter's own doing.
-/

namespace Dataflow

/-- A moment of a run. -/
structure Moment where
  routine : Routine
  views : Array View
  /-- What is left of the innermost body.  The first instruction comes next. -/
  code : List Instruction
  machine : Machine

/-- The moments after an action that succeeds.  After a failure there are none. -/
def momentsAfter {α : Type} (action : Run α) (later : α → Machine → List Moment)
    (machine : Machine) : List Moment :=
  match outcome action machine with
  | (.ok value, after) => later value after
  | (.error _, _) => []

/-- The moments of the turns of a loop. -/
def rangeMoments (turn : Nat → Run Unit) (inside : Nat → Machine → List Moment) :
    (first count : Nat) → Machine → List Moment
  | _, 0, _ => []
  | first, count + 1, machine =>
      inside first machine ++
        momentsAfter (turn first) (fun _ => rangeMoments turn inside (first + 1) count) machine

/-- What runs: the code of a routine, and the moments of the routines that it calls. -/
structure Observed extends Activation where
  routine : Routine
  called : String → List View → Machine → List Moment

namespace Observed

/-- A moment of the running routine. -/
def moment (observed : Observed) (code : List Instruction) (machine : Machine) : Moment :=
  ⟨observed.routine, observed.views, code, machine⟩

mutual

/-- The moments inside an instruction: those of its body, or of the routine that it calls. -/
def inside (observed : Observed) : Instruction → Machine → List Moment
  | .loop counter start stop body =>
      rangeMoments
        (fun index => do
          Run.writeValue counter (.index index)
          observed.executeBody body)
        (fun index => momentsAfter (Run.writeValue counter (.index index)) fun _ =>
          observed.moments body)
        start (stop - start)
  | .branch condition body =>
      momentsAfter (Run.readValue condition) fun value machine =>
        if value = .scalar (.bool true) then observed.moments body machine else []
  | .call (.routine name) arguments =>
      momentsAfter (observed.windows name 0 arguments) (observed.called name)
  | _ => fun _ => []

/-- The moments of a body. -/
def moments (observed : Observed) : List Instruction → Machine → List Moment
  | [], machine => [observed.moment [] machine]
  | instruction :: rest, machine =>
      observed.moment (instruction :: rest) machine :: (observed.inside instruction machine ++
        momentsAfter (observed.execute instruction) (fun _ => observed.moments rest) machine)

end

theorem moments_ne_nil (observed : Observed) (code : List Instruction) (machine : Machine) :
    observed.moments code machine ≠ [] := by
  cases code <;> simp [moments]

/-- A body that runs to its end has the machine that the interpreter leaves at its last moment. -/
theorem getLast?_moments {observed : Observed} {code : List Instruction} {machine after : Machine}
    (succeeded : Succeeds (observed.executeBody code) machine () after) :
    (observed.moments code machine).getLast? = some (observed.moment [] after) := by
  induction code generalizing machine with
  | nil =>
      obtain ⟨_, rfl⟩ := succeeds_pure_iff.mp succeeded
      rfl
  | cons instruction rest ih =>
      obtain ⟨⟨⟩, between, first, later⟩ := succeeds_bind_iff.mp succeeded
      have continued : momentsAfter (observed.execute instruction)
          (fun _ => observed.moments rest) machine = observed.moments rest between := by
        rw [momentsAfter, first]
      rw [moments, continued, ← List.cons_append,
        List.getLast?_append_of_ne_nil _ (observed.moments_ne_nil rest between), ih later]

end Observed

/-- What runs during a call of a routine. -/
def Program.observed (program : Program) (host : Host) (depth : Nat) (routine : Routine)
    (arguments : List View) (base : Nat) (called : String → List View → Machine → List Moment) :
    Observed :=
  { program.activation host depth routine arguments base with routine, called }

/-- The moments of a call. -/
def Program.moments (program : Program) (host : Host) :
    (depth : Nat) → String → List View → Machine → List Moment
  | 0, _, _, _ => []
  | depth + 1, name, arguments, machine =>
      match program.routine? name with
      | none => []
      | some routine =>
          momentsAfter (checkArguments routine arguments)
            (fun _ machine =>
              (program.observed host depth routine arguments machine.heap.size
                (program.moments host depth)).moments routine.body (machine.enter routine))
            machine

/-- The moments of a run on buffers. -/
def Program.runMoments (program : Program) (host : Host) (name : String)
    (arguments : List Buffer) : List Moment :=
  let views := arguments.mapIdx fun slot buffer => (⟨slot, 0, buffer.size⟩ : View)
  program.moments host (maxCallDepth + 1) name views (.start arguments)

end Dataflow
