import Dataflow.Proofs.Routine.Emission
import Dataflow.Proofs.Routine.TypedMachines

/-!
# Soundness of the emitter

A program that clients have made by emitter calls is typed, and a run of typed code keeps the types.
At every moment of the run a variable that has a value has one of its type.  Such a run can fail in
many ways, since it may call what does not exist and read what was never assigned.  But it does not
meet an undeclared array, it meets a value of a wrong type only when it hands an index to the host,
and it leaves an array only through an index variable.
-/

namespace Dataflow

/-! ## Judgements -/

/-- The variables of a moment hold values of their declared types, if any. -/
def Moment.Typed (moment : Moment) : Prop :=
  ∀ (value : ValueId) (literal : Literal),
    moment.machine.registers[value]? = some (some literal) →
      moment.routine.valueTypes[value]? = some literal.type

/-- What holds of an action and its moments: they are typed, the action reaches a goal if it
succeeds, and it fails only as its last moment permits. -/
structure Judged (action : Run Unit) (moments : List Moment) (before : Machine)
    (goal : Machine → Prop) : Prop where
  typed : ∀ moment ∈ moments, moment.Typed
  reaches : ∀ after, Succeeds action before () after → goal after
  permits : ∀ error after, outcome action before = (.error error, after) →
    error.Permitted moments.getLast?

section Judgements

variable {action : Run Unit} {moments : List Moment} {before : Machine}
  {goal more : Machine → Prop}

theorem Judged.mono (judged : Judged action moments before goal)
    (implies : ∀ after, goal after → more after) : Judged action moments before more :=
  { judged with reaches := fun after done => implies after (judged.reaches after done) }

/-- An action with the same outcome, maybe from another machine. -/
theorem Judged.congr (judged : Judged action moments before goal) {other : Run Unit}
    {start : Machine} (same : outcome other start = outcome action before) :
    Judged other moments start goal where
  typed := judged.typed
  reaches after done := judged.reaches after (same.symm.trans done)
  permits error after failed := judged.permits error after (same.symm.trans failed)

theorem judged_of_failed {error : RunError} {after : Machine}
    (failed : outcome action before = (.error error, after))
    (typed : ∀ moment ∈ moments, moment.Typed) (permitted : error.Permitted moments.getLast?) :
    Judged action moments before goal where
  typed := typed
  reaches later done := absurd (failed.symm.trans done) (by simp)
  permits other later otherFailed := by
    obtain ⟨rfl, _⟩ : error = other ∧ after = later := by simpa using failed.symm.trans otherFailed
    exact permitted

/-- An action that has more moments before it. -/
theorem Judged.prepend (judged : Judged action moments before goal) {earlier : List Moment}
    (typed : ∀ moment ∈ earlier, moment.Typed) : Judged action (earlier ++ moments) before goal where
  typed moment mem := (List.mem_append.mp mem).elim (typed moment) (judged.typed moment)
  reaches := judged.reaches
  permits error after failed := (judged.permits error after failed).append earlier

theorem Judged.cons (judged : Judged action moments before goal) {moment : Moment}
    (typed : moment.Typed) : Judged action (moment :: moments) before goal :=
  judged.prepend (List.forall_mem_singleton.mpr typed)

theorem Judged.bind {next : Unit → Run Unit} {later : Unit → Machine → List Moment}
    (first : Judged action moments before goal)
    (second : ∀ between, goal between → Judged (next ()) (later () between) between more) :
    Judged (action >>= next) (moments ++ momentsAfter action later before) before more := by
  have unfolded := outcome_bind action next before
  rcases done : outcome action before with ⟨error | ⟨⟩, between⟩
  · rw [done] at unfolded
    rw [momentsAfter, done, List.append_nil]
    exact judged_of_failed unfolded first.typed (first.permits error between done)
  · rw [done] at unfolded
    rw [momentsAfter, done]
    exact ((second between (first.reaches between done)).prepend first.typed).congr unfolded

/-- An action that starts with a check, which fails only in ways that are always permitted. -/
theorem Judged.look {α : Type} {check : Run α} {condition : α → Prop} {next : α → Run Unit}
    {later : α → Machine → List Moment} (looks : Looks check before condition RunError.Harmless)
    (rest : ∀ value, condition value → Judged (next value) (later value before) before goal) :
    Judged (check >>= next) (momentsAfter check later before) before goal := by
  rcases looks with ⟨value, done, meets⟩ | ⟨error, done, harmless⟩
  · rw [momentsAfter, done]
    exact (rest value meets).congr (outcome_bind_of_succeeds done next)
  · rw [momentsAfter, done]
    exact judged_of_failed (by rw [outcome_bind, done]) (by simp) harmless

end Judgements

namespace Observed

/-- What the code of the running routine refers to. -/
def declared (observed : Observed) : Declarations :=
  observed.routine.declarations fun _ _ => False

/-- A machine suits the running routine. -/
def Suits (observed : Observed) (machine : Machine) : Prop :=
  machine.Typed observed.declared observed.views

/-- The machine that an instruction leaves is like the one before it, and suits the routine. -/
def Leaves (observed : Observed) (before after : Machine) : Prop :=
  before.Alike after ∧ observed.Suits after

variable {observed : Observed} {machine : Machine} {rest : List Instruction}

theorem Suits.moment (suits : observed.Suits machine) (code : List Instruction) :
    (observed.moment code machine).Typed :=
  suits.registers

theorem Leaves.trans {before between after : Machine} (first : observed.Leaves before between)
    (second : observed.Leaves between after) : observed.Leaves before after :=
  ⟨first.1.trans second.1, second.2⟩

end Observed

/-! ## Calls -/

section Calls

variable {program : Program} {host : Host} {depth : Nat} {name : String} {routine : Routine}
  {passed : List View} {before : Machine}

/-- A routine accepts its arguments, or the call fails before the routine is entered. -/
theorem looks_checkArguments (routine : Routine) (passed : List View) (machine : Machine) :
    Looks (checkArguments routine passed) machine (fun _ => routine.Accepts machine passed)
      RunError.Harmless := by
  unfold checkArguments
  by_cases length : routine.parameters.length = passed.length
  · simp only [length, ne_eq, not_true_eq_false, if_false]
    have sees : Looks (get : Run Machine) machine (machine = ·) RunError.Harmless :=
      .inl ⟨machine, rfl, rfl⟩
    refine sees.bind ?_
    rintro _ rfl
    split
    · rename_i index _
      have harmless : RunError.Harmless (.argumentType routine.name index) := trivial
      exact looks_throw harmless
    · rename_i none
      refine looks_pure (List.forall₂_iff_zip.mpr ⟨length, fun {parameter view} mem => ?_⟩)
      simpa using List.findIdx?_eq_none_iff.mp none _ mem
  · have harmless : RunError.Harmless
        (.argumentCount routine.name routine.parameters.length passed.length) := trivial
    simp only [length, ne_eq, not_false_eq_true, if_true]
    exact .inr ⟨_, rfl, harmless⟩

end Calls

end Dataflow
