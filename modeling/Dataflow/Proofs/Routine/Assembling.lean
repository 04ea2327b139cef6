import Dataflow.Proofs.Routine.Emission
import Dataflow.Routine.Assembly

/-!
# Assembly is made of emitter calls

The steps of an assembly act on their routine by emitter calls only, and a failing step does not
keep the later ones from being taken.  So the programs that come out of assembly are programs that
clients have made by emitter calls.
-/

namespace Dataflow

namespace Emit.Calls

variable {σ α β : Type}

theorem map {action : Emit σ α} (calls : action.Calls) (change : α → β) :
    (change <$> action).Calls := by
  rw [← bind_pure_comp]
  exact calls.bind fun value => .pure (change value)

theorem check (checked : Except CompileError α) : (Emit.check checked : Emit σ α).Calls := by
  cases checked with
  | ok value => exact .pure value
  | error error => exact .throw error

theorem mapM {action : α → Emit σ β} (calls : ∀ item, (action item).Calls) (items : List α) :
    (items.mapM action).Calls := by
  induction items with
  | nil => exact .pure []
  | cons item rest ih =>
      rw [List.mapM_cons]
      exact (calls item).bind fun value => ih.bind fun values => .pure (value :: values)

end Emit.Calls

/-! ## Steps -/

namespace Assemble

variable {σ : Type}

theorem calls_note (notice : Notice) : (note notice : Assemble σ Unit).Calls :=
  .modifyOwn _

theorem calls_handle? (name : String) : (handle? name : Assemble σ (Option Handle)).Calls :=
  .bind .own fun _ => .pure _

theorem calls_bindName (name : Option String) (handle : Handle) :
    (bindName name handle : Assemble σ Unit).Calls := by
  cases name with
  | none => exact .pure ()
  | some name =>
      rw [bindName]
      exact .modifyOwn _

theorem calls_valueNamed (name : String) : (valueNamed name : Assemble σ ValueId).Calls := by
  refine (calls_handle? name).bind fun found => ?_
  rcases found with _ | value | window
  · exact .throw _
  · exact .pure _
  · exact .throw _

theorem calls_arrayNamed (name : String) : (arrayNamed name : Assemble σ ArrayRef).Calls := by
  refine (calls_handle? name).bind fun found => ?_
  rcases found with _ | value | window
  · exact .throw _
  · exact .throw _
  · exact .pure _

theorem calls_operandNamed (name : String) : (operandNamed name : Assemble σ Operand).Calls := by
  refine (calls_handle? name).bind fun found => ?_
  rcases found with _ | value | window
  · exact .throw _
  · exact .pure _
  · exact .pure _

theorem calls_index (position : AssemblyIndex) : (index position : Assemble σ Index).Calls := by
  cases position with
  | fixed position => exact .pure _
  | named name => exact (calls_valueNamed name).map _

theorem calls_inspect (name : String) : (inspect name : Assemble σ Unit).Calls := by
  refine (calls_handle? name).bind fun found => ?_
  rcases found with _ | value | window <;> exact calls_note _

end Assemble

section Steps

variable {Extra σ : Type} {extra : Extra → Assemble σ Unit}

open Assemble

mutual

/-- A step acts by emitter calls, with one case for each kind of step. -/
theorem AssemblyStep.calls_assemble (extras : ∀ step, (extra step).Calls) :
    ∀ step : AssemblyStep Extra, (step.assemble extra).Calls
  | .literal value result => .bind (.literal value) fun _ => calls_bindName _ _
  | .assign target source =>
      (calls_valueNamed target).bind fun _ => (calls_valueNamed source).bind fun _ => .assign _ _
  | .array type length result => .bind (.declareArray type length) fun _ => calls_bindName _ _
  | .constant values result => .bind (.declareConstant values) fun _ => calls_bindName _ _
  | .parameter index result =>
      .bind .builder fun builder => by
        cases builder.parameter? index with
        | some window => exact calls_bindName _ _
        | none => exact calls_note _
  | .slice source start length result =>
      (calls_arrayNamed source).bind fun window => by
        cases window.slice? start length with
        | some part => exact calls_bindName _ _
        | none => exact calls_note _
  | .window source type offset length result =>
      (calls_arrayNamed source).bind fun _ => calls_bindName _ _
  | .load array position result =>
      (calls_arrayNamed array).bind fun _ => (calls_index position).bind fun _ =>
        .bind (.load _ _) fun _ => calls_bindName _ _
  | .store array position value =>
      (calls_arrayNamed array).bind fun _ => (calls_index position).bind fun _ =>
        (calls_valueNamed value).bind fun _ => .store _ _ _
  | .binary op left right result =>
      (Emit.Calls.check _).bind fun _ => (calls_valueNamed left).bind fun _ =>
        (calls_valueNamed right).bind fun _ => .bind (.binary _ _ _) fun _ => calls_bindName _ _
  | .compare predicate left right result =>
      (Emit.Calls.check _).bind fun _ => (calls_valueNamed left).bind fun _ =>
        (calls_valueNamed right).bind fun _ => .bind (.compare _ _ _) fun _ => calls_bindName _ _
  | .loop start stop counter body =>
      .loop start stop fun _ =>
        (calls_bindName _ _).bind fun _ => calls_assembleBody extras body
  | .branch condition body =>
      (calls_valueNamed condition).bind fun _ => .branch _ (calls_assembleBody extras body)
  | .call callee operands =>
      (Emit.Calls.mapM calls_operandNamed operands).bind fun _ => .call _ _
  | .inspect name => calls_inspect name
  | .extra step => extras step

theorem calls_assembleBody (extras : ∀ step, (extra step).Calls) :
    ∀ steps : List (AssemblyStep Extra), (assembleBody extra steps).Calls
  | [] => .pure ()
  | step :: rest => (step.calls_assemble extras).bind fun _ => calls_assembleBody extras rest

end

/-- Taking steps one after the other, also after failures, is the work of a client. -/
theorem built_assembleEach (extras : ∀ step, (extra step).Calls) {builder : Builder}
    (built : builder.Built) (steps : List (AssemblyStep Extra)) (state : AssemblyState σ) :
    ((assembleEach extra steps).run (builder, state)).2.1.Built := by
  induction steps generalizing builder state with
  | nil => exact built
  | cons step rest ih =>
      exact ih (built.emit (step.calls_assemble extras) state)
        (outcome (step.assemble extra) (builder, state)).2.2

end Steps

/-! ## Programs -/

/-- An invariant that each action of a list keeps holds after all of them, and each result meets
its condition. -/
theorem kept_mapM {α β σ : Type} {action : α → StateM σ β} {invariant : σ → Prop}
    {condition : β → Prop} {items : List α} {state : σ} (holds : invariant state)
    (each : ∀ item ∈ items, ∀ state, invariant state →
      invariant ((action item).run state).2 ∧ condition ((action item).run state).1) :
    invariant ((items.mapM action).run state).2 ∧
      ∀ result ∈ ((items.mapM action).run state).1, condition result := by
  induction items generalizing state with
  | nil => exact ⟨holds, fun _ none => nomatch none⟩
  | cons item rest ih =>
      obtain ⟨kept, met⟩ := each item List.mem_cons_self state holds
      obtain ⟨keptAll, metAll⟩ := ih kept fun other mem => each other (List.mem_cons_of_mem _ mem)
      rw [List.mapM_cons]
      exact ⟨keptAll, List.forall_mem_cons.mpr ⟨met, metAll⟩⟩

namespace ProgramAssembly

/-- A routine whose declaration succeeded has been made by emitter calls. -/
def Prepared (routine : Except CompileError AssembledRoutine) : Prop :=
  ∀ assembled, routine = .ok assembled → assembled.builder.Built

theorem prepared_declare (source : RoutineSource) (assembly : ProgramAssembly) :
    ((declare source).run assembly).2.program = assembly.program ∧
      Prepared ((declare source).run assembly).1 := by
  unfold declare
  simp only [StateT.run_bind, StateT.run_get, pure_bind]
  cases declared : assembly.program.declare source.name source.parameters with
  | error error => exact ⟨rfl, fun _ impossible => by cases impossible⟩
  | ok builder =>
      refine ⟨rfl, ?_⟩
      rintro _ ⟨⟩
      unfold Program.declare at declared
      split at declared
      · contradiction
      · obtain rfl := Except.ok.inj declared
        exact built_assembleEach (fun step => step.elim) (.start _ _) source.body assembly.names

theorem assembled_define {routine : Except CompileError AssembledRoutine}
    (prepared : Prepared routine) (name : String) {assembly : ProgramAssembly}
    (assembled : assembly.program.Assembled) :
    ((define name routine).run assembly).2.program.Assembled := by
  cases routine with
  | error error => exact assembled
  | ok routine =>
      unfold define
      simp only [StateT.run_bind, StateT.run_get, pure_bind]
      cases defined : assembly.program.define routine.builder with
      | error error => exact assembled
      | ok program => exact assembled.define (prepared routine rfl) defined

/-- What has been defined so far is made by emitter calls. -/
def Sound (assembly : ProgramAssembly) : Prop :=
  assembly.program.Assembled

theorem sound_declare (source : RoutineSource) {assembly : ProgramAssembly} (sound : assembly.Sound) :
    ((declare source).run assembly).2.Sound ∧ Prepared ((declare source).run assembly).1 := by
  obtain ⟨same, prepared⟩ := prepared_declare source assembly
  exact ⟨by rwa [Sound, same], prepared⟩

/-- The programs that come out of assembly are made by emitter calls, whether routines are defined at
their ends or all at the very end. -/
theorem assembled_run (deferred : Bool) (sources : List RoutineSource) :
    ((run deferred sources).run start).2.program.Assembled := by
  have sound : start.Sound := .empty
  cases deferred with
  | false =>
      have kept : ((run false sources).run start).2.Sound ∧
          ∀ result ∈ ((run false sources).run start).1, True :=
        kept_mapM sound fun source _ state holds => by
          obtain ⟨declared, prepared⟩ := sound_declare source holds
          exact ⟨assembled_define prepared source.name declared, trivial⟩
      exact kept.1
  | true =>
      let prepare (source : RoutineSource) :
          StateM ProgramAssembly (String × Except CompileError AssembledRoutine) := do
        return (source.name, ← declare source)
      have declared : ((sources.mapM prepare).run start).2.Sound ∧
          ∀ routine ∈ ((sources.mapM prepare).run start).1, Prepared routine.2 :=
        kept_mapM sound fun source _ state holds => sound_declare source holds
      have defined : ((run true sources).run start).2.Sound ∧
          ∀ result ∈ ((run true sources).run start).1, True :=
        kept_mapM declared.1 fun routine mem state holds =>
          ⟨assembled_define (declared.2 routine mem) routine.1 holds, trivial⟩
      exact defined.1

end ProgramAssembly

end Dataflow
