import Dataflow.Proofs.Lowering.SafeEntry

/-!
# Effects and errors of compiled models

A run of a compiled model checks its inputs first.  Then it calls the host as the sinks of the
model do, in creation order, until the host has no function of some name.  There is no other way
in which a run can fail.
-/

namespace Dataflow

/-! ## Checking the inputs -/

theorem Parameter.fits_iff {parameter : Parameter} {buffer : Buffer} :
    parameter.fits buffer = true ↔ buffer.type = parameter.type ∧ buffer.size = parameter.length := by
  simp [fits, and_comm]

theorem Parameter.fits_eq (parameter : Parameter) (buffer : Buffer) :
    parameter.fits buffer =
      (decide (parameter.length = buffer.size) && decide (some buffer.type = some parameter.type)) := by
  simp only [fits, Option.some.injEq, eq_comm (a := parameter.length)]

/-- The position of the first buffer that does not fit its parameter. -/
def firstMisfit? (parameters : List Parameter) (arguments : List Buffer) : Option Nat :=
  (parameters.zip arguments).findIdx? fun (parameter, buffer) => !parameter.fits buffer

section Misfits

variable {parameters more : List Parameter} {arguments others : List Buffer}

theorem firstMisfit?_eq_none_iff (length : arguments.length = parameters.length) :
    firstMisfit? parameters arguments = none ↔ Matches arguments parameters := by
  rw [firstMisfit?, List.findIdx?_eq_none_iff]
  constructor
  · intro fit
    have each : List.Forall₂ (fun (parameter : Parameter) (buffer : Buffer) =>
        buffer.type = parameter.type ∧ buffer.size = parameter.length) parameters arguments := by
      refine List.forall₂_iff_zip.mpr ⟨length.symm, fun {parameter buffer} mem => ?_⟩
      exact Parameter.fits_iff.mp (by simpa using fit (parameter, buffer) mem)
    exact each.flip
  · rintro fit ⟨parameter, buffer⟩ mem
    have each := (List.forall₂_iff_zip.mp fit.flip).2 mem
    simpa using Parameter.fits_iff.mpr each

/-- Buffers that follow do not matter. -/
theorem firstMisfit?_append {index : Nat} (length : arguments.length = parameters.length)
    (misfit : firstMisfit? parameters arguments = some index) :
    firstMisfit? (parameters ++ more) (arguments ++ others) = some index := by
  rw [firstMisfit?] at misfit ⊢
  rw [List.zip_append length.symm, List.findIdx?_append, misfit, Option.some_or]

/-- The check of a call finds the same position, among the views of the buffers. -/
theorem findIdx?_views :
    (parameters.zip (viewsOf arguments)).findIdx? (fun pair =>
      !(pair.1.length = pair.2.length &&
        ((Machine.start arguments).heap[pair.2.slot]?).map Buffer.type = some pair.1.type)) =
      firstMisfit? parameters arguments := by
  have same : (parameters.zip (viewsOf arguments)).map (fun pair =>
      !(pair.1.length = pair.2.length &&
        ((Machine.start arguments).heap[pair.2.slot]?).map Buffer.type = some pair.1.type)) =
      (parameters.zip arguments).map fun pair => !pair.1.fits pair.2 := by
    refine List.ext_getElem (by simp [viewsOf]) fun index before after => ?_
    have inside : index < arguments.length := by simp [viewsOf] at before; omega
    simp only [List.getElem_map, List.getElem_zip, viewsOf, List.getElem_mapIdx, Machine.start,
      List.getElem?_toArray, List.getElem?_eq_getElem inside, Option.map_some, Parameter.fits_eq]
  rw [firstMisfit?]
  have left := congrArg (List.findIdx? id) same
  rwa [List.findIdx?_map, List.findIdx?_map] at left

end Misfits

/-- A call with a buffer that does not fit fails before the routine starts. -/
theorem Program.run_of_misfit {program : Program} {host : Host} {name : String} {routine : Routine}
    {arguments : List Buffer} {index : Nat} (found : program.routine? name = some routine)
    (length : arguments.length = routine.parameters.length)
    (misfit : firstMisfit? routine.parameters arguments = some index) :
    program.run host name arguments = ⟨.error (.argumentType routine.name index), []⟩ := by
  have checked : outcome (checkArguments routine (viewsOf arguments)) (.start arguments) =
      (.error (.argumentType routine.name index), .start arguments) := by
    have count : routine.parameters.length = (viewsOf arguments).length := by
      simp [viewsOf, length]
    simp only [checkArguments, count, ne_eq, not_true_eq_false, if_false]
    rw [outcome_bind_of_succeeds (succeeds_get_iff.mpr ⟨rfl, rfl⟩)]
    simp only [findIdx?_views, misfit]
    rfl
  have called : outcome (program.call host (maxCallDepth + 1) name (viewsOf arguments))
      (.start arguments) = (.error (.argumentType routine.name index), .start arguments) := by
    rw [Program.call]
    simp only [found]
    rw [outcome_bind, checked]
  rw [run_eq_call, called]
  rfl

/-! ## Runs -/

theorem Program.name_of_routine? {program : Program} {name : String} {routine : Routine}
    (found : program.routine? name = some routine) : routine.name = name := by
  have matched := List.find?_some found
  simpa using matched

/-- The views of buffers that match parameters fit these parameters. -/
theorem fits_viewsOf {parameters : List Parameter} {arguments : List Buffer}
    (fits : Matches arguments parameters) :
    List.Forall₂ (fun parameter view => View.Fits view (Machine.start arguments).heap parameter)
      parameters (viewsOf arguments) := by
  refine List.forall₂_iff_get.mpr ⟨by simpa [viewsOf] using fits.length_eq.symm, ?_⟩
  intro index before after
  have bound : index < arguments.length := by simpa [viewsOf] using after
  obtain ⟨typed, sized⟩ := fits.get bound before
  simp only [List.get_eq_getElem] at typed sized
  refine ⟨arguments[index], ?_, typed, ?_, ?_⟩ <;>
    simp [viewsOf, Machine.start, sized, bound]

/-- A run of a safe routine on buffers that match its parameters fails only when the host makes it
fail. -/
theorem Program.run_of_matches {program : Program} {host : Host} {name : String} {routine : Routine}
    {arguments : List Buffer} (found : program.routine? name = some routine)
    (safe : routine.Safe program.leaves) (fits : Matches arguments routine.parameters)
    {error : RunError} (failed : (program.run host name arguments).result = .error error) :
    host.Raises error := by
  have answers : (program.activation host maxCallDepth routine (viewsOf arguments)
      (Machine.start arguments).heap.size).Answers (routine.declarations program.leaves) :=
    Program.answers_leaves
  have behaves := safe.behaves_call found answers (fits_viewsOf fits)
  unfold Behaves at behaves
  rw [run_eq_call] at failed
  rcases called : outcome (program.call host (maxCallDepth + 1) name (viewsOf arguments))
    (.start arguments) with ⟨other | ⟨⟩, after⟩
  · rw [called] at behaves failed
    obtain rfl := Except.error.inj failed
    exact behaves
  · rw [called] at failed
    simp [Except.map] at failed

section Compiled

variable {model : Model} {options : CompilerOptions} {requests : List Elements}
  {compiled : CompiledModel} {inputs : List Buffer} {host : Host}

/-- With the wrong number of inputs, nothing runs. -/
theorem CompiledModel.compute_of_count
    (different : inputs.length ≠ compiled.signature.inputs.length) :
    compiled.compute inputs host = ⟨.error (.argumentCount compiled.signature.routine
      compiled.signature.inputs.length inputs.length), []⟩ :=
  if_pos different

/-- With an input that does not fit, nothing runs. -/
theorem CompiledModel.compute_of_misfit {routine : Routine} {index : Nat}
    (found : compiled.program.routine? compiled.signature.routine = some routine)
    (parameters : routine.parameters = compiled.signature.parameters)
    (count : inputs.length = compiled.signature.inputs.length)
    (misfit : firstMisfit? (compiled.signature.inputs.map Prod.snd) inputs = some index) :
    compiled.compute inputs host =
      ⟨.error (.argumentType compiled.signature.routine index), []⟩ := by
  have length : (compiled.signature.arguments inputs).length = routine.parameters.length := by
    simp [parameters, Signature.arguments, Signature.parameters, count]
  have total : firstMisfit? routine.parameters (compiled.signature.arguments inputs) =
      some index := by
    rw [parameters]
    exact firstMisfit?_append (by simpa using count) misfit
  rw [compute_eq count, Program.run_of_misfit found length total, Program.name_of_routine? found]
  rfl

/-- With inputs that fit, a run fails only when the host makes it fail. -/
theorem CompiledModel.compute_of_matches {routine : Routine} {error : RunError}
    (found : compiled.program.routine? compiled.signature.routine = some routine)
    (parameters : routine.parameters = compiled.signature.parameters)
    (safe : routine.Safe compiled.program.leaves)
    (fits : Matches inputs (compiled.signature.inputs.map Prod.snd))
    (failed : (compiled.compute inputs host).result = .error error) : host.Raises error := by
  have count : inputs.length = compiled.signature.inputs.length := by simpa using fits.length_eq
  rw [compute_eq count] at failed
  refine Program.run_of_matches found safe (parameters ▸ matches_arguments fits) ?_
  cases result : (compiled.program.run host compiled.signature.routine
    (compiled.signature.arguments inputs)).result with
  | error other => simpa [result, Except.map] using failed
  | ok values => simp [result, Except.map] at failed

/-- With inputs that fit, the model itself can be computed. -/
theorem CompiledModel.exists_computed (sound : model.Sound) (standard : model.Standard)
    (compiles : (model.compile options requests).result = .ok compiled)
    (fits : Matches inputs (compiled.signature.inputs.map Prod.snd)) :
    ∃ loaded, model.setInputs ((compiled.signature.inputs.map Prod.fst).zip inputs) = .ok loaded ∧
      loaded.compute.result = .ok () ∧ loaded.compute.model.WellFormed ∧
      loaded.compute.model.Settled := by
  obtain ⟨_, describes⟩ := sound.wellFormed.describes_of_checkedSignature standard
    (compile_eq_ok_iff.mp compiles).1
  obtain ⟨loaded, set, loads⟩ := describes.exists_loaded sound.wellFormed fits
  obtain ⟨succeeds, wellFormed, settled, _⟩ :=
    loads.wellFormed.compute_standard (standard.of_skeleton_eq loads.skeleton_eq)
  exact ⟨loaded, set, succeeds, wellFormed, settled⟩

end Compiled

/-! ## Effects -/

/-- What a run of a compiled model on some inputs does with some host. -/
structure CompiledModel.Effects (compiled : CompiledModel) (model : Model) (inputs : List Buffer)
    (host : Host) (run : RunOutcome) : Prop where
  /-- A wrong number of inputs is reported as such, and nothing else is. -/
  count_iff : (∃ routine expected found,
      run.result = .error (.argumentCount routine expected found)) ↔
    inputs.length ≠ compiled.signature.inputs.length
  counted : inputs.length ≠ compiled.signature.inputs.length →
    run = ⟨.error (.argumentCount compiled.signature.routine compiled.signature.inputs.length
      inputs.length), []⟩
  /-- Of the inputs that do not fit, the first is reported. -/
  misfit : inputs.length = compiled.signature.inputs.length → ∀ index,
    firstMisfit? (compiled.signature.inputs.map Prod.snd) inputs = some index →
      run = ⟨.error (.argumentType compiled.signature.routine index), []⟩
  /-- Inputs that fit are written to the model.  Its nodes are in creation order, all of them can
  be computed, and the host serves what their code hands to it. -/
  served : Matches inputs (compiled.signature.inputs.map Prod.snd) →
    ∃ loaded, model.setInputs ((compiled.signature.inputs.map Prod.fst).zip inputs) = .ok loaded ∧
      loaded.compute.result = .ok () ∧ loaded.compute.model.Settled ∧
      loaded.compute.model.ids.Pairwise (· < ·) ∧
      (loaded.compute.model.Exact →
        run.result.map (fun _ => ()) =
            (host.serve (loaded.compute.model.entries.flatMap loaded.compute.model.calls)).1 ∧
          List.Forall₂ HostCall.Same run.calls
            (host.serve (loaded.compute.model.entries.flatMap loaded.compute.model.calls)).2)
  /-- There are no other errors. -/
  errors : ∀ error, run.result = .error error →
    error = .argumentCount compiled.signature.routine compiled.signature.inputs.length
        inputs.length ∨
      (∃ index, firstMisfit? (compiled.signature.inputs.map Prod.snd) inputs = some index ∧
        error = .argumentType compiled.signature.routine index) ∨
      ∃ name, host.function? name = none ∧ error = .unknownHostFunction name

/-- For every model of standard nodes that the operations of this library make, for all options and
all requests for which it compiles, for all inputs, and for every host whose functions return: a run
of the compiled model reports a wrong number of inputs, or the first input that does not fit, or it
hands to the host what the sinks of the model hand to it, until the host has no function of some
name.  Nothing else makes it fail. -/
theorem effects_of_compile {model : Model} (reachable : model.Reachable)
    (kinds : ∀ entry ∈ model.entries, entry.node.operator.kind?.isSome)
    {options : CompilerOptions} {requests : List Elements} {compiled : CompiledModel}
    (compiles : (model.compile options requests).result = .ok compiled) (inputs : List Buffer)
    {host : Host} (calm : host.Calm) :
    compiled.Effects model inputs host (compiled.compute inputs host) := by
  have standard : model.Standard :=
    fun entry mem => (reachable.sound.made entry mem).standard (kinds entry mem)
  obtain ⟨routine, found, parameters, safe⟩ :=
    CompiledModel.exists_entry reachable.sound standard compiles
  have errors : ∀ error, (compiled.compute inputs host).result = .error error →
      error = .argumentCount compiled.signature.routine compiled.signature.inputs.length
          inputs.length ∧ inputs.length ≠ compiled.signature.inputs.length ∨
        (∃ index, firstMisfit? (compiled.signature.inputs.map Prod.snd) inputs = some index ∧
          error = .argumentType compiled.signature.routine index) ∨
        ∃ name, host.function? name = none ∧ error = .unknownHostFunction name := by
    intro error failed
    by_cases count : inputs.length = compiled.signature.inputs.length
    · cases misfit : firstMisfit? (compiled.signature.inputs.map Prod.snd) inputs with
      | some index =>
          rw [CompiledModel.compute_of_misfit found parameters count misfit] at failed
          exact .inr (.inl ⟨index, rfl, (Except.error.inj failed).symm⟩)
      | none =>
          have fits := (firstMisfit?_eq_none_iff (by simpa using count)).mp misfit
          exact .inr (.inr (calm.exists_name
            (CompiledModel.compute_of_matches found parameters safe fits failed)))
    · rw [CompiledModel.compute_of_count count] at failed
      exact .inl ⟨(Except.error.inj failed).symm, count⟩
  constructor
  · constructor
    · rintro ⟨_, _, _, failed⟩
      rcases errors _ failed with ⟨_, different⟩ | ⟨_, _, impossible⟩ | ⟨_, _, impossible⟩
      · exact different
      · contradiction
      · contradiction
    · intro different
      exact ⟨_, _, _, by rw [CompiledModel.compute_of_count different]⟩
  · exact fun different => CompiledModel.compute_of_count different
  · exact fun count index misfit =>
      CompiledModel.compute_of_misfit found parameters count misfit
  · intro fits
    obtain ⟨loaded, set, succeeds, wellFormed, settled⟩ :=
      CompiledModel.exists_computed reachable.sound standard compiles fits
    obtain ⟨other, _, otherSet, _, _, follows⟩ :=
      follows_of_compile reachable.sound standard compiles fits
    obtain rfl := Except.ok.inj (set.symm.trans otherSet)
    exact ⟨loaded, set, succeeds, settled, wellFormed.ids_increasing, fun exact =>
      ⟨(follows exact host).result_eq, (follows exact host).calls_same⟩⟩
  · exact fun error failed => (errors error failed).imp And.left id

/-- Without a function for its sink, the model with a sink runs into an error. -/
theorem effects_of_listener :
    ∃ compiled, (listener.compile {} [[⟨3, 0, 0⟩]]).result = .ok compiled ∧
      compiled.compute [] ⟨[]⟩ = ⟨.error (.argumentCount "predict" 1 0), []⟩ ∧
      compiled.compute [.f32 #[]] ⟨[]⟩ = ⟨.error (.argumentType "predict" 0), []⟩ ∧
      (compiled.compute [.f64 #[1]] ⟨[]⟩).result.map (fun _ => ()) =
        .error (.unknownHostFunction "heard") := by
  obtain ⟨compiled, compiles, same⟩ := exists_compiled_listener
  have kinds : ∀ entry ∈ listener.entries, entry.node.operator.kind?.isSome := by decide
  have calm : Host.Calm ⟨[]⟩ := by
    intro name function found
    cases found
  have effects := fun inputs => effects_of_compile reachable_listener kinds compiles inputs calm
  refine ⟨compiled, compiles, ?_, ?_, ?_⟩
  · have counted := (effects []).counted
    rw [same] at counted
    exact counted (by decide)
  · have misfit := (effects [.f32 #[]]).misfit
    rw [same] at misfit
    exact misfit rfl 0 (by decide)
  · have served := (effects [.f64 #[1]]).served
    rw [same] at served
    obtain ⟨loaded, set, _, _, _, serves⟩ := served (.cons ⟨rfl, rfl⟩ .nil)
    obtain ⟨other, otherSet, exact, due⟩ : ∃ other,
        listener.setInputs [(0, .f64 #[1])] = .ok other ∧ other.compute.model.Exact ∧
          other.compute.model.entries.flatMap other.compute.model.calls = [("heard", .f64 #[1])] :=
      ⟨_, rfl, by decide +kernel, by decide +kernel⟩
    obtain rfl := Except.ok.inj (set.symm.trans otherSet)
    rw [(serves exact).1, due]
    rfl

end Dataflow
