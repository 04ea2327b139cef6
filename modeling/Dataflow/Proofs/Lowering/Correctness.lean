import Dataflow.Proofs.Graph.Loading
import Dataflow.Proofs.Lowering.EntryRoutine
import Dataflow.Proofs.Reachable

/-!
# Compiled models

A compiled model does what computing the model does: it calls the host as the sinks of the model
do, and if the host answers, its results are the requested elements of the computed model.
-/

namespace Dataflow

/-! ## Signatures -/

section Signatures

variable {model : Model} {options : CompilerOptions} {signature : Signature}
  {requests : List Elements}

/-- The signature of a model for requested outputs: one parameter for each input node, and one
for each request. -/
structure Signature.Describes (signature : Signature) (model : Model) (requests : List Elements) :
    Prop where
  inputs_eq : signature.inputs.map Prod.fst = model.inputNodes
  inputs : ∀ pair ∈ signature.inputs, (pair.1, Node.input pair.2.type pair.2.length) ∈ model.skeleton
  outputs : List.Forall₂ (fun (parameter : Parameter) (elements : Elements) =>
    parameter.length = elements.length ∧ model.elementType elements = .ok parameter.type ∧
      ∀ coordinate ∈ elements, ∃ scalar, model.value coordinate = .ok scalar ∧
        scalar.type = parameter.type) signature.outputs requests

theorem inputs_of_signature (wellFormed : model.WellFormed) (standard : model.Standard)
    {inputs : List (NodeId × Parameter)}
    (parameters : model.inputNodes.mapM (inputParameter model) = .ok inputs) :
    inputs.map Prod.fst = model.inputNodes ∧
      ∀ pair ∈ inputs, (pair.1, Node.input pair.2.type pair.2.length) ∈ model.skeleton := by
  have each : List.Forall₂ (fun id (pair : NodeId × Parameter) => pair.1 = id ∧
      (id, Node.input pair.2.type pair.2.length) ∈ model.skeleton) model.inputNodes inputs := by
    refine List.forall₂_iff_zip.mpr ⟨(mapM_eq_ok_iff.mp parameters).length_eq, ?_⟩
    intro id pair mem
    have made := (List.forall₂_iff_zip.mp (mapM_eq_ok_iff.mp parameters)).2 mem
    obtain ⟨entry, entryMem, rfl⟩ := List.mem_map.mp (List.of_mem_zip mem).1
    rw [List.mem_filter] at entryMem
    simp only [inputParameter, wellFormed.coherent.entry_of_mem entryMem.1] at made
    obtain ⟨type, size, node⟩ := (standard entry entryMem.1).input_of_capabilities entryMem.2
    obtain rfl : (entry.id, (⟨s!"input_{entry.id}", type, size⟩ : Parameter)) = pair := by
      simpa [node, Node.input, Node.outputs, Operator.outputs, Except.mapError, bind,
        Except.bind] using made
    exact ⟨rfl, Model.mem_skeleton_iff.mpr ⟨entry, entryMem.1, rfl, node⟩⟩
  constructor
  · have same : List.Forall₂ (fun (pair : NodeId × Parameter) id => pair.1 = id) inputs
        model.inputNodes := (each.imp fun _ _ described => described.1).flip
    rwa [← List.forall₂_map_left_iff, List.forall₂_eq_eq_eq] at same
  · intro pair mem
    obtain ⟨id, _, rfl, described⟩ := exists_of_mem_right each mem
    exact described

theorem checkElementTypes_eq_ok_iff {index : Nat} {type : ScalarType} {elements : Elements} :
    checkElementTypes model index type elements = .ok () ↔
      ∀ coordinate ∈ elements, ∃ scalar, model.value coordinate = .ok scalar ∧
        scalar.type = type := by
  rw [checkElementTypes, List.forM_eq_forM, forM_eq_ok_iff]
  refine forall₂_congr fun coordinate _ => ?_
  simp only [bind_eq_ok_iff, mapError_eq_ok_iff]
  refine exists_congr fun scalar => and_congr_right fun _ => ?_
  by_cases same : scalar.type = type <;> simp [same]

theorem describes_of_signature (wellFormed : model.WellFormed) (standard : model.Standard)
    {routine : String} (made : model.signature routine requests = .ok signature) :
    signature.routine = routine ∧ signature.Describes model requests := by
  simp only [Model.signature, bind_eq_ok_iff, pure_eq_ok_iff] at made
  obtain ⟨inputs, parameters, outputs, requested, rfl⟩ := made
  obtain ⟨inputsEq, described⟩ := inputs_of_signature wellFormed standard parameters
  refine ⟨rfl, inputsEq, described, ?_⟩
  have each := mapM_eq_ok_iff.mp requested
  have length : outputs.length = requests.length := by simpa using each.length_eq.symm
  refine List.forall₂_iff_get.mpr ⟨length, fun index before after => ?_⟩
  have got := each.get (by simpa using after) before
  simp only [List.get_eq_getElem, List.getElem_zipIdx, requestedParameter, bind_eq_ok_iff,
    mapError_eq_ok_iff, pure_eq_ok_iff] at got ⊢
  obtain ⟨type, typed, ⟨⟩, checked, parameter⟩ := got
  rw [← parameter]
  exact ⟨rfl, typed, checkElementTypes_eq_ok_iff.mp checked⟩

theorem Model.WellFormed.describes_of_checkedSignature (wellFormed : model.WellFormed)
    (standard : model.Standard) {options : CompilerOptions}
    (checked : model.checkedSignature options requests = .ok signature) :
    signature.routine = options.functionName ∧ signature.Describes model requests := by
  simp only [checkedSignature, bind_eq_ok_iff] at checked
  obtain ⟨_, _, made⟩ := checked
  exact describes_of_signature wellFormed standard made

theorem Signature.Describes.lengths (describes : signature.Describes model requests) :
    ∀ request ∈ signature.outputs.zip requests, request.1.length = request.2.length :=
  fun _ mem => ((List.forall₂_iff_zip.mp describes.outputs).2 mem).1

end Signatures

/-! ## Requested outputs -/

section Requests

variable {model loaded : Model} {signature : Signature} {requests : List Elements}

/-- What a model computes for the requests are the gathered elements, in the types of the output
parameters. -/
theorem Signature.Describes.exists_outputs (describes : signature.Describes model requests)
    (wellFormed : model.WellFormed) (computed : loaded.compute.model.WellFormed)
    (same : loaded.compute.model.skeleton = model.skeleton)
    (succeeds : loaded.compute.result = .ok ()) :
    ∃ expected, requests.mapM loaded.computeOutput = .ok expected ∧
      List.Forall₂ (fun request values =>
        loaded.compute.model.gather request.2 request.1.type = .ok values)
        (signature.outputs.zip requests) expected := by
  obtain ⟨_, _, pairwise⟩ := describes
  generalize signature.outputs = outputs at pairwise
  induction pairwise with
  | nil => exact ⟨[], rfl, .nil⟩
  | @cons parameter elements outputs requests described _ ih =>
      obtain ⟨_, typed, readable⟩ := described
      obtain ⟨expected, others, gathered⟩ := ih
      have sameType := wellFormed.elementType_eq computed same typed
      obtain ⟨values, first⟩ : ∃ values,
          loaded.compute.model.gather elements parameter.type = .ok values := by
        refine Model.exists_gather fun coordinate mem => ?_
        obtain ⟨scalar, read, scalarType⟩ := readable coordinate mem
        obtain ⟨value, computedRead, valueType⟩ :=
          wellFormed.exists_value_of_skeleton_eq computed same read
        exact ⟨value, computedRead, valueType.trans scalarType⟩
      refine ⟨values :: expected, ?_, .cons first gathered⟩
      simp [Model.computeOutput, Model.collect, succeeds, sameType, first, others]

end Requests

/-! ## Compilation -/

theorem compile_eq_ok_iff {model : Model} {options : CompilerOptions} {requests : List Elements}
    {compiled : CompiledModel} :
    (model.compile options requests).result = .ok compiled ↔
      model.checkedSignature options requests = .ok compiled.signature ∧
        ∃ builder lowering, Succeeds (lowerEntry model options compiled.signature requests)
            (.start compiled.signature.routine compiled.signature.parameters, .start) ()
            (builder, lowering) ∧
          lowering.program.define builder = .ok compiled.program ∧
          compiled.strategies = lowering.strategies.toList ∧
          compiled.subroutines = lowering.subroutines.toList := by
  unfold Model.compile
  cases checked : model.checkedSignature options requests with
  | error error => simp
  | ok signature =>
      simp only [Except.ok.injEq]
      rcases lowered : (lowerEntry model options signature requests).run.run
        (.start signature.routine signature.parameters, .start) with ⟨result, builder, lowering⟩
      simp only [bind_eq_ok_iff, pure_eq_ok_iff]
      constructor
      · rintro ⟨⟨⟩, succeeded, program, defined, rfl⟩
        exact ⟨rfl, builder, lowering, lowered.trans (by rw [succeeded]), defined, rfl, rfl⟩
      · rintro ⟨rfl, otherBuilder, otherLowering, succeeded, defined, strategies, subroutines⟩
        have same : (result, builder, lowering) = (.ok (), otherBuilder, otherLowering) :=
          lowered.symm.trans succeeded
        obtain ⟨rfl, rfl, rfl⟩ : result = .ok () ∧ builder = otherBuilder ∧ lowering = otherLowering := by
          simpa only [Prod.mk.injEq] using same
        exact ⟨(), rfl, compiled.program, defined, by rw [← strategies, ← subroutines]⟩

/-! ## Runs -/

/-- A run makes the calls that are due, as far as the host serves them, and if it serves all of
them, ends with what is expected. -/
structure RunOutcome.Follows (run : RunOutcome) (host : Host) (due : List (String × Buffer))
    (expected : List Buffer) : Prop where
  result_eq : run.result.map (fun _ => ()) = (host.serve due).1
  calls_same : List.Forall₂ HostCall.Same run.calls (host.serve due).2
  results_same : ∀ results, run.result = .ok results → List.Forall₂ Buffer.Same results expected

section Runs

variable {model : Model} {options : CompilerOptions} {requests : List Elements}
  {compiled : CompiledModel} {inputs : List Buffer}

/-- Buffers for the input parameters can be written to the input nodes. -/
theorem Signature.Describes.exists_loaded {signature : Signature}
    (describes : signature.Describes model requests) (wellFormed : model.WellFormed)
    (fits : Matches inputs (signature.inputs.map Prod.snd)) :
    ∃ loaded, model.setInputs ((signature.inputs.map Prod.fst).zip inputs) = .ok loaded ∧
      model.Loads ((signature.inputs.map Prod.fst).zip inputs) loaded := by
  have length : inputs.length = signature.inputs.length := by simpa using fits.length_eq
  refine wellFormed.exists_setInputs ?_ ?_
  · rintro ⟨id, values⟩ mem
    obtain ⟨index, bound, at_⟩ := List.getElem_of_mem mem
    rw [List.getElem_zip, List.getElem_map] at at_
    obtain ⟨rfl, rfl⟩ := Prod.mk.inj at_
    rw [List.length_zip, List.length_map, ← length, Nat.min_self] at bound
    have inside : index < (signature.inputs.map Prod.snd).length := by simpa [← length] using bound
    obtain ⟨typed, sized⟩ := fits.get bound inside
    simp only [List.get_eq_getElem, List.getElem_map] at typed sized
    rw [Model.Takes, typed, sized]
    exact describes.inputs _ (List.getElem_mem _)
  · rw [List.map_fst_zip (by simp [length]), describes.inputs_eq]
    exact wellFormed.inputNodes_nodup

/-- The nodes of input parameters take their values from outside. -/
theorem Signature.Describes.capabilities_input {signature : Signature} {computed : Model}
    (describes : signature.Describes model requests) (wellFormed : computed.WellFormed)
    (same : computed.skeleton = model.skeleton) :
    ∀ pair ∈ signature.inputs, ∀ entry ∈ computed.entries, entry.id = pair.1 →
      entry.node.capabilities.input = true := by
  intro pair mem entry entryMem id
  have listed := describes.inputs pair mem
  rw [← same, Model.mem_skeleton_iff] at listed
  obtain ⟨other, otherMem, otherId, node⟩ := listed
  obtain rfl := wellFormed.coherent.entry_unique otherMem entryMem (otherId.trans id.symm)
  rw [node]
  rfl

/-- The arguments of the entry routine: the inputs, and a buffer for each output. -/
def Signature.arguments (signature : Signature) (inputs : List Buffer) : List Buffer :=
  inputs ++ signature.outputs.map fun parameter => Buffer.zeros parameter.type parameter.length

theorem matches_arguments {signature : Signature}
    (fits : Matches inputs (signature.inputs.map Prod.snd)) :
    Matches (signature.arguments inputs) signature.parameters := by
  refine List.rel_append fits ?_
  induction signature.outputs with
  | nil => exact .nil
  | cons parameter rest ih => exact .cons (by simp) ih

/-- The inputs that were written are what the input nodes of the computed model hold. -/
theorem exists_argument {signature : Signature} {loaded : Model}
    (describes : signature.Describes model requests)
    (fits : Matches inputs (signature.inputs.map Prod.snd))
    (loads : model.Loads ((signature.inputs.map Prod.fst).zip inputs) loaded)
    (wellFormed : loaded.compute.model.WellFormed)
    (refreshed : List.Forall₂ Model.Refreshed loaded.entries loaded.compute.model.entries)
    {index : Nat} {id : NodeId} {parameter : Parameter}
    (found : signature.inputs[index]? = some (id, parameter)) :
    ∃ values : Buffer, (signature.arguments inputs)[index]? = some values ∧
      ∀ coordinate scalar, coordinate.output = ⟨id, 0⟩ →
        values.get? coordinate.element = some scalar →
        loaded.compute.model.value coordinate = .ok scalar := by
  have parameterAt : (signature.inputs.map Prod.snd)[index]? = some parameter := by simp [found]
  obtain ⟨values, given, _⟩ := exists_getElem?_right fits parameterAt
  have bound := (List.getElem?_eq_some_iff.mp given).1
  refine ⟨values, by rw [Signature.arguments, List.getElem?_append_left bound, given], ?_⟩
  intro coordinate scalar port got
  have listed : (id, values) ∈ (signature.inputs.map Prod.fst).zip inputs := by
    refine List.mem_of_getElem? (i := index) ?_
    rw [List.getElem?_zip_eq_some, List.getElem?_map, found]
    exact ⟨rfl, given⟩
  obtain ⟨entry, mem, rfl, outputs⟩ := loads.written _ listed
  obtain ⟨twin, twinMem, same⟩ := exists_of_mem_left refreshed mem
  have input := describes.capabilities_input loads.wellFormed loads.skeleton_eq _
    (List.mem_of_getElem? found) entry mem rfl
  rw [Coordinate.output, OutputRef.mk.injEq] at port
  refine wellFormed.coherent.value_eq_ok_iff.mpr
    ⟨twin, twinMem, same.id_eq.trans port.1.symm, values, ?_, got⟩
  rw [same.kept input, outputs, port.2]
  rfl

/-- With the right number of inputs, a compiled model runs its entry routine. -/
theorem CompiledModel.compute_eq {host : Host}
    (count : inputs.length = compiled.signature.inputs.length) :
    compiled.compute inputs host =
      let run := compiled.program.run host compiled.signature.routine
        (compiled.signature.arguments inputs)
      { run with result := run.result.map (·.drop compiled.signature.inputs.length) } :=
  if_neg (by simpa using count)

/-- If the code of the entry routine makes the calls that are due and leaves the outputs in their
parameters, a run does so. -/
theorem CompiledModel.follows_of_delivers {host : Host} {routine : Routine}
    {due : List (String × Buffer)} {goal : Machine → Prop} {expected : List Buffer}
    (found : compiled.program.routine? compiled.signature.routine = some routine)
    (parameters : routine.parameters = compiled.signature.parameters)
    (fits : Matches inputs (compiled.signature.inputs.map Prod.snd))
    (delivers : (compiled.program.activation host maxCallDepth routine
      (viewsOf (compiled.signature.arguments inputs)) (compiled.signature.arguments inputs).length).Delivers routine.body
        due (Machine.entry (compiled.signature.arguments inputs) routine) goal)
    (results : ∀ after : Machine, goal after → List.Forall₂ Buffer.Same
      ((after.heap.toList.take compiled.signature.parameters.length).drop
        compiled.signature.inputs.length) expected) :
    (compiled.compute inputs host).Follows host due expected := by
  obtain ⟨after, recorded, ran, calls, served, reached⟩ := delivers
  have arguments := matches_arguments fits
  have count : inputs.length = compiled.signature.inputs.length := by simpa using fits.length_eq
  have length : (compiled.signature.arguments inputs).length =
      compiled.signature.parameters.length := arguments.length_eq
  have outcome : compiled.program.run host compiled.signature.routine
      (compiled.signature.arguments inputs) = ⟨(host.serve due).1.map fun _ =>
        after.heap.toList.take compiled.signature.parameters.length, after.calls.toList⟩ := by
    rw [← length]
    exact run_eq found (parameters ▸ arguments) ran
  have computes : compiled.compute inputs host = ⟨(host.serve due).1.map fun _ =>
      (after.heap.toList.take compiled.signature.parameters.length).drop
        compiled.signature.inputs.length, after.calls.toList⟩ := by
    rw [CompiledModel.compute_eq count, outcome]
    rcases (host.serve due).1 with _ | ⟨⟩ <;> rfl
  rw [computes]
  refine ⟨?_, calls ▸ served, fun values finished => ?_⟩
  · rcases (host.serve due).1 with _ | ⟨⟩ <;> rfl
  · obtain ⟨⟨⟩, answered, rfl⟩ := map_eq_ok_iff.mp finished
    exact results after (reached answered)

/-- The run of a compiled model on buffers that match its input parameters follows the model with
these buffers written to its input nodes. -/
theorem follows_of_unambiguous (sound : model.Sound) (standard : model.Standard)
    (compiles : (model.compile options requests).result = .ok compiled)
    (fits : Matches inputs (compiled.signature.inputs.map Prod.snd)) :
    ∃ loaded expected,
      model.setInputs ((compiled.signature.inputs.map Prod.fst).zip inputs) = .ok loaded ∧
        requests.mapM loaded.computeOutput = .ok expected ∧
        loaded.compute.model.skeleton = model.skeleton ∧
        (loaded.compute.model.Unambiguous →
          ∀ host : Host, (compiled.compute inputs host).Follows host
            (loaded.compute.model.entries.flatMap loaded.compute.model.calls) expected) := by
  obtain ⟨checked, builder, lowering, lowered, defined, _⟩ := compile_eq_ok_iff.mp compiles
  obtain ⟨_, describes⟩ := sound.wellFormed.describes_of_checkedSignature standard checked
  obtain ⟨loaded, set, loads⟩ := describes.exists_loaded sound.wellFormed fits
  obtain ⟨succeeds, wellFormed, settled, refreshed, _⟩ :=
    loads.wellFormed.compute_standard (standard.of_skeleton_eq loads.skeleton_eq)
  have same : loaded.compute.model.skeleton = model.skeleton :=
    (Model.skeleton_eq_of_refreshed refreshed).trans loads.skeleton_eq
  obtain ⟨expected, computed, gathered⟩ :=
    describes.exists_outputs sound.wellFormed wellFormed same succeeds
  refine ⟨loaded, expected, set, computed, same, fun unambiguous host => ?_⟩
  have emitted : Succeeds (lowerEntry loaded.compute.model options compiled.signature requests)
      (.start compiled.signature.routine compiled.signature.parameters, .start) ()
      (builder, lowering) := by
    rwa [lowerEntry, lowerNodes_congr same]
  obtain ⟨code, grows, delivers⟩ := transports_of_entry wellFormed settled
    (standard.of_skeleton_eq same) unambiguous (describes.capabilities_input wellFormed same)
    (describes.outputs.imp fun _ _ fits => fits.1) emitted
  have body : builder.finish.body = code := body_finish grows
  have name : builder.name = compiled.signature.routine := grows.name_eq
  refine CompiledModel.follows_of_delivers (name ▸ Program.routine?_of_define defined)
    grows.parameters_eq fits (body ▸ delivers (Program.extends_of_define defined)
      (matches_arguments fits)
      (fun _ _ _ => exists_argument describes fits loads wellFormed refreshed) gathered) ?_
  rintro after ⟨whole, shows⟩
  exact same_outputs grows whole shows
    (by simpa [describes.outputs.length_eq] using gathered.length_eq)

theorem follows_of_compile (sound : model.Sound) (standard : model.Standard)
    (compiles : (model.compile options requests).result = .ok compiled)
    (fits : Matches inputs (compiled.signature.inputs.map Prod.snd)) :
    ∃ loaded expected,
      model.setInputs ((compiled.signature.inputs.map Prod.fst).zip inputs) = .ok loaded ∧
        requests.mapM loaded.computeOutput = .ok expected ∧
        loaded.compute.model.skeleton = model.skeleton ∧
        (loaded.compute.model.Exact → ∀ host : Host, (compiled.compute inputs host).Follows host
          (loaded.compute.model.entries.flatMap loaded.compute.model.calls) expected) := by
  obtain ⟨loaded, expected, set, computed, same, follows⟩ :=
    follows_of_unambiguous sound standard compiles fits
  exact ⟨loaded, expected, set, computed, same, fun exact => follows exact.unambiguous⟩

end Runs

/-! ## Correctness -/

/-- The host has a function with a name, and it returns. -/
def Host.Answers (host : Host) (name : String) : Prop :=
  ∃ function, host.function? name = some function ∧ function.panics = false

theorem serve_eq_ok {host : Host} {due : List (String × Buffer)}
    (answers : ∀ call ∈ due, host.Answers call.1) : (host.serve due).1 = .ok () := by
  induction due with
  | nil => rfl
  | cons call rest ih =>
      obtain ⟨name, values⟩ := call
      obtain ⟨function, found, returns⟩ := answers _ List.mem_cons_self
      have others := ih fun other mem => answers other (List.mem_cons_of_mem _ mem)
      simp [Host.serve, found, returns, others]

/-- The host answers to the names of all sinks of a model. -/
def Host.Serves (host : Host) (model : Model) : Prop :=
  ∀ entry ∈ model.entries, ∀ type name size notifies,
    entry.node.operator = .sink type name size notifies → host.Answers name

/-- Only sinks call the host, under their names. -/
theorem Host.Serves.answers {host : Host} {model computed : Model} (serves : host.Serves model)
    (same : computed.skeleton = model.skeleton) :
    ∀ call ∈ computed.entries.flatMap computed.calls, host.Answers call.1 := by
  intro call mem
  obtain ⟨entry, entryMem, made⟩ := List.mem_flatMap.mp mem
  obtain ⟨twin, twinMem, _, node⟩ := Model.exists_of_skeleton_eq same.symm entryMem
  simp only [Model.calls] at made
  split at made
  · rename_i inputs _
    cases operator : entry.node.operator with
    | sink type name size notifies =>
        rw [operator] at made
        simp only [Operator.calls] at made
        split at made
        · split at made
          · obtain rfl := List.mem_singleton.mp made
            exact serves twin twinMem type name size notifies (node ▸ operator)
          · simp at made
        · simp at made
    | _ => simp [operator, Operator.calls] at made
  · simp at made

/-- A compiled model computes what the model computes.  For every model of standard nodes that the
operations of this library make, for all options and all requests for which it compiles, and for all
buffers that match the input parameters: if the host answers to the sinks, the compiled model
returns buffers that are the same as the requested outputs of the model with these buffers written
to its inputs.  Sums start with zero in the model and with their first element in the code, so a
first element has to stay the same when it is added to zero. -/
theorem compute_compiled {model : Model} (reachable : model.Reachable)
    (kinds : ∀ entry ∈ model.entries, entry.node.operator.kind?.isSome)
    {options : CompilerOptions} {requests : List Elements} {compiled : CompiledModel}
    (compiles : (model.compile options requests).result = .ok compiled) {inputs : List Buffer}
    (fits : Matches inputs (compiled.signature.inputs.map Prod.snd)) {host : Host}
    (serves : host.Serves model) :
    ∃ loaded, model.setInputs ((compiled.signature.inputs.map Prod.fst).zip inputs) = .ok loaded ∧
      (loaded.compute.model.Exact →
        ∃ results expected, (compiled.compute inputs host).result = .ok results ∧
          requests.mapM loaded.computeOutput = .ok expected ∧
          List.Forall₂ Buffer.Same results expected) := by
  have standard : model.Standard :=
    fun entry mem => (reachable.sound.made entry mem).standard (kinds entry mem)
  obtain ⟨loaded, expected, set, computed, same, follows⟩ :=
    follows_of_compile reachable.sound standard compiles fits
  refine ⟨loaded, set, fun exact => ?_⟩
  have answered := (follows exact host).result_eq.trans (serve_eq_ok (serves.answers same))
  obtain ⟨results, finished, _⟩ := map_eq_ok_iff.mp answered
  exact ⟨results, expected, finished, computed, (follows exact host).results_same results finished⟩

/-- A model that hands its input to a sink and sums what comes out of it. -/
def listener : Model where
  arena := ⟨#[
    some ⟨0, .input .f64 1, [.f64 #[0]]⟩,
    some ⟨1, .constant (.bool #[true]), [.bool #[false]]⟩,
    some ⟨2, ⟨.sink .f64 "heard" 1 false, [[⟨0, 0, 0⟩], [⟨1, 0, 0⟩]]⟩, [.f64 #[0]]⟩,
    some ⟨3, .sum .f64 [[⟨2, 0, 0⟩]], [.f64 #[0]]⟩]⟩
  order := [0, 1, 2, 3]
  keys := [(3, 3), (2, 2), (1, 1), (0, 0)]
  nextId := 4

theorem reachable_listener : listener.Reachable := by
  have first : Model.Reachable _ :=
    .add .empty (.inl (.input .f64 1)) (rfl : _ = Except.ok (0, _))
  have second : Model.Reachable _ :=
    first.add (.inl (standard_constant (.bool #[true]))) (rfl : _ = Except.ok (1, _))
  have third : Model.Reachable _ := second.add
    (.inl (.sink .f64 "heard" false [⟨0, 0, 0⟩] [⟨1, 0, 0⟩] rfl)) (rfl : _ = Except.ok (2, _))
  exact third.add (.inl (.sum .f64 [[⟨2, 0, 0⟩]])) (rfl : _ = Except.ok (3, _))

theorem exists_compiled_listener :
    ∃ compiled, (listener.compile {} [[⟨3, 0, 0⟩]]).result = .ok compiled ∧
      compiled.signature = ⟨"predict", [(0, ⟨"input_0", .f64, 1⟩)], [⟨"output_0", .f64, 1⟩]⟩ := by
  have succeeds : (listener.compile {} [[⟨3, 0, 0⟩]]).result.isOk = true := by cbv
  obtain ⟨compiled, compiles⟩ : ∃ compiled,
      (listener.compile {} [[⟨3, 0, 0⟩]]).result = .ok compiled := by
    cases result : (listener.compile {} [[⟨3, 0, 0⟩]]).result with
    | error error => simp [result, Except.isOk, Except.toBool] at succeeds
    | ok compiled => exact ⟨compiled, rfl⟩
  have signature : listener.checkedSignature {} [[⟨3, 0, 0⟩]] =
      .ok ⟨"predict", [(0, ⟨"input_0", .f64, 1⟩)], [⟨"output_0", .f64, 1⟩]⟩ := by cbv
  exact ⟨compiled, compiles, Except.ok.inj ((compile_eq_ok_iff.mp compiles).1.symm.trans signature)⟩

theorem compute_compiled_listener :
    ∃ compiled loaded results expected,
      (listener.compile {} [[⟨3, 0, 0⟩]]).result = .ok compiled ∧
      listener.setInputs [(0, .f64 #[1])] = .ok loaded ∧
      (compiled.compute [.f64 #[1]] ⟨[("heard", ⟨"heard", false⟩)]⟩).result = .ok results ∧
      [[⟨3, 0, 0⟩]].mapM loaded.computeOutput = .ok expected ∧
      List.Forall₂ Buffer.Same results expected := by
  obtain ⟨compiled, compiles, same⟩ := exists_compiled_listener
  have kinds : ∀ entry ∈ listener.entries, entry.node.operator.kind?.isSome := by decide
  have fits : Matches [.f64 #[1]] (compiled.signature.inputs.map Prod.snd) := by
    rw [same]
    exact .cons ⟨rfl, rfl⟩ .nil
  have serves : Host.Serves ⟨[("heard", ⟨"heard", false⟩)]⟩ listener := by
    intro entry mem type name size notifies operator
    fin_cases mem <;> cases operator
    exact ⟨_, rfl, rfl⟩
  obtain ⟨loaded, set, computed⟩ :=
    compute_compiled reachable_listener kinds compiles fits serves
  rw [same] at set
  obtain ⟨other, otherSet, exact⟩ : ∃ other,
      listener.setInputs [(0, .f64 #[1])] = .ok other ∧ other.compute.model.Exact :=
    ⟨_, rfl, by decide +kernel⟩
  obtain rfl := Except.ok.inj (set.symm.trans otherSet)
  obtain ⟨results, expected, rest⟩ := computed exact
  exact ⟨compiled, loaded, results, expected, compiles, set, rest⟩

end Dataflow
