import Dataflow.Proofs.Lowering.Outputs

/-!
# The entry routine

The entry routine starts with its inputs in the parameters, which is where the scope has the
input nodes.  The code of the nodes follows in creation order, then the requested elements are
copied to the output parameters.
-/

namespace Dataflow

/-! ## The nodes of a model -/

section Nodes

variable {model : Model} {options : CompilerOptions}

/-- Lowering nodes does not depend on what their buffers hold. -/
theorem lowerNodes_congr {entries others : List Entry}
    (same : entries.map (fun entry => (entry.id, entry.node)) =
      others.map fun entry => (entry.id, entry.node)) :
    lowerNodes options entries = lowerNodes options others := by
  induction entries generalizing others with
  | nil =>
      obtain rfl := List.map_eq_nil_iff.mp same.symm
      rfl
  | cons entry rest ih =>
      obtain ⟨other, others, rfl, first, rests⟩ := List.map_eq_cons_iff.mp same.symm
      obtain ⟨id, node⟩ := Prod.mk.inj first
      rw [lowerNodes, lowerNodes, id, node, ih rests.symm]

theorem lowerNodes_append (first second : List Entry) :
    lowerNodes options (first ++ second) =
      (lowerNodes options first >>= fun _ => lowerNodes options second) := by
  induction first with
  | nil => rfl
  | cons entry first ih => simp only [List.cons_append, lowerNodes, ih, bind_assoc]

/-- The induction is on the nodes that are left.  Lowering one of them does not bind the ports
of the others. -/
theorem transports_of_lowerNodes (wellFormed : model.WellFormed) (settled : model.Settled)
    (standard : model.Standard) (unambiguous : model.Unambiguous) {rest : List Entry}
    {before after : Builder × Lowering} {done : Unit} (subset : rest ⊆ model.entries)
    (distinct : (rest.map Entry.id).Nodup)
    (unbound : ∀ entry ∈ rest, entry.node.capabilities.input = false →
      before.2.scope.binding? ⟨entry.id, 0⟩ = none)
    (emitted : Succeeds (lowerNodes options rest) before done after) :
    Transports model (rest.flatMap model.calls) before after := by
  induction rest generalizing before with
  | nil =>
      obtain ⟨_, rfl⟩ := succeeds_pure_iff.mp emitted
      exact .refl _ _
  | cons entry rest ih =>
      simp only [lowerNodes, succeeds_bind_iff] at emitted
      obtain ⟨_, between, first, others⟩ := emitted
      obtain ⟨mem, subset⟩ := List.cons_subset.mp subset
      obtain ⟨fresh, distinct⟩ := List.nodup_cons.mp distinct
      have lowered := lowered_of_lowerNode wellFormed mem (settled entry mem) (standard entry mem)
        unambiguous (unbound entry List.mem_cons_self) first
      refine lowered.transports.trans (ih subset distinct (fun other otherMem inner => ?_) others)
      rw [lowered.others _ fun equal => fresh (equal ▸ List.mem_map_of_mem otherMem)]
      exact unbound other (List.mem_cons_of_mem _ otherMem) inner

end Nodes

/-! ## The parameters -/

/-- A port is bound to an input parameter, or as before. -/
theorem binding?_bindInputs {start : Nat} {inputs : List (NodeId × Parameter)} {scope : Scope}
    {port : OutputRef} {binding : PortBinding}
    (bound : (bindInputs start inputs scope).binding? port = some binding) :
    (∃ index id parameter, inputs[index]? = some (id, parameter) ∧ port = ⟨id, 0⟩ ∧
      binding = .array ⟨start + index, parameter.type, 0, parameter.length⟩) ∨
      scope.binding? port = some binding := by
  induction inputs generalizing start scope with
  | nil => exact .inr bound
  | cons input rest ih =>
      obtain ⟨id, parameter⟩ := input
      rcases ih bound with ⟨index, other, found, at_, rfl, rfl⟩ | earlier
      · exact .inl ⟨index + 1, other, found, at_, rfl, by rw [Nat.add_right_comm, Nat.add_assoc]⟩
      · by_cases same : port = ⟨id, 0⟩
        · subst same
          rw [Scope.bindArray, Scope.binding?_bind] at earlier
          exact .inl ⟨0, id, parameter, rfl, rfl, (Option.some.inj earlier).symm⟩
        · exact .inr (Scope.binding?_bind_of_ne _ _ same ▸ earlier)

/-- The scope has no place for a node that is not an input. -/
theorem binding?_bindInputs_of_inner {model : Model} {inputs : List (NodeId × Parameter)}
    (given : ∀ pair ∈ inputs, ∀ entry ∈ model.entries, entry.id = pair.1 →
      entry.node.capabilities.input = true) {entry : Entry} (mem : entry ∈ model.entries)
    (inner : entry.node.capabilities.input = false) :
    (bindInputs 0 inputs .empty).binding? ⟨entry.id, 0⟩ = none := by
  rw [Option.eq_none_iff_forall_ne_some]
  intro binding bound
  rcases binding?_bindInputs bound with ⟨index, id, parameter, found, port, _⟩ | impossible
  · have same : entry.id = id := congrArg OutputRef.node port
    rw [given _ (List.mem_of_getElem? found) entry mem same] at inner
    contradiction
  · contradiction

/-- Buffers have the types and lengths of parameters. -/
def Matches (arguments : List Buffer) (parameters : List Parameter) : Prop :=
  List.Forall₂ (fun (buffer : Buffer) (parameter : Parameter) =>
    buffer.type = parameter.type ∧ buffer.size = parameter.length) arguments parameters

/-! ## Entering -/

/-- The views of buffers that fill the heap. -/
def viewsOf (arguments : List Buffer) : List View :=
  arguments.mapIdx fun slot buffer => ⟨slot, 0, buffer.size⟩

section Entering

variable {name : String} {parameters : List Parameter} {builder : Builder} {code : List Instruction}
  {arguments : List Buffer} {program : Program} {host : Host} {depth : Nat}

/-- When the entry routine runs, each array is one whole buffer of the heap. -/
theorem views_entered (locals : List ArrayDeclaration) (array : ArrayId) :
    (viewsOf arguments ++ viewsFrom arguments.length locals).toArray[array]? =
      ((arguments.toArray ++ (locals.map ArrayDeclaration.contents).toArray)[array]?).map
        fun buffer => (⟨array, 0, buffer.size⟩ : View) := by
  rw [List.append_toArray, List.getElem?_toArray, List.getElem?_toArray]
  rcases Nat.lt_or_ge array arguments.length with inside | beyond
  · rw [List.getElem?_append_left (by simpa [viewsOf] using inside),
      List.getElem?_append_left inside, viewsOf, List.getElem?_mapIdx]
  · rw [List.getElem?_append_right (by simpa [viewsOf] using beyond),
      List.getElem?_append_right beyond, viewsOf, List.length_mapIdx, viewsFrom,
      List.getElem?_mapIdx, List.getElem?_map, Option.map_map]
    refine Option.map_congr fun declaration _ => ?_
    simp [Nat.add_sub_cancel' beyond]

/-- The machine on which the entry routine starts. -/
def Machine.entry (arguments : List Buffer) (routine : Routine) : Machine :=
  (Machine.start arguments).enter routine

theorem entry_getElem?_of_argument (routine : Routine) {index : Nat} {values : Buffer}
    (argument : arguments[index]? = some values) :
    (Machine.entry arguments routine).heap[index]? = some values := by
  obtain ⟨bound, _⟩ := List.getElem?_eq_some_iff.mp argument
  simp only [Machine.entry, Machine.enter, Machine.start]
  rw [Array.getElem?_append_left (by simpa using bound), List.getElem?_toArray, argument]

theorem plain_entered (locals : List ArrayDeclaration) :
    Plain (viewsOf arguments ++ viewsFrom arguments.length locals).toArray := by
  intro array view viewed
  rw [views_entered, Option.map_eq_some_iff] at viewed
  obtain ⟨_, _, rfl⟩ := viewed
  exact ⟨rfl, rfl⟩

/-- The arrays of a routine that starts with its parameters, as buffers of the heap. -/
theorem heap_entered (grows : (Builder.start name parameters).Grows code builder)
    (fits : Matches arguments parameters) {array : ArrayId} {declaration : ArrayDeclaration}
    (declared : builder.arrays[array]? = some declaration) :
    ∃ buffer, (Machine.entry arguments builder.finish).heap[array]? = some buffer ∧
      buffer.type = declaration.type ∧ buffer.size = declaration.length ∧
      (parameters.length ≤ array → buffer = declaration.contents) := by
  obtain ⟨locals, arrays⟩ := grows.arrays_prefix
  have same : builder.parameters = parameters := grows.parameters_eq
  have localsEq : builder.finish.locals = locals := by
    simp [Routine.locals, Builder.finish, ← arrays, same, Builder.start]
  have heap : (Machine.entry arguments builder.finish).heap =
      arguments.toArray ++ (locals.map ArrayDeclaration.contents).toArray := by
    simp [Machine.entry, Machine.enter, Machine.start, localsEq]
  rw [← Array.getElem?_toList, ← arrays] at declared
  rw [heap, List.append_toArray, List.getElem?_toArray]
  have length : arguments.length = parameters.length := fits.length_eq
  rcases Nat.lt_or_ge array parameters.length with inside | beyond
  · rw [List.getElem?_append_left (by simpa [Builder.start] using inside)] at declared
    rw [List.getElem?_append_left (length ▸ inside)]
    simp only [Builder.start, List.getElem?_map, Option.map_eq_some_iff] at declared
    obtain ⟨parameter, found, rfl⟩ := declared
    obtain ⟨buffer, bufferAt, typed, sized⟩ := exists_getElem?_right fits found
    exact ⟨buffer, bufferAt, typed, sized, fun above => absurd inside (Nat.not_lt.mpr above)⟩
  · rw [List.getElem?_append_right (by simpa [Builder.start] using beyond)] at declared
    rw [List.getElem?_append_right (length ▸ beyond), List.getElem?_map]
    simp only [Builder.start, List.length_map] at declared
    exact ⟨declaration.contents, by simp [length, declared], declaration.type_contents,
      declaration.size_contents, fun _ => rfl⟩

/-- The machine on which a routine starts is ready for it. -/
theorem ready_entered (grows : (Builder.start name parameters).Grows code builder)
    (fits : Matches arguments parameters) :
    builder.Ready (viewsOf arguments ++ viewsFrom arguments.length builder.finish.locals).toArray
      (Machine.entry arguments builder.finish) where
  values := by simp [Machine.entry, Machine.enter, Builder.finish]
  arrays array declaration declared := by
    obtain ⟨buffer, stored, typed, sized, _⟩ := heap_entered grows fits declared
    refine ⟨array, ⟨array, 0, buffer.size⟩, buffer, ?_, rfl, sized, stored, typed, ?_⟩
    · rw [views_entered, Option.map_eq_some_iff]
      exact ⟨buffer, stored, rfl⟩
    · simp

/-- The slots of the output parameters. -/
def OutputSlot (inputs : List (NodeId × Parameter)) (parameters : List Parameter) (slot : Nat) :
    Prop :=
  inputs.length ≤ slot ∧ slot < parameters.length

/-- When the entry routine starts, the scope has the input nodes where their buffers are. -/
theorem carries_entered {model : Model} {inputs : List (NodeId × Parameter)}
    {outputs : List Parameter}
    (grows : (Builder.start name (inputs.map Prod.snd ++ outputs)).Grows code builder)
    (fits : Matches arguments (inputs.map Prod.snd ++ outputs))
    (given : ∀ (index : Nat) (id : NodeId) (parameter : Parameter), inputs[index]? = some (id, parameter) →
      ∃ values : Buffer, arguments[index]? = some values ∧
        ∀ coordinate scalar, coordinate.output = ⟨id, 0⟩ →
          values.get? coordinate.element = some scalar → model.value coordinate = .ok scalar) :
    Carries model builder (OutputSlot inputs (inputs.map Prod.snd ++ outputs))
      (viewsOf arguments ++ viewsFrom arguments.length builder.finish.locals).toArray
      (inputs.map Prod.snd ++ outputs).length (bindInputs 0 inputs .empty)
      (Machine.entry arguments builder.finish) where
  ready := ready_entered grows fits
  whole array declaration declared := by
    obtain ⟨buffer, stored, typed, sized, _⟩ := heap_entered grows fits declared
    exact ⟨buffer, stored, typed, sized⟩
  pristine array declaration declared above := by
    obtain ⟨buffer, stored, _, _, local_⟩ := heap_entered grows fits declared
    rw [stored, local_ above]
  places coordinate location located := by
    rw [Scope.locate] at located
    cases bound : (bindInputs 0 inputs .empty).binding? coordinate.output with
    | none => simp [bound] at located
    | some binding =>
        simp only [bound] at located
        rcases binding?_bindInputs bound with ⟨index, id, parameter, found, output, rfl⟩ | impossible
        · simp only [PortBinding.locate] at located
          split at located
          · rename_i inside
            obtain rfl := Except.ok.inj located
            obtain ⟨values, argument, computed⟩ := given index id parameter found
            have listed : (inputs.map Prod.snd ++ outputs)[index]? = some parameter := by
              obtain ⟨bound, _⟩ := List.getElem?_eq_some_iff.mp found
              rw [List.getElem?_append_left (by simpa using bound), List.getElem?_map, found]
              rfl
            obtain ⟨buffer, bufferAt, _, sized⟩ := exists_getElem?_right fits listed
            obtain rfl := Option.some.inj (argument.symm.trans bufferAt)
            have stored := entry_getElem?_of_argument builder.finish argument
            have got := Buffer.get?_eq_item (sized ▸ inside)
            refine ⟨_, computed coordinate _ output got, ⟨index, 0, values.size⟩, values, _, ?_, ?_, ?_,
              stored, ?_, .refl _⟩
            · rw [Nat.zero_add, views_entered, Option.map_eq_some_iff]
              exact ⟨values, stored, rfl⟩
            · simpa [Location.absolute, sized] using inside
            · obtain ⟨bound, _⟩ := List.getElem?_eq_some_iff.mp found
              obtain ⟨inParameters, _⟩ := List.getElem?_eq_some_iff.mp listed
              exact ⟨inParameters, fun held => absurd bound (Nat.not_lt.mpr held.1)⟩
            · simpa [Location.absolute] using got
          · contradiction
        · contradiction

end Entering

/-! ## Running -/

section Running

variable {program : Program} {host : Host} {name : String} {arguments : List Buffer}

/-- Buffers that match the parameters of a routine are accepted. -/
theorem accepts_of_matches {routine : Routine} (fits : Matches arguments routine.parameters) :
    routine.Accepts (Machine.start arguments) (viewsOf arguments) := by
  rw [Routine.Accepts, List.forall₂_iff_get]
  refine ⟨by simpa [viewsOf] using fits.length_eq.symm, fun index before after => ?_⟩
  have bound : index < arguments.length := by simpa [viewsOf] using after
  obtain ⟨typed, sized⟩ := fits.get bound before
  simp only [List.get_eq_getElem] at typed sized
  simp [viewsOf, Machine.start, typed, sized, bound]

/-- A run is a call with views of the buffers. -/
theorem Program.run_eq_call :
    program.run host name arguments =
      let ran := outcome (program.call host (maxCallDepth + 1) name (viewsOf arguments))
        (.start arguments)
      ⟨ran.1.map fun _ => ran.2.heap.toList.take arguments.length, ran.2.calls.toList⟩ :=
  rfl

/-- A run is the run of the body of the routine, on the buffers themselves. -/
theorem run_eq {routine : Routine} (found : program.routine? name = some routine)
    (fits : Matches arguments routine.parameters) {result : Except RunError Unit} {after : Machine}
    (ran : outcome ((program.activation host maxCallDepth routine (viewsOf arguments)
      arguments.length).executeBody routine.body) (Machine.entry arguments routine) =
        (result, after)) :
    program.run host name arguments =
      ⟨result.map fun _ => after.heap.toList.take arguments.length, after.calls.toList⟩ := by
  have size : (Machine.start arguments).heap.size = arguments.length := by simp [Machine.start]
  have called : outcome (program.call host (maxCallDepth + 1) name (viewsOf arguments))
      (.start arguments) = (result, after.leave (.start arguments)) := by
    rw [Machine.entry] at ran
    rw [Program.outcome_call found (accepts_of_matches fits), size, ran]
  have kept : (after.leave (.start arguments)).heap.toList.take arguments.length =
      after.heap.toList.take arguments.length := by
    simp [Machine.leave, size, List.take_take]
  rw [Program.run_eq_call, called]
  simp only [kept]
  rfl

end Running

/-! ## The whole routine -/

section Routine

variable {computed : Model} {options : CompilerOptions} {signature : Signature}
  {requests : List Elements} {builder : Builder} {lowering : Lowering} {done : Unit}

theorem transports_of_entry (wellFormed : computed.WellFormed) (settled : computed.Settled)
    (standard : computed.Standard) (unambiguous : computed.Unambiguous)
    (inputs : ∀ pair ∈ signature.inputs, ∀ entry ∈ computed.entries, entry.id = pair.1 →
      entry.node.capabilities.input = true)
    (lengths : List.Forall₂ (fun (parameter : Parameter) (elements : Elements) =>
      parameter.length = elements.length) signature.outputs requests)
    (emitted : Succeeds (lowerEntry computed options signature requests)
      (.start signature.routine signature.parameters, .start) done (builder, lowering)) :
    ∃ code, (Builder.start signature.routine signature.parameters).Grows code builder ∧
      ∀ {program : Program} {host : Host} {arguments expected : List Buffer},
        lowering.program.Extends program → Matches arguments signature.parameters →
        (∀ (index : Nat) (id : NodeId) (parameter : Parameter),
          signature.inputs[index]? = some (id, parameter) →
            ∃ values : Buffer, arguments[index]? = some values ∧
              ∀ coordinate scalar, coordinate.output = ⟨id, 0⟩ →
                values.get? coordinate.element = some scalar →
                computed.value coordinate = .ok scalar) →
        List.Forall₂ (fun request values => computed.gather request.2 request.1.type = .ok values)
          (signature.outputs.zip requests) expected →
        (program.activation host maxCallDepth builder.finish (viewsOf arguments)
            arguments.length).Delivers code (computed.entries.flatMap computed.calls)
          (Machine.entry arguments builder.finish) fun later =>
            Whole builder later.heap ∧
              ShowsOutputs
                (viewsOf arguments ++ viewsFrom arguments.length builder.finish.locals).toArray
                later.heap signature.inputs.length signature.outputs expected := by
  simp only [lowerEntry, succeeds_bind_iff, Lower.succeeds_setScope_iff] at emitted
  obtain ⟨_, _, rfl, _, between, lowered, copied⟩ := emitted
  obtain ⟨extended, code, grows, delivers⟩ := transports_of_lowerNodes wellFormed settled standard
    unambiguous (List.Subset.refl _) wellFormed.ids_nodup
    (fun entry mem inner => binding?_bindInputs_of_inner inputs mem inner) lowered
  have zipped : ∀ request ∈ signature.outputs.zip requests, request.1.length = request.2.length :=
    fun request mem => (List.forall₂_iff_zip.mp lengths).2 mem
  obtain ⟨own, arrays, copies, copyGrows, copyReaches⟩ := of_copyOutputs copied zipped
  refine ⟨code ++ copies, grows.trans copyGrows, ?_⟩
  intro program host arguments expected extending fits given gathered
  have size : (Builder.start signature.routine signature.parameters).arrays.size =
      signature.parameters.length := by simp [Builder.start]
  have plain : Plain
      (viewsOf arguments ++ viewsFrom arguments.length builder.finish.locals).toArray :=
    plain_entered _
  have start : Carries computed builder (OutputSlot signature.inputs signature.parameters)
      (viewsOf arguments ++ viewsFrom arguments.length builder.finish.locals).toArray
      (Builder.start signature.routine signature.parameters).arrays.size
      (bindInputs 0 signature.inputs .empty) (Machine.entry arguments builder.finish) := by
    rw [size]
    exact carries_entered (grows.trans copyGrows) fits given
  have below : ∀ slot, OutputSlot signature.inputs signature.parameters slot →
      slot < (Builder.start signature.routine signature.parameters).arrays.size :=
    fun slot held => size ▸ held.2
  have ran : (program.activation host maxCallDepth builder.finish (viewsOf arguments)
      arguments.length).Delivers code (computed.entries.flatMap computed.calls)
      (Machine.entry arguments builder.finish)
      (Carries computed builder (OutputSlot signature.inputs signature.parameters)
        (viewsOf arguments ++ viewsFrom arguments.length builder.finish.locals).toArray
        between.1.arrays.size between.2.scope) :=
    delivers rfl (own ▸ extending) copyGrows plain below start
  have count : (signature.outputs.zip requests).length = signature.outputs.length := by
    simp [lengths.length_eq]
  have parameters : (signature.outputs.zip requests).map Prod.fst = signature.outputs :=
    List.map_fst_zip (Nat.le_of_eq lengths.length_eq)
  have held : ∀ slot, signature.inputs.length ≤ slot →
      slot < signature.inputs.length + (signature.outputs.zip requests).length →
      OutputSlot signature.inputs signature.parameters slot := by
    intro slot above inside
    refine ⟨above, ?_⟩
    rw [Signature.parameters, List.length_append, List.length_map]
    omega
  have copiesRun : ∀ middle, Carries computed builder
      (OutputSlot signature.inputs signature.parameters)
      (viewsOf arguments ++ viewsFrom arguments.length builder.finish.locals).toArray
      between.1.arrays.size between.2.scope middle →
      (program.activation host maxCallDepth builder.finish (viewsOf arguments)
        arguments.length).Delivers copies [] middle fun later => Whole builder later.heap ∧
          ShowsOutputs
            (viewsOf arguments ++ viewsFrom arguments.length builder.finish.locals).toArray
            later.heap signature.inputs.length signature.outputs expected := by
    intro middle carried
    have reaches : (program.activation host maxCallDepth builder.finish (viewsOf arguments)
        arguments.length).Reaches copies between.1.valueTypes.size (fun slot =>
          slot < signature.inputs.length ∨
            signature.inputs.length + (signature.outputs.zip requests).length ≤ slot) middle
        fun later => ShowsOutputs
          (viewsOf arguments ++ viewsFrom arguments.length builder.finish.locals).toArray
          later.heap signature.inputs.length ((signature.outputs.zip requests).map Prod.fst)
          expected :=
      copyReaches (.refl _) plain
        (fun slot held => Nat.lt_of_lt_of_le (below slot held) grows.arrays_le) held carried gathered
    rw [parameters] at reaches
    exact (reaches.mono (Nat.le_refl _) (fun _ kept => kept) fun later frame shows =>
      (⟨carried.whole.frame frame, shows⟩ : Whole builder later.heap ∧ _)).delivers
  have total := ran.append copiesRun
  rwa [List.append_nil] at total

/-- An output parameter that shows a buffer is that buffer. -/
theorem same_of_shows {views : Array View} {heap : Array Buffer} {slot : Nat} {parameter : Parameter}
    {stored values : Buffer} (plain : Plain views)
    (shows : (outputWindow slot parameter).ShowsBuffer views heap (· = slot) values)
    (found : heap[slot]? = some stored) (typed : stored.type = parameter.type)
    (sized : stored.size = parameter.length) : stored.Same values := by
  refine Buffer.same_iff_get?.mpr
    ⟨typed.trans shows.type_eq, sized.trans shows.length_eq, fun index left right leftAt rightAt => ?_⟩
  obtain ⟨view, buffer, scalar, viewed, _, own, bufferAt, got, same⟩ := shows.holds index right rightAt
  obtain ⟨_, offset⟩ := plain _ view viewed
  obtain rfl := Option.some.inj (found.symm.trans (own ▸ bufferAt))
  rw [offset, outputWindow, Nat.zero_add, Nat.zero_add, leftAt] at got
  exact Option.some.inj got ▸ same

/-- When the entry routine is done, the output parameters are what was requested. -/
theorem same_outputs {code : List Instruction} {heap : Array Buffer} {arguments expected : List Buffer}
    (grows : (Builder.start signature.routine signature.parameters).Grows code builder)
    (whole : Whole builder heap)
    (shows : ShowsOutputs
      (viewsOf arguments ++ viewsFrom arguments.length builder.finish.locals).toArray heap
      signature.inputs.length signature.outputs expected)
    (length : signature.outputs.length = expected.length) :
    List.Forall₂ Buffer.Same
      ((heap.toList.take signature.parameters.length).drop signature.inputs.length) expected := by
  have parameter : ∀ index parameter, signature.outputs[index]? = some parameter →
      ∃ stored, heap[signature.inputs.length + index]? = some stored ∧
        stored.type = parameter.type ∧ stored.size = parameter.length := by
    intro index parameter found
    have declared : builder.arrays[signature.inputs.length + index]? =
        some (.parameter parameter.type parameter.length) := by
      have listed : signature.parameters[signature.inputs.length + index]? = some parameter := by
        rw [Signature.parameters, List.getElem?_append_right (by simp)]
        simpa using found
      obtain ⟨bound, _⟩ := List.getElem?_eq_some_iff.mp listed
      rw [grows.getElem?_arrays (by simpa [Builder.start] using bound)]
      simp [Builder.start, listed]
    exact whole _ _ declared
  have total : signature.parameters.length = signature.inputs.length + signature.outputs.length := by
    simp [Signature.parameters]
  have room : signature.parameters.length ≤ heap.size := by
    have start : (Builder.start signature.routine signature.parameters).arrays.size =
        signature.parameters.length := by simp [Builder.start]
    exact start ▸ Nat.le_trans grows.arrays_le whole.size_le
  refine List.forall₂_iff_get.mpr ⟨?_, fun index before after => ?_⟩
  · simp only [List.length_drop, List.length_take, Array.length_toList]
    omega
  · have below : index < signature.outputs.length := length ▸ after
    obtain ⟨stored, found, typed, sized⟩ :=
      parameter index _ (List.getElem?_eq_getElem below)
    have shown := shows index _ _ (List.getElem?_eq_getElem below) (List.getElem?_eq_getElem after)
    have same := same_of_shows (plain_entered _) shown found typed sized
    obtain ⟨bound, rfl⟩ := Array.getElem?_eq_some_iff.mp found
    simpa using same

end Routine

end Dataflow
