import Dataflow.Proofs.Lowering.SettlingEntry

/-!
# Single assignment

A run of the entry routine of a compiled model writes no input parameter and no constant, writes each
cell of the other arrays at most once, and reads nothing that was not given or written before.  So the
place of a coordinate, once it is in the scope, holds the same value for the rest of the run, and
another name for places is as good as a copy of them.
-/

namespace Dataflow

/-! ## Copying the requested elements -/

section Copying

variable {options : CompilerOptions} {before after : Builder × Lowering} {done : Unit}
  {around : Surroundings} {settled : Set Cell}

/-- Requested elements are settled in an output parameter that is as long. -/
theorem settles_copyOutput {elements : Elements} {target : ArrayRef}
    (emitted : Succeeds (copyOutput options elements target) before done after)
    (offers : before.2.scope.Offers around settled elements)
    (free : ∀ element, around.cell target element ∉ settled) :
    before.1.Settles around [] settled after.1 (settled ∪ around.part target elements.length) := by
  simp only [copyOutput, succeeds_bind_iff, Lower.succeeds_scope_iff, Emit.succeeds_check_iff]
    at emitted
  obtain ⟨_, _, ⟨rfl, rfl⟩, covered, before, ⟨covers, rfl⟩, rest⟩ := emitted
  split at rest
  · rename_i source _
    obtain ⟨_, sourceLength, _⟩ := Scope.shows_of_contiguous covers
    have read := Scope.settled_of_contiguous covers offers
    rw [sourceLength] at read
    refine Emit.settles_fillLoop rest fun {inner} ran => ?_
    simp only [succeeds_bind_iff] at ran
    obtain ⟨value, one, loaded, stored⟩ := ran
    have turn : ∀ index < elements.length, (before.1.withValue .index).openBlock.Settles around
        [(before.1.valueTypes.size, index)] (settled ∪ around.part target index) inner.1
          (settled ∪ around.part target (index + 1)) := by
      intro index below
      have names : Index.Names [(before.1.valueTypes.size, index)] index
          (.value before.1.valueTypes.size) := List.mem_cons_self
      exact (Emit.settles_load loaded names (.inl (read index below))).trans
        (Emit.settles_storeNext stored names (free index))
    obtain ⟨_, _, _, rfl⟩ := Emit.of_load loaded
    obtain ⟨_, _, _, rfl⟩ := Emit.of_store stored
    exact ⟨⟨_, (Builder.Grows.define _ _ _).trans (.push _ _)⟩, turn⟩
  · have copies : before.1.Settles around [] (settled ∪ around.part target 0) after.1
        (settled ∪ around.part target (0 + elements.length)) :=
      Scope.settles_copyElements rest offers fun element _ => free element
    rwa [Surroundings.part_zero, Set.union_empty, Nat.zero_add] at copies

/-- The requested elements are settled in the output parameters, one after another. -/
theorem settles_copyOutputs {index : Nat} {requests : List (Parameter × Elements)}
    (emitted : Succeeds (copyOutputs options index requests) before done after)
    (lengths : ∀ request ∈ requests, request.1.length = request.2.length) (plain : around.Plain)
    (places : ∀ coordinate location, before.2.scope.locate coordinate = .ok location →
      around.place location ∈ settled)
    (free : ∀ cell ∈ settled, ¬(index ≤ cell.slot ∧ cell.slot < index + requests.length)) :
    ∃ later, before.1.Settles around [] settled after.1 later := by
  induction requests generalizing before index settled with
  | nil =>
      obtain ⟨_, rfl⟩ := succeeds_pure_iff.mp emitted
      exact ⟨settled, .refl _ _⟩
  | cons request requests ih =>
      simp only [copyOutputs, succeeds_bind_iff] at emitted
      obtain ⟨_, between, copied, others⟩ := emitted
      obtain ⟨here, elsewhere⟩ := List.forall_mem_cons.mp lengths
      rw [List.length_cons] at free
      have slot : ∀ element, (around.cell ⟨index, request.1.type, 0, request.1.length⟩ element).slot =
          index := by simp [Surroundings.cell, plain _]
      have first : before.1.Settles around [] settled between.1
          (settled ∪ around.part ⟨index, request.1.type, 0, request.1.length⟩ request.2.length) :=
        settles_copyOutput copied (fun coordinate _ => places coordinate)
          fun element mem => free _ mem (by rw [slot]; omega)
      obtain ⟨sameOwn, _⟩ := of_copyOutput copied here
      have freeLater : ∀ cell ∈ settled ∪
          around.part ⟨index, request.1.type, 0, request.1.length⟩ request.2.length,
          ¬(index + 1 ≤ cell.slot ∧ cell.slot < index + 1 + requests.length) := by
        rintro cell (mem | ⟨element, _, rfl⟩)
        · have := free cell mem
          omega
        · rw [slot]
          omega
      obtain ⟨later, rest⟩ := ih others elsewhere
        (fun coordinate location located => .inl (places coordinate location (sameOwn ▸ located)))
        freeLater
      exact ⟨later, first.trans rest⟩

end Copying

/-! ## The whole routine -/

/-- The cells that an entry routine is given: those of its input parameters and of its constants. -/
def Routine.given (routine : Routine) (inputs : Nat) : Set Cell :=
  {cell | cell.slot < inputs ∨ ∃ values, routine.arrays[cell.slot]? = some (.constant values)}

section Routine

variable {model : Model} {options : CompilerOptions} {signature : Signature}
  {requests : List Elements} {builder : Builder} {lowering : Lowering} {done : Unit}
  {code : List Instruction}

/-- The first stage: the entry routine is given its inputs and its constants. -/
theorem stage_entered {around : Surroundings} (plain : around.Plain)
    (grows : (Builder.start signature.routine signature.parameters).Grows code builder) :
    Stage around (OutputSlot signature.inputs signature.parameters) builder
      (builder.finish.given signature.inputs.length)
      (.start signature.routine signature.parameters) (bindInputs 0 signature.inputs .empty) := by
  have size : (Builder.start signature.routine signature.parameters).arrays.size =
      signature.parameters.length := by simp [Builder.start]
  have inputs : signature.inputs.length ≤ signature.parameters.length := by
    simp [Signature.parameters]
  refine ⟨fun slot held => size ▸ held.2, ?_, ?_, fun cell values found => .inr ⟨values, found⟩, ?_⟩
  · rintro cell (input | ⟨values, constant⟩) ⟨above, type, length, scratch⟩
    · omega
    · have found : builder.arrays[cell.slot]? = some (.constant values) := constant
      simp [scratch] at found
  · rintro cell (input | ⟨values, constant⟩) held
    · exact Nat.not_le.mpr input held.1
    · have found : builder.arrays[cell.slot]? = some (.constant values) := constant
      rw [grows.getElem?_arrays (size ▸ held.2)] at found
      simp [Builder.start, List.getElem?_eq_getElem held.2] at found
  · intro coordinate location located
    simp only [Scope.locate] at located
    split at located
    · rename_i binding bound
      rcases binding?_bindInputs bound with ⟨index, id, parameter, listed, _, rfl⟩ | nothing
      · simp only [PortBinding.locate] at located
        split at located
        · obtain rfl := Except.ok.inj located
          refine .inl ?_
          rw [Surroundings.place, Surroundings.cell, plain, Cell.slot_shift, Nat.zero_add]
          exact (List.getElem?_eq_some_iff.mp listed).1
        · contradiction
      · simp [Scope.binding?, Scope.empty] at nothing
    · contradiction

/-- The code of the entry routine settles cells.  Where it has come through some of the nodes, the
places of the scope are settled. -/
theorem settles_of_lowerEntry (wellFormed : model.WellFormed) (standard : model.Standard)
    (inputs : ∀ pair ∈ signature.inputs, ∀ entry ∈ model.entries, entry.id = pair.1 →
      entry.node.capabilities.input = true)
    (lengths : ∀ request ∈ signature.outputs.zip requests, request.1.length = request.2.length)
    (emitted : Succeeds (lowerEntry model options signature requests)
      (.start signature.routine signature.parameters, .start) done (builder, lowering))
    {program : Program} (extended : lowering.program.Extends program) {finished rest : List Entry}
    (split : model.entries = finished ++ rest) :
    ∃ between others middle later,
      Succeeds (lowerNodes options finished)
        (.start signature.routine signature.parameters,
          { Lowering.start with scope := bindInputs 0 signature.inputs .empty }) () between ∧
      (Builder.start signature.routine signature.parameters).Grows
        (between.1.block.toList ++ others) builder ∧
      program.around.Settles [] (builder.finish.given signature.inputs.length)
        between.1.block.toList middle ∧
      program.around.Settles [] middle others later ∧ between.2.scope.Renames finished ∧
      ∀ coordinate location, between.2.scope.locate coordinate = .ok location →
        location.cell ∈ middle := by
  simp only [lowerEntry, succeeds_bind_iff, Lower.succeeds_setScope_iff] at emitted
  obtain ⟨_, _, rfl, _, last, nodes, copied⟩ := emitted
  obtain ⟨between, first, firstExtended, ⟨_, firstGrows⟩, ⟨_, restGrows⟩, firstAdvances,
    restAdvances, renames⟩ := exists_between wellFormed standard
      (fun entry mem inner => binding?_bindInputs_of_inner inputs mem inner) nodes split
  obtain ⟨own, _, _, copyGrows, _⟩ := of_copyOutputs copied lengths
  rw [← own] at firstExtended
  -- the routine from its beginning, from between the nodes and from after them to its end
  have entered := stage_entered program.plain_around (firstGrows.trans (restGrows.trans copyGrows))
  obtain ⟨middle, ⟨code, grows, settles⟩, staged⟩ :=
    firstAdvances (firstExtended.trans extended) (restGrows.trans copyGrows) entered
  obtain ⟨reached, restSettles, ended⟩ := restAdvances (own ▸ extended) copyGrows staged
  have free : ∀ cell ∈ reached, ¬(signature.inputs.length ≤ cell.slot ∧
      cell.slot < signature.inputs.length + (signature.outputs.zip requests).length) := by
    intro cell mem inside
    refine ended.unreserved cell mem ⟨inside.1, ?_⟩
    simp only [Signature.parameters, List.length_append, List.length_map, List.length_zip] at inside ⊢
    omega
  obtain ⟨later, copySettles⟩ :=
    settles_copyOutputs copied lengths program.plain_around ended.places free
  obtain ⟨others, othersGrows, othersSettle⟩ := restSettles.trans copySettles
  obtain rfl : between.1.block.toList = code := by simpa [Builder.start] using grows.block_eq
  exact ⟨between, others, middle, later, first, grows.trans othersGrows,
    settles (by simp), othersSettle (by simp), renames,
    fun coordinate location located =>
      program.place_around location ▸ staged.places coordinate location located⟩

end Routine

/-! ## Runs -/

/-- What runs when the entry routine of a program is run on buffers. -/
def Program.entered (program : Program) (host : Host) (routine : Routine) (arguments : List Buffer) :
    Observed :=
  program.observed host maxCallDepth routine (viewsOf arguments) arguments.length
    (program.moments host maxCallDepth)

section Runs

variable {program : Program} {host : Host} {name : String} {routine : Routine}
  {arguments : List Buffer}

/-- The moments of a run are those of the body of the routine. -/
theorem Program.runMoments_eq (found : program.routine? name = some routine)
    (fits : Matches arguments routine.parameters) :
    program.runMoments host name arguments =
      (program.entered host routine arguments).moments routine.body
        (Machine.entry arguments routine) := by
  have size : (Machine.start arguments).heap.size = arguments.length := by simp [Machine.start]
  have checked : outcome (checkArguments routine (viewsOf arguments)) (.start arguments) = _ :=
    (accepts_of_matches fits).succeeds_checkArguments
  change program.moments host (maxCallDepth + 1) name (viewsOf arguments) (.start arguments) = _
  simp only [Program.moments, found, momentsAfter, checked, size]
  rfl

/-- Each array of the entry routine lies in the slot with its number. -/
theorem Program.plain_views_entered :
    Plain (program.entered host routine arguments).views :=
  plain_entered routine.locals

theorem Program.shows_entered :
    program.around.Shows (program.entered host routine arguments).views := by
  intro array view viewed
  obtain ⟨slot, offset⟩ := plain_views_entered array view viewed
  rw [View.origin, slot, offset]
  rfl

theorem Program.heeds_entered : (program.entered host routine arguments).Heeds program.around :=
  fun _ _ _ _ settles before => program.accounts_call settles before

/-- Code of the entry routine that settles cells accounts for the memory. -/
theorem Surroundings.Settles.accounts_entered {settled later : Set Cell} {code : List Instruction}
    (settles : program.around.Settles [] settled code later) (host : Host) (routine : Routine)
    (arguments : List Buffer) (machine : Machine) :
    Accounts ((program.entered host routine arguments).executeBody code)
      ((program.entered host routine arguments).moments code machine) machine settled later
      (machine.Stays []) :=
  settles.accounts Program.shows_entered Program.heeds_entered (by simp [Machine.Counts])

end Runs

/-! ## Single assignment -/

/-- Places that a scope has for coordinates, whether in an array of their own or under another name, are
filled when a run comes to a machine, and hold the same for the rest of the run. -/
structure Scope.Steady (scope : Scope) (given : Set Cell) (earlier : List Moment) (machine : Machine)
    (later : List Moment) : Prop where
  filled : ∀ coordinate location, scope.locate coordinate = .ok location →
    location.cell ∈ given ∨ .write location.cell ∈ accessesOf earlier
  still : ∀ coordinate location, scope.locate coordinate = .ok location →
    ∀ moment ∈ later, moment.machine.holds location.cell = machine.holds location.cell

/-- What a run of the entry routine of a compiled model does to the memory. -/
structure CompiledModel.AssignsOnce (compiled : CompiledModel) (model : Model)
    (options : CompilerOptions) (host : Host) (arguments : List Buffer) (routine : Routine) : Prop where
  found : compiled.program.routine? compiled.signature.routine = some routine
  /-- The cells of an array are those of the slot with its number. -/
  plain : Plain (compiled.program.entered host routine arguments).views
  /-- Inputs and constants are not written, other cells are written once, and only what was written
  is read. -/
  single : SingleAssignment (routine.given compiled.signature.inputs.length)
    (compiled.program.runMoments host compiled.signature.routine arguments)
  /-- The concatenations and sinks among the first nodes are other names for places of their inputs,
  and when the code of these nodes has run to its end, every place of the scope is steady. -/
  steady : ∀ finished rest, model.entries = finished ++ rest → ∃ between others,
    Succeeds (lowerNodes options finished)
      (.start compiled.signature.routine compiled.signature.parameters,
        { Lowering.start with scope := bindInputs 0 compiled.signature.inputs .empty }) () between ∧
    between.2.scope.Renames finished ∧ routine.body = between.1.block.toList ++ others ∧
    ∀ after, Succeeds
        ((compiled.program.entered host routine arguments).executeBody between.1.block.toList)
        (Machine.entry arguments routine) () after →
      ∃ earlier,
        compiled.program.runMoments host compiled.signature.routine arguments =
          earlier ++ (compiled.program.entered host routine arguments).moments others after ∧
        between.2.scope.Steady (routine.given compiled.signature.inputs.length) earlier after
          ((compiled.program.entered host routine arguments).moments others after)

/-- In a run that assigns each cell once, places that are filled stay as they are. -/
theorem SingleAssignment.steady {given : Set Cell} {earlier : List Moment} {observed : Observed}
    {others : List Instruction} {after : Machine} {scope : Scope}
    (single : SingleAssignment given (earlier ++ observed.moments others after))
    (filled : ∀ coordinate location, scope.locate coordinate = .ok location →
      location.cell ∈ given ∨ .write location.cell ∈ accessesOf earlier) :
    scope.Steady given earlier after (observed.moments others after) := by
  refine ⟨filled, fun coordinate location located moment mem => ?_⟩
  obtain ⟨later, moments⟩ := observed.exists_moments_eq_cons others after
  rw [moments] at single mem
  rcases List.mem_cons.mp mem with rfl | further
  · rfl
  · exact single.stable earlier later _ rfl _ (filled coordinate location located) moment further

/-- For every model of standard nodes that the operations of this library make, for all options and
requests for which it compiles, for every host and for all buffers that match the parameters: along the
run of the entry routine, whether it fails or not, input parameters and constants are never written,
every element of the other arrays is written at most once, and every element that is read was written
before.  When the code of a node has run, the places of its elements are filled and do not change any
more, so a concatenation or a sink can be another name for the places of its inputs. -/
theorem exists_assignsOnce {model : Model} (reachable : model.Reachable)
    (kinds : ∀ entry ∈ model.entries, entry.node.operator.kind?.isSome)
    {options : CompilerOptions} {requests : List Elements} {compiled : CompiledModel}
    (compiles : (model.compile options requests).result = .ok compiled) {arguments : List Buffer}
    (fits : Matches arguments compiled.signature.parameters) (host : Host) :
    ∃ routine, compiled.AssignsOnce model options host arguments routine := by
  have standard : model.Standard :=
    fun entry mem => (reachable.sound.made entry mem).standard (kinds entry mem)
  have wellFormed := reachable.sound.wellFormed
  obtain ⟨checked, builder, lowering, lowered, defined, _⟩ := compile_eq_ok_iff.mp compiles
  simp only [Model.checkedSignature, bind_eq_ok_iff] at checked
  obtain ⟨_, _, made⟩ := checked
  obtain ⟨_, describes⟩ := describes_of_signature wellFormed standard made
  have lengths : ∀ request ∈ compiled.signature.outputs.zip requests,
      request.1.length = request.2.length := fun request mem =>
    ((List.forall₂_iff_zip.mp describes.outputs).2 mem).1
  have settles := fun (finished rest : List Entry) (split : model.entries = finished ++ rest) =>
    settles_of_lowerEntry wellFormed standard (describes.capabilities_input wellFormed rfl) lengths
      lowered (Program.extends_of_define defined) split
  obtain ⟨whole, none, middle, later, _, grows, wholeSettles, noneSettles, _⟩ :=
    settles model.entries [] (List.append_nil _).symm
  have found : compiled.program.routine? compiled.signature.routine = some builder.finish := by
    have name : builder.name = compiled.signature.routine := grows.name_eq
    exact name ▸ Program.routine?_of_define defined
  have parameters : builder.finish.parameters = compiled.signature.parameters := grows.parameters_eq
  have moments : compiled.program.runMoments host compiled.signature.routine arguments = _ :=
    Program.runMoments_eq found (parameters ▸ fits)
  have single : SingleAssignment (builder.finish.given compiled.signature.inputs.length)
      (compiled.program.runMoments host compiled.signature.routine arguments) := by
    obtain ⟨last, reached, _, history, _⟩ := (wholeSettles.append noneSettles).accounts_entered host
      builder.finish arguments (Machine.entry arguments builder.finish)
    rw [moments, body_finish grows]
    exact history.singleAssignment
  refine ⟨builder.finish, found, Program.plain_views_entered, single, fun finished rest split => ?_⟩
  obtain ⟨between, others, middle, later, lowers, grows, first, _, renames, places⟩ :=
    settles finished rest split
  refine ⟨between, others, lowers, renames, body_finish grows, fun after ran => ?_⟩
  obtain ⟨earlier, run, accesses⟩ := Observed.exists_moments_append others ran
  rw [body_finish grows, run] at moments
  rw [moments] at single
  refine ⟨earlier, moments, single.steady fun coordinate location located => ?_⟩
  obtain ⟨_, reached, _, history, ends⟩ := first.accounts_entered host builder.finish arguments
    (Machine.entry arguments builder.finish)
  obtain ⟨_, rfl, _⟩ := ends after ran
  rw [accesses]
  exact history.orderly.mem_iff.mp (places coordinate location located)

/-- The model with a sink reads its trigger, hands its input to the host, sums it through the sink,
which is another name for it, and copies the sum to the output. -/
theorem exists_assignsOnce_listener :
    ∃ compiled routine, (listener.compile {} [[⟨3, 0, 0⟩]]).result = .ok compiled ∧
      compiled.AssignsOnce listener {} ⟨[("heard", ⟨"heard", false⟩)]⟩ [.f64 #[1], .f64 #[0]] routine ∧
      accessesOf (compiled.program.runMoments ⟨[("heard", ⟨"heard", false⟩)]⟩ "predict"
          [.f64 #[1], .f64 #[0]]) =
        [.read ⟨2, 0⟩, .read ⟨0, 0⟩, .read ⟨0, 0⟩, .write ⟨3, 0⟩, .read ⟨3, 0⟩, .write ⟨1, 0⟩] := by
  obtain ⟨compiled, compiles, same⟩ := exists_compiled_listener
  have kinds : ∀ entry ∈ listener.entries, entry.node.operator.kind?.isSome := by decide
  have fits : Matches [.f64 #[1], .f64 #[0]] compiled.signature.parameters := by
    rw [same]
    exact .cons ⟨rfl, rfl⟩ (.cons ⟨rfl, rfl⟩ .nil)
  obtain ⟨routine, assigns⟩ := exists_assignsOnce reachable_listener kinds compiles fits
    ⟨[("heard", ⟨"heard", false⟩)]⟩
  refine ⟨compiled, routine, compiles, assigns, ?_⟩
  have ran : (listener.compile {} [[⟨3, 0, 0⟩]]).result.toOption.map (fun compiled =>
      accessesOf (compiled.program.runMoments ⟨[("heard", ⟨"heard", false⟩)]⟩ "predict"
        [.f64 #[1], .f64 #[0]])) =
      some [.read ⟨2, 0⟩, .read ⟨0, 0⟩, .read ⟨0, 0⟩, .write ⟨3, 0⟩, .read ⟨3, 0⟩, .write ⟨1, 0⟩] := by
    cbv
  rw [compiles] at ran
  exact Option.some.inj ran

end Dataflow
