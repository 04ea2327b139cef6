import Dataflow.Proofs.Lowering.SafeEntry
import Dataflow.Proofs.Lowering.SettlingNodes
import Dataflow.Proofs.Routine.Accounts

/-!
# What the entry routine settles

Before each node, every place of the scope is settled, and so are all constants, while the arrays that
are still to be declared and the output parameters are not.  The code of a node keeps this up: it
settles its output, or lets it be another name for places that are settled already.
-/

namespace Dataflow

/-- What is around the entry routine of a program: each array has a slot of its own. -/
def Program.around (program : Program) : Surroundings where
  origin array := ⟨array, 0⟩
  callees := program.settles

theorem Program.plain_around (program : Program) : program.around.Plain :=
  fun _ => rfl

/-- The cell of a place in the entry routine. -/
def Location.cell (location : Location) : Cell :=
  ⟨location.window.array, location.absolute⟩

theorem Program.place_around (program : Program) (location : Location) :
    program.around.place location = location.cell := by
  simp [Surroundings.place, Surroundings.cell, around, Cell.shift, Location.cell, Location.absolute]

/-! ## Stages -/

/-- What is settled at a stage of the entry routine, of which the final form is known.  Reserved slots
are those of the output parameters. -/
structure Stage (around : Surroundings) (reserved : Nat → Prop) (final : Builder) (settled : Set Cell)
    (builder : Builder) (scope : Scope) : Prop where
  declared : ∀ slot, reserved slot → slot < builder.arrays.size
  spares : builder.Spares final settled
  unreserved : ∀ cell ∈ settled, ¬reserved cell.slot
  constants : ∀ (cell : Cell) (values : Buffer),
    final.arrays[cell.slot]? = some (.constant values) → cell ∈ settled
  places : ∀ coordinate location, scope.locate coordinate = .ok location →
    around.place location ∈ settled

section Stages

variable {around : Surroundings} {turns : Turns} {reserved : Nat → Prop} {before after final : Builder}
  {settled later own : Set Cell} {scope : Scope} {rest : List Instruction}

theorem Stage.offers (stage : Stage around reserved final settled before scope)
    (elements : Elements) : scope.Offers around settled elements :=
  fun coordinate _ => stage.places coordinate

/-- Code that settles cells of its own and of arrays that it declares goes to another stage. -/
theorem Stage.grow (stage : Stage around reserved final settled before scope)
    (gains : before.Gains around turns settled after later own)
    (outside : ∀ cell ∈ own, ¬after.Scratch final cell.slot ∧ ¬reserved cell.slot) :
    Stage around reserved final later after scope := by
  obtain ⟨_, grows⟩ := gains.settles.exists_grows
  refine ⟨fun slot held => Nat.lt_of_lt_of_le (stage.declared slot held) grows.arrays_le,
    gains.spares stage.spares fun cell mem => (outside cell mem).1, fun cell mem held => ?_,
    fun cell values found => gains.subset (stage.constants cell values found),
    fun coordinate location located => gains.subset (stage.places coordinate location located)⟩
  rcases gains.fresh cell mem with earlier | scratch | mine
  · exact stage.unreserved cell earlier held
  · exact Nat.not_le.mpr (stage.declared _ held) scratch.1
  · exact (outside cell mine).2 held

/-- Binding a port to settled places. -/
theorem Stage.bind {port : OutputRef} {binding : PortBinding}
    (stage : Stage around reserved final settled before scope)
    (bound : ∀ element location, binding.locate element = .ok location →
      around.place location ∈ settled) :
    Stage around reserved final settled before (scope.bind port binding) where
  declared := stage.declared
  spares := stage.spares
  unreserved := stage.unreserved
  constants := stage.constants
  places coordinate location located := by
    by_cases same : coordinate.output = port
    · rw [Scope.locate, same, Scope.binding?_bind] at located
      exact bound coordinate.element location located
    · rw [Scope.locate_bind_of_ne same] at located
      exact stage.places coordinate location located

theorem Stage.bindArray {port : OutputRef} {window : ArrayRef}
    (stage : Stage around reserved final settled before scope)
    (filled : ∀ element < window.length, around.cell window element ∈ settled) :
    Stage around reserved final settled before (scope.bindArray port window) := by
  refine stage.bind fun element location located => ?_
  simp only [PortBinding.locate] at located
  split at located
  · rename_i inside
    obtain rfl := Except.ok.inj located
    exact filled element inside
  · contradiction

/-- An alias stands for places that are settled already. -/
theorem Stage.bindAlias {port : OutputRef} {elements : Elements} {locations : List Location}
    (stage : Stage around reserved final settled before scope)
    (located : scope.locateAll elements = .ok locations) :
    Stage around reserved final settled before (scope.bind port (.scattered locations)) := by
  refine stage.bind fun element location found => ?_
  have listed : locations[element]? = some location := by
    simp only [PortBinding.locate] at found
    cases read : locations[element]? <;> simp_all
  obtain ⟨source, _, place⟩ := exists_getElem?_right (mapM_eq_ok_iff.mp located) listed
  exact stage.places source location place

end Stages

/-! ## Nodes -/

/-- The entry routine goes from one stage to another one, as part of any final routine of any program
that has the routines of its nodes. -/
def Advances (reserved : Nat → Prop) (before after : Builder × Lowering) : Prop :=
  ∀ ⦃program : Program⦄ ⦃final : Builder⦄ ⦃rest : List Instruction⦄ ⦃settled : Set Cell⦄,
    after.2.program.Extends program → after.1.Grows rest final →
    Stage program.around reserved final settled before.1 before.2.scope →
    ∃ later, before.1.Settles program.around [] settled after.1 later ∧
      Stage program.around reserved final later after.1 after.2.scope

section Nodes

variable {id : NodeId} {node : Node} {options : CompilerOptions} {before after : Builder × Lowering}
  {done : Unit} {reserved : Nat → Prop} {around : Surroundings} {turns : Turns} {settled : Set Cell}

/-- A node whose code stands in the entry routine settles the array that it is bound to. -/
theorem advances_of_inline (standard : node.Standard)
    (compilable : node.capabilities.compilable = true)
    (separable : node.capabilities.inline ≠ .required)
    (earlier : ∀ input ∈ node.inputs, ∀ coordinate ∈ input.elements, coordinate.node ≠ id)
    (unbound : before.2.scope.binding? ⟨id, 0⟩ = none)
    (emitted : Succeeds (node.operator.lower (.ofNode id node options .inline)) before done after) :
    Advances reserved before after := by
  intro program final rest settled _ grows stage
  obtain ⟨port, ⟨array, type, offset, length⟩, _, ported, rfl, rfl, rfl, _, ⟨rfl, fresh, scope⟩, _⟩ :=
    standard.fills compilable separable emitted fun _ => unbound
  have prepared : (Site.ofNode id node options .inline).Prepared program.around settled before
      after.1 :=
    ⟨fun _ => unbound, earlier, ⟨program.plain_around, fun port _ => stage.offers port.elements⟩,
      stage.spares.left grows, nofun⟩
  obtain ⟨other, later, otherPorted, gains, filled⟩ :=
    standard.produces compilable separable emitted prepared
  obtain rfl := Option.some.inj (ported.symm.trans otherPorted)
  refine ⟨later, gains.settles, ?_⟩
  rw [scope]
  refine (stage.grow gains ?_).bindArray fun element below =>
    filled (Surroundings.mem_part below)
  rintro cell ⟨element, _, rfl⟩
  exact ⟨fun scratch => Nat.not_le.mpr fresh.2 scratch.1,
    fun held => Nat.lt_irrefl _ (stage.declared _ held)⟩

/-- Gathered inputs are settled windows. -/
theorem gains_gatherAll {ports : List InputPort} {windows : List ArrayRef}
    (emitted : Succeeds (ports.mapM fun port => do
      (← Lower.scope).gather port.elements port.type : Lower (List ArrayRef)) before windows after)
    (plain : around.Plain)
    (offers : ∀ port ∈ ports, before.2.scope.Offers around settled port.elements)
    (spares : before.1.Spares after.1 settled) :
    ∃ later, before.1.Gains around [] settled after.1 later ∅ ∧
      ∀ window ∈ windows, ∀ element < window.length, around.cell window element ∈ later := by
  induction ports generalizing before windows settled with
  | nil =>
      obtain ⟨rfl, rfl⟩ := succeeds_pure_iff.mp emitted
      exact ⟨settled, .refl _ _, by simp⟩
  | cons port ports ih =>
      simp only [List.mapM_cons, succeeds_bind_iff, Lower.succeeds_scope_iff,
        succeeds_pure_iff] at emitted
      obtain ⟨window, between, ⟨_, before, ⟨rfl, rfl⟩, gathered⟩, rest, _, others, rfl, rfl⟩ := emitted
      obtain ⟨_, _, _, grows, _⟩ := of_gatherAll others
      obtain ⟨same, _⟩ := Scope.of_gather gathered
      obtain ⟨here, elsewhere⟩ := List.forall_mem_cons.mp offers
      obtain ⟨first, gains, filled⟩ := Scope.gains_gather gathered plain here (spares.left grows)
      obtain ⟨later, othersGain, othersFilled⟩ := ih others
        (fun port mem => same ▸ (elsewhere port mem).mono gains.subset)
        (gains.spares spares (by simp))
      exact ⟨later, gains.trans othersGain, List.forall_mem_cons.mpr
        ⟨fun element below => othersGain.subset (filled element below), othersFilled⟩⟩

/-- A window that is passed is the parameter of the routine that is called. -/
theorem Surroundings.cell_leaf {origins : List Cell} {index : Nat} {window : ArrayRef}
    {type : ScalarType} {length : Nat} (found : origins[index]? = some (around.cell window 0))
    (element : Nat) :
    (leaf origins).cell ⟨index, type, 0, length⟩ element = around.cell window element := by
  simp [cell, leaf, List.getD_eq_getElem?_getD, found]

/-- The routine of a node settles the last window, when the windows before it are settled. -/
theorem Program.settles_of_subroutine {program : Program} {name : String} {port : OutputPort}
    {windows : List ArrayRef} {window : ArrayRef} {lowering : Lowering}
    (standard : node.Standard) (compilable : node.capabilities.compilable = true)
    (separable : node.capabilities.inline ≠ .required) (outputs : node.outputs = [port])
    (earlier : ∀ input ∈ node.inputs, ∀ coordinate ∈ input.elements, coordinate.node ≠ id)
    (emitted : Succeeds (node.operator.lower (.ofNode id node options .subroutine))
      (.start name (Site.ofNode id node options .subroutine).parameters, lowering) done after)
    (found : program.routine? name = some after.1.finish)
    (fits : List.Forall₂ (fun (port : InputPort) (window : ArrayRef) =>
      window.type = port.type ∧ window.length = port.size) node.inputs windows)
    (read : ∀ window ∈ windows, ∀ element < window.length, around.cell window element ∈ settled)
    (free : ∀ element, around.cell window element ∉ settled) :
    ∃ later, program.settles name ((windows ++ [window]).map (around.cell · 0)) settled later ∧
      settled ⊆ later ∧ (∀ element < port.size, around.cell window element ∈ later) ∧
      ∀ cell ∈ later, cell ∈ settled ∨ cell ∈ around.part window port.size := by
  have separate : Placement.subroutine ≠ .inline := by decide
  obtain ⟨_, _, code, _, _, _, _, _, ⟨_, _, arrays⟩, grows, _⟩ :=
    standard.fills compilable separable emitted fun inlined => absurd inlined separate
  have none : ∀ slot, ¬(Builder.start name (Site.ofNode id node options .subroutine).parameters).Scratch
      after.1 slot := fun slot => Builder.not_scratch_of_arrays_eq arrays
  have passed : ∀ element, (Surroundings.leaf ((windows ++ [window]).map (around.cell · 0))).cell
      ((Site.ofNode id node options .subroutine).outputParameter 0 port) element =
        around.cell window element := by
    intro element
    refine Surroundings.cell_leaf ?_ element
    simp [Site.ofNode, fits.length_eq]
  have prepared : (Site.ofNode id node options .subroutine).Prepared
      (.leaf ((windows ++ [window]).map (around.cell · 0))) settled
      (.start name (Site.ofNode id node options .subroutine).parameters, lowering) after.1 := by
    refine ⟨fun inlined => absurd inlined separate, earlier,
      fun index input ported element below => ?_,
      fun cell _ => none cell.slot, fun _ other otherPorted => ?_⟩
    · obtain ⟨source, sourceFound, _, length⟩ := exists_getElem?_left fits ported
      have listed : ((windows ++ [window]).map (around.cell · 0))[index]? =
          some (around.cell source 0) := by
        rw [List.getElem?_map, List.getElem?_append_left (List.getElem?_eq_some_iff.mp sourceFound).1,
          sourceFound, Option.map_some]
      rw [Site.inputParameter, Surroundings.cell_leaf listed]
      exact read source (List.mem_of_getElem? sourceFound) element (length ▸ below)
    · obtain rfl : port = other := by simpa [Site.ofNode, outputs] using otherPorted
      exact ⟨fun element _ => (passed element).symm ▸ free element, none _⟩
  obtain ⟨other, later, otherPorted, gains, filled⟩ :=
    standard.produces compilable separable emitted prepared
  obtain rfl : port = other := by simpa [Site.ofNode, outputs] using otherPorted
  obtain ⟨body, bodyGrows, settles⟩ := gains.settles
  refine ⟨later, ⟨after.1.finish, found, locals_eq_nil grows arrays, ?_⟩, gains.subset, ?_, ?_⟩
  · rw [body_finish bodyGrows]
    exact settles (by simp)
  · intro element below
    exact passed element ▸ filled (Surroundings.mem_part below)
  · intro cell mem
    rcases gains.fresh cell mem with before | scratch | ⟨element, below, rfl⟩
    · exact .inl before
    · exact absurd scratch (none _)
    · exact .inr ⟨element, below, (passed element).symm⟩

/-- A node whose code stands in a routine of its own settles the array that is declared for it. -/
theorem advances_of_subroutine {port : OutputPort} (standard : node.Standard)
    (compilable : node.capabilities.compilable = true)
    (separable : node.capabilities.inline ≠ .required) (outputs : node.outputs = [port])
    (earlier : ∀ input ∈ node.inputs, ∀ coordinate ∈ input.elements, coordinate.node ≠ id)
    (emitted : Succeeds (lowerSubroutine options id node) before done after) :
    Advances reserved before after := by
  intro program final rest settled extended grows stage
  obtain ⟨windows, between, subroutine, own, defined, gathered, inner, defines, _, builder, scope,
    same⟩ := of_lowerSubroutine outputs emitted
  obtain ⟨sameOwn, fits, _, gatherGrows, _⟩ := of_gatherAll gathered
  obtain ⟨_, _, _, _, _, _, _, _, ⟨_, innerScope, _⟩, innerGrows, _⟩ :=
    standard.fills compilable separable inner nofun
  have declares := Builder.Grows.withArray between.1 (.scratch port.type port.size)
  have scratch := between.1.scratch_withArray port.type port.size
  have pushes := Builder.Grows.push (between.1.withArray (.scratch port.type port.size))
    (.call (.routine (options.functionName ++ s!"_node_{id}"))
      ((windows ++ [(⟨between.1.arrays.size, port.type, 0, port.size⟩ : ArrayRef)]).map
        fun window => .window window.array window.offset window.length))
  rw [← builder] at pushes
  obtain ⟨first, gathers, read⟩ := gains_gatherAll gathered program.plain_around
    (fun input _ => stage.offers input.elements)
    (stage.spares.left (declares.trans (pushes.trans grows)))
  have collected := stage.grow gathers (by simp)
  have routine : program.routine? (options.functionName ++ s!"_node_{id}") =
      some subroutine.finish := by
    rw [same] at extended
    have name : subroutine.name = options.functionName ++ s!"_node_{id}" := innerGrows.name_eq
    exact extended.routine? (name ▸ Program.routine?_of_define defines)
  have free : ∀ element, program.around.cell
      ⟨between.1.arrays.size, port.type, 0, port.size⟩ element ∉ first :=
    fun element mem => collected.spares _ mem (scratch.mono_right (pushes.trans grows))
  obtain ⟨later, callee, subset, filled, fresh⟩ := Program.settles_of_subroutine standard compilable
    separable outputs earlier inner routine fits read free
  have calls : between.1.Gains program.around [] first after.1 later ∅ := by
    refine ⟨(Builder.Settles.of_grows declares).trans ?_, subset, fun cell mem => ?_⟩
    · rw [builder]
      exact Builder.settles_push (.routine callee (.nil later))
    · rcases fresh cell mem with earlier | ⟨element, _, rfl⟩
      · exact .inl earlier
      · exact .inr (.inl (scratch.mono_right pushes))
  have bound : after.2.scope = before.2.scope.bindArray ⟨id, 0⟩
      ⟨between.1.arrays.size, port.type, 0, port.size⟩ :=
    scope.trans (innerScope.trans (by rw [← sameOwn]))
  refine ⟨later, gathers.settles.trans calls.settles, ?_⟩
  rw [bound]
  exact (collected.grow calls (by simp)).bindArray filled

/-- A node that computes, in place or in a routine of its own. -/
theorem advances_of_computing {port : OutputPort} (standard : node.Standard)
    (compilable : node.capabilities.compilable = true)
    (separable : node.capabilities.inline ≠ .required) (outputs : node.outputs = [port])
    (earlier : ∀ input ∈ node.inputs, ∀ coordinate ∈ input.elements, coordinate.node ≠ id)
    (unbound : before.2.scope.binding? ⟨id, 0⟩ = none)
    (lowered : Succeeds (node.operator.lower (.ofNode id node options .inline)) before () after ∨
      node.capabilities.inline ≠ .required ∧
        Succeeds (lowerSubroutine options id node) before () after) :
    Advances reserved before after := by
  rcases lowered with inline | ⟨_, subroutine⟩
  · exact advances_of_inline standard compilable separable earlier unbound inline
  · exact advances_of_subroutine standard compilable separable outputs earlier subroutine

/-- A constant is settled from the beginning. -/
theorem advances_of_constant {values : Buffer} {shape : Shape}
    (emitted : Succeeds
      (Operator.lower (.ofNode id ⟨.constant values shape, []⟩ options .inline)
        (.constant values shape)) before done after) : Advances reserved before after := by
  simp only [Operator.lower, succeeds_bind_iff, Emit.succeeds_declareConstant_iff] at emitted
  obtain ⟨_, _, ⟨rfl, rfl⟩, bound⟩ := emitted
  obtain rfl := Site.of_bindOutputArray bound
  intro program final rest settled _ grows stage
  have declares := Builder.Grows.withArray before.1 (.constant values)
  have gains : before.1.Gains program.around [] settled (before.1.withArray (.constant values))
      settled ∅ := .of_settles (.of_grows declares)
  refine ⟨settled, gains.settles, (stage.grow gains (by simp)).bindArray fun element _ => ?_⟩
  refine stage.constants _ values ?_
  have inside : before.1.arrays.size < (before.1.withArray (.constant values)).arrays.size := by
    simp [Builder.withArray]
  exact (grows.getElem?_arrays inside).trans (by simp [Builder.withArray])

/-- A concatenation is another name for its input. -/
theorem advances_of_concatenation {type : ScalarType} {shape : Shape} {input : Elements}
    (emitted : Succeeds
      (Operator.lower (.ofNode id ⟨.concatenation type shape, [input]⟩ options .inline)
        (.concatenation type shape)) before done after) : Advances reserved before after := by
  simp only [Operator.lower, succeeds_bind_iff, Emit.succeeds_check_iff] at emitted
  obtain ⟨_, _, ⟨_, rfl⟩, bound⟩ := emitted
  obtain ⟨locations, located, rfl⟩ := Site.of_bindOutputAlias bound
  intro program final rest settled _ _ stage
  exact ⟨settled, .refl _ _, stage.bindAlias located⟩

/-- A sink reads its inputs and is another name for the first of them. -/
theorem advances_of_sink {type : ScalarType} {name : String} {notifies : Bool} {size : Nat}
    {wiring : List Elements}
    (emitted : Succeeds
      (Operator.lower (.ofNode id ⟨.sink type name size notifies, wiring⟩ options .inline)
        (.sink type name size notifies)) before done after) : Advances reserved before after := by
  simp only [Operator.lower, succeeds_bind_iff, Emit.succeeds_check_iff] at emitted
  obtain ⟨trigger, first, loaded, window, second, collected, _, _, branched, port, third, ⟨_, rfl⟩,
    bound⟩ := emitted
  obtain ⟨locations, located, rfl⟩ := Site.of_bindOutputAlias bound
  obtain ⟨_, _, secondOwn, _, _, _, _, collectGrows, _⟩ := Site.of_inputArray collected
  obtain ⟨_, thirdOwn, branchGrows⟩ := of_branch_call branched
  intro program final rest settled _ grows stage
  have read : (Site.ofNode id ⟨.sink type name size notifies, wiring⟩ options .inline).Offers
      program.around settled before.2.scope :=
    ⟨program.plain_around, fun port _ => stage.offers port.elements⟩
  have loads : before.1.Gains program.around [] settled first.1 settled ∅ :=
    .of_settles (Site.settles_inputElement loaded read)
  have staged := stage.grow loads (by simp)
  obtain ⟨later, collects, filled⟩ := Site.gains_inputArray collected
    (Site.own_inputElement loaded ▸ read) (staged.spares.left (branchGrows.trans grows))
  have branches : second.1.Gains program.around [] later third.1 later ∅ :=
    .of_settles (Emit.settles_branch branched fun called => Emit.settles_host called filled)
  have own : third.2 = before.2 :=
    (thirdOwn.trans secondOwn).trans (Site.own_inputElement loaded)
  refine ⟨later, ((loads.trans collects).trans branches).settles, ?_⟩
  rw [own] at located ⊢
  exact ((staged.grow collects (by simp)).grow branches (by simp)).bindAlias located

/-- Every standard node with code goes from one stage to another one. -/
theorem advances_of_lowerNode {model : Model} {entry : Entry} (wellFormed : model.WellFormed)
    (mem : entry ∈ model.entries) (standard : entry.node.Standard)
    (unbound : entry.node.capabilities.input = false →
      before.2.scope.binding? ⟨entry.id, 0⟩ = none)
    (emitted : Succeeds (lowerNode options entry.id entry.node) before done after) :
    Advances reserved before after := by
  have earlier : ∀ input ∈ entry.node.inputs, ∀ coordinate ∈ input.elements,
      coordinate.node ≠ entry.id := fun input inputMem coordinate coordinateMem =>
    Nat.ne_of_lt (wellFormed.provided entry mem input inputMem coordinate coordinateMem).1
  obtain ⟨compilable, lowered⟩ := of_lowerNode emitted
  obtain ⟨id, node, outputs⟩ := entry
  simp only at earlier unbound lowered
  cases standard with
  | coordinatewise | hamming => exact absurd compilable Bool.false_ne_true
  | arithmetic type op left right same =>
      exact advances_of_computing (.arithmetic type op left right same) compilable nofun rfl earlier
        (unbound rfl) lowered
  | comparison type predicate left right same =>
      exact advances_of_computing (.comparison type predicate left right same) compilable nofun rfl
        earlier (unbound rfl) lowered
  | sum type groups =>
      exact advances_of_computing (.sum type groups) compilable nofun rfl earlier (unbound rfl)
        lowered
  | input type size =>
      rcases lowered with inline | ⟨impossible, _⟩
      · obtain rfl := of_input inline
        exact fun program final rest settled _ _ stage => ⟨settled, .refl _ _, stage⟩
      · exact absurd rfl impossible
  | constant values shape fits =>
      rcases lowered with inline | ⟨impossible, _⟩
      · exact advances_of_constant inline
      · exact absurd rfl impossible
  | concatenation type shape input fits =>
      rcases lowered with inline | ⟨impossible, _⟩
      · exact advances_of_concatenation inline
      · exact absurd rfl impossible
  | sink type name notifies input trigger single =>
      rcases lowered with inline | ⟨impossible, _⟩
      · exact advances_of_sink inline
      · exact absurd rfl impossible

section Entries

variable {model : Model} {entries : List Entry}

/-- Lowering nodes does not bind the ports of others. -/
theorem binding?_of_lowerNodes (wellFormed : model.WellFormed) (standard : model.Standard)
    (subset : entries ⊆ model.entries) (distinct : (entries.map Entry.id).Nodup)
    (unbound : ∀ entry ∈ entries, entry.node.capabilities.input = false →
      before.2.scope.binding? ⟨entry.id, 0⟩ = none)
    (emitted : Succeeds (lowerNodes options entries) before done after) {port : OutputRef}
    (different : ∀ entry ∈ entries, port.node ≠ entry.id) :
    after.2.scope.binding? port = before.2.scope.binding? port := by
  induction entries generalizing before with
  | nil =>
      obtain ⟨_, rfl⟩ := succeeds_pure_iff.mp emitted
      rfl
  | cons entry entries ih =>
      simp only [lowerNodes, succeeds_bind_iff] at emitted
      obtain ⟨_, between, first, others⟩ := emitted
      obtain ⟨mem, subset⟩ := List.cons_subset.mp subset
      obtain ⟨fresh, distinct⟩ := List.nodup_cons.mp distinct
      obtain ⟨apart, restApart⟩ := List.forall_mem_cons.mp different
      have lowers := lowers_of_lowerNode wellFormed mem (standard entry mem)
        (unbound entry List.mem_cons_self) first
      rw [ih subset distinct (lowers.unbound fresh unbound) others restApart,
        lowers.others port apart]

/-- The nodes of a model, one after another, go from one stage to another one. -/
theorem advances_lowerNodes (wellFormed : model.WellFormed) (standard : model.Standard)
    (subset : entries ⊆ model.entries) (distinct : (entries.map Entry.id).Nodup)
    (unbound : ∀ entry ∈ entries, entry.node.capabilities.input = false →
      before.2.scope.binding? ⟨entry.id, 0⟩ = none)
    (emitted : Succeeds (lowerNodes options entries) before done after) :
    Advances reserved before after := by
  induction entries generalizing before with
  | nil =>
      obtain ⟨_, rfl⟩ := succeeds_pure_iff.mp emitted
      exact fun program final rest settled _ _ stage => ⟨settled, .refl _ _, stage⟩
  | cons entry entries ih =>
      simp only [lowerNodes, succeeds_bind_iff] at emitted
      obtain ⟨_, between, first, others⟩ := emitted
      obtain ⟨mem, subset⟩ := List.cons_subset.mp subset
      obtain ⟨fresh, distinct⟩ := List.nodup_cons.mp distinct
      have here := unbound entry List.mem_cons_self
      have lowers := lowers_of_lowerNode wellFormed mem (standard entry mem) here first
      have unboundLater := lowers.unbound fresh unbound
      obtain ⟨extended, adds⟩ := adds_lowerNodes wellFormed standard subset distinct unboundLater others
      intro program final rest settled extending grows stage
      obtain ⟨_, restGrows, _⟩ := adds program extending
      obtain ⟨middle, settles, staged⟩ := advances_of_lowerNode wellFormed mem (standard entry mem)
        here first (extended.trans extending) (restGrows.trans grows) stage
      obtain ⟨later, restSettles, reached⟩ :=
        ih subset distinct unboundLater others extending grows staged
      exact ⟨later, settles.trans restSettles, reached⟩

end Entries

/-! ## Other names -/

/-- The elements that the output of a node is another name for. -/
def Node.alias? (node : Node) : Option Elements :=
  match node.operator, node.wiring with
  | .concatenation _ _, input :: _ => some input
  | .sink _ _ _ _, input :: _ => some input
  | _, _ => none

theorem Node.mem_wiring_of_alias? {node : Node} {input : Elements}
    (named : node.alias? = some input) : input ∈ node.wiring := by
  unfold alias? at named
  split at named
  · rename_i wiring
    exact wiring ▸ Option.some.inj named ▸ List.mem_cons_self
  · rename_i wiring
    exact wiring ▸ Option.some.inj named ▸ List.mem_cons_self
  · contradiction

/-- The concatenations and sinks among some entries have the places of their inputs. -/
def Scope.Renames (scope : Scope) (entries : List Entry) : Prop :=
  ∀ entry ∈ entries, ∀ input, entry.node.alias? = some input →
    ∀ index coordinate, input[index]? = some coordinate →
      scope.locate ⟨entry.id, 0, index⟩ = scope.locate coordinate

/-- An output that is another name for elements of other nodes has their places. -/
theorem locate_of_bindOutputAlias {elements : Elements}
    (emitted : Succeeds ((Site.ofNode id node options .inline).bindOutputAlias 0 elements) before done
      after) {index : Nat} {coordinate : Coordinate} (found : elements[index]? = some coordinate)
    (different : coordinate.node ≠ id) :
    after.2.scope.locate ⟨id, 0, index⟩ = after.2.scope.locate coordinate := by
  obtain ⟨locations, located, rfl⟩ := Site.of_bindOutputAlias emitted
  obtain ⟨location, listed, place⟩ := exists_getElem?_left (mapM_eq_ok_iff.mp located) found
  have apart : coordinate.output ≠ ⟨id, 0⟩ := fun same => different (congrArg OutputRef.node same)
  have bound : (before.2.scope.bind ⟨id, 0⟩ (.scattered locations)).binding? ⟨id, 0⟩ =
      some (.scattered locations) := Scope.binding?_bind _ _ _
  change (before.2.scope.bind ⟨id, 0⟩ (.scattered locations)).locate ⟨id, 0, index⟩ =
    (before.2.scope.bind ⟨id, 0⟩ (.scattered locations)).locate coordinate
  rw [Scope.locate_bind_of_ne apart, place]
  simp [Scope.locate, Coordinate.output, bound, PortBinding.locate, listed]

theorem renames_of_lowerNode {model : Model} {entry : Entry} (wellFormed : model.WellFormed)
    (mem : entry ∈ model.entries) (standard : entry.node.Standard)
    (emitted : Succeeds (lowerNode options entry.id entry.node) before done after) :
    after.2.scope.Renames [entry] := by
  have earlier : ∀ input ∈ entry.node.inputs, ∀ coordinate ∈ input.elements,
      coordinate.node ≠ entry.id := fun input inputMem coordinate coordinateMem =>
    Nat.ne_of_lt (wellFormed.provided entry mem input inputMem coordinate coordinateMem).1
  obtain ⟨_, lowered⟩ := of_lowerNode emitted
  intro other listed input named index coordinate found
  obtain rfl := List.mem_singleton.mp listed
  obtain ⟨id, node, outputs⟩ := other
  simp only at earlier lowered named ⊢
  cases standard with
  | input | constant | arithmetic | comparison | coordinatewise | sum | hamming => contradiction
  | concatenation type shape elements fits =>
      rcases lowered with inline | ⟨impossible, _⟩
      · simp only [Operator.lower, succeeds_bind_iff, Emit.succeeds_check_iff] at inline
        obtain ⟨_, _, ⟨ported, rfl⟩, bound⟩ := inline
        obtain rfl := Option.some.inj (Site.inputPort_eq_ok_iff.mp ported)
        obtain rfl := Option.some.inj named
        exact locate_of_bindOutputAlias bound found
          (earlier _ List.mem_cons_self coordinate (List.mem_of_getElem? found))
      · exact absurd rfl impossible
  | sink type name notifies elements trigger single =>
      rcases lowered with inline | ⟨impossible, _⟩
      · simp only [Operator.lower, succeeds_bind_iff, Emit.succeeds_check_iff] at inline
        obtain ⟨_, _, _, _, _, _, _, _, _, _, _, ⟨ported, rfl⟩, bound⟩ := inline
        obtain rfl := Option.some.inj (Site.inputPort_eq_ok_iff.mp ported)
        obtain rfl := Option.some.inj named
        exact locate_of_bindOutputAlias bound found
          (earlier _ List.mem_cons_self coordinate (List.mem_of_getElem? found))
      · exact absurd rfl impossible

/-- Nodes that are lowered later leave the places as they are.  The induction is on the nodes that are
left, whose numbers increase. -/
theorem renames_of_lowerNodes {model : Model} {entries : List Entry} (wellFormed : model.WellFormed)
    (standard : model.Standard) (subset : entries ⊆ model.entries)
    (increasing : (entries.map Entry.id).Pairwise (· < ·))
    (unbound : ∀ entry ∈ entries, entry.node.capabilities.input = false →
      before.2.scope.binding? ⟨entry.id, 0⟩ = none)
    (emitted : Succeeds (lowerNodes options entries) before done after) :
    after.2.scope.Renames entries := by
  induction entries generalizing before with
  | nil => exact fun entry mem => absurd mem List.not_mem_nil
  | cons entry entries ih =>
      simp only [lowerNodes, succeeds_bind_iff] at emitted
      obtain ⟨_, between, first, others⟩ := emitted
      obtain ⟨mem, subset⟩ := List.cons_subset.mp subset
      obtain ⟨above, increasing⟩ := List.pairwise_cons.mp increasing
      have distinct : (entries.map Entry.id).Nodup := increasing.imp Nat.ne_of_lt
      have fresh : entry.id ∉ entries.map Entry.id := fun listed => Nat.lt_irrefl _ (above _ listed)
      have lowers := lowers_of_lowerNode wellFormed mem (standard entry mem)
        (unbound entry List.mem_cons_self) first
      have unboundLater := lowers.unbound fresh unbound
      have kept : ∀ coordinate : Coordinate, coordinate.node ≤ entry.id →
          after.2.scope.locate coordinate = between.2.scope.locate coordinate := by
        intro coordinate below
        have same : after.2.scope.binding? coordinate.output =
            between.2.scope.binding? coordinate.output :=
          binding?_of_lowerNodes wellFormed standard subset distinct unboundLater others
            fun other otherMem =>
              Nat.ne_of_lt (Nat.lt_of_le_of_lt below (above _ (List.mem_map_of_mem otherMem)))
        rw [Scope.locate, same, Scope.locate]
      refine List.forall_mem_cons.mpr ⟨fun input named index coordinate found => ?_,
        ih subset increasing unboundLater others⟩
      obtain ⟨port, ported, rfl⟩ : ∃ port ∈ entry.node.inputs, port.elements = input := by
        rw [← List.mem_map, (standard entry mem).elements_inputs]
        exact Node.mem_wiring_of_alias? named
      have provided := (wellFormed.provided entry mem port ported coordinate
        (List.mem_of_getElem? found)).1
      rw [kept _ (Nat.le_refl _), kept coordinate (Nat.le_of_lt provided)]
      exact renames_of_lowerNode wellFormed mem (standard entry mem) first entry List.mem_cons_self
        port.elements named index coordinate found

/-- Lowering all nodes of a model comes through some of them first. -/
theorem exists_between {model : Model} (wellFormed : model.WellFormed) (standard : model.Standard)
    (unbound : ∀ entry ∈ model.entries, entry.node.capabilities.input = false →
      before.2.scope.binding? ⟨entry.id, 0⟩ = none)
    (emitted : Succeeds (lowerNodes options model.entries) before done after)
    {finished rest : List Entry} (split : model.entries = finished ++ rest) :
    ∃ between, Succeeds (lowerNodes options finished) before () between ∧
      between.2.program.Extends after.2.program ∧ (∃ code, before.1.Grows code between.1) ∧
      (∃ code, between.1.Grows code after.1) ∧ Advances reserved before between ∧
      Advances reserved between after ∧ between.2.scope.Renames finished := by
  rw [split, lowerNodes_append, succeeds_bind_iff] at emitted
  obtain ⟨_, between, first, others⟩ := emitted
  have firstSubset : finished ⊆ model.entries := split ▸ List.subset_append_left _ _
  have restSubset : rest ⊆ model.entries := split ▸ List.subset_append_right _ _
  have increasing : ((finished ++ rest).map Entry.id).Pairwise (· < ·) :=
    split ▸ wellFormed.ids_increasing
  rw [List.map_append, List.pairwise_append] at increasing
  obtain ⟨firstIncreasing, restIncreasing, apart⟩ := increasing
  have firstDistinct : (finished.map Entry.id).Nodup := firstIncreasing.imp Nat.ne_of_lt
  have restDistinct : (rest.map Entry.id).Nodup := restIncreasing.imp Nat.ne_of_lt
  have firstUnbound := fun entry mem => unbound entry (firstSubset mem)
  obtain ⟨firstExtended, firstAdds⟩ :=
    adds_lowerNodes wellFormed standard firstSubset firstDistinct firstUnbound first
  have restUnbound : ∀ entry ∈ rest, entry.node.capabilities.input = false →
      between.2.scope.binding? ⟨entry.id, 0⟩ = none := fun entry mem inner => by
    rw [binding?_of_lowerNodes wellFormed standard firstSubset firstDistinct firstUnbound first
      fun other otherMem =>
        Nat.ne_of_gt (apart _ (List.mem_map_of_mem otherMem) _ (List.mem_map_of_mem mem))]
    exact unbound entry (restSubset mem) inner
  obtain ⟨restExtended, restAdds⟩ :=
    adds_lowerNodes wellFormed standard restSubset restDistinct restUnbound others
  obtain ⟨firstCode, firstGrows, _⟩ := firstAdds _ (.refl _)
  obtain ⟨restCode, restGrows, _⟩ := restAdds _ (.refl _)
  exact ⟨between, first, restExtended, ⟨firstCode, firstGrows⟩, ⟨restCode, restGrows⟩,
    advances_lowerNodes wellFormed standard firstSubset firstDistinct firstUnbound first,
    advances_lowerNodes wellFormed standard restSubset restDistinct restUnbound others,
    renames_of_lowerNodes wellFormed standard firstSubset firstIncreasing firstUnbound first⟩

end Nodes

end Dataflow
