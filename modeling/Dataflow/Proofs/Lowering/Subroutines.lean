import Dataflow.Lowering.Compilation
import Dataflow.Proofs.Lowering.NodeCode
import Dataflow.Proofs.Routine.Calls

/-!
# Nodes in place and in routines of their own

A node that computes something gets an array of the entry routine, which its output port is
bound to.  The code that fills the array either stands in the entry routine, or in a routine
that is called with windows of the inputs.  Both ways the array holds afterwards what the
evaluator computes.
-/

namespace Dataflow

/-! ## Filled windows -/

/-- A window that was filled with the elements of a buffer shows the buffer. -/
theorem Filled.showsBuffer {views : Array View} {heap : Array Buffer} {slot : Nat}
    {window : ArrayRef} {values : Buffer} (typed : window.type = values.type)
    (length : window.length = values.size)
    (filled : Filled views heap slot window values.size values.item) :
    window.ShowsBuffer views heap (· = slot) values where
  type_eq := typed
  length_eq := length
  holds index scalar found := by
    have holds := filled index (Buffer.lt_size_of_get?_eq_some found)
    rwa [Buffer.item_of_get?_eq_some found] at holds

/-! ## Gathering all inputs -/

/-- The places of the elements of a port hold the elements of a buffer. -/
structure Scope.Supplies (scope : Scope) (views : Array View) (heap : Array Buffer)
    (readable : Nat → Prop) (port : InputPort) (values : Buffer) : Prop where
  feeds : values.Feeds port
  places : ∀ index coordinate scalar, port.elements[index]? = some coordinate →
    values.get? index = some scalar → scope.Places views heap readable coordinate scalar

theorem Scope.Supplies.frame {scope : Scope} {views : Array View} {readable kept : Nat → Prop}
    {port : InputPort} {values : Buffer} {number : Nat} {machine later : Machine}
    (supplies : scope.Supplies views machine.heap readable port values)
    (frame : machine.Frame number kept later) (keeps : ∀ slot, readable slot → kept slot) :
    scope.Supplies views later.heap readable port values :=
  { supplies with
    places := fun index coordinate scalar element found =>
      (supplies.places index coordinate scalar element found).frame frame keeps }

theorem Scope.Supplies.mono {scope : Scope} {views : Array View} {heap : Array Buffer}
    {readable more : Nat → Prop} {port : InputPort} {values : Buffer}
    (supplies : scope.Supplies views heap readable port values)
    (includes : ∀ slot, readable slot → more slot) : scope.Supplies views heap more port values :=
  { supplies with
    places := fun index coordinate scalar element found location located =>
      (supplies.places index coordinate scalar element found location located).mono includes }

/-- Inputs are gathered one after another.  The induction is on the ports that are left: arrays
that are declared for later ones lie apart from the windows of the earlier ones. -/
theorem of_gatherAll {ports : List InputPort} {windows : List ArrayRef}
    {before after : Builder × Lowering}
    (emitted : Succeeds (ports.mapM fun port => do
      (← Lower.scope).gather port.elements port.type : Lower (List ArrayRef)) before windows after) :
    after.2 = before.2 ∧
      List.Forall₂ (fun (port : InputPort) (window : ArrayRef) =>
        window.type = port.type ∧ window.length = port.size) ports windows ∧
      ∃ code, before.1.Grows code after.1 ∧
        ∀ {activation : Activation} {machine : Machine} {readable : Nat → Prop}
          {inputs : List Buffer}, after.1.Ready activation.views machine →
          before.1.Apart after.1 activation.views readable →
          List.Forall₂ (before.2.scope.Supplies activation.views machine.heap readable) ports
            inputs →
          activation.Reaches code before.1.valueTypes.size (¬before.1.Fresh after.1 ·) machine
            fun later => List.Forall₂ (fun (window : ArrayRef) values =>
              window.ShowsBuffer activation.views later.heap
                (fun slot => readable slot ∨ before.1.Fresh after.1 slot) values) windows inputs := by
  induction ports generalizing before windows with
  | nil =>
      obtain ⟨rfl, rfl⟩ := succeeds_pure_iff.mp emitted
      refine ⟨rfl, .nil, [], .refl _, fun _ _ supplies => .nil ?_⟩
      cases supplies
      exact .nil
  | cons port ports ih =>
      simp only [List.mapM_cons, succeeds_bind_iff, Lower.succeeds_scope_iff,
        succeeds_pure_iff] at emitted
      obtain ⟨window, between, ⟨_, before, ⟨rfl, rfl⟩, gathered⟩, rest, _, others, rfl, rfl⟩ := emitted
      obtain ⟨sameOwn, typed, length, first, firstGrows, firstReaches⟩ := Scope.of_gather gathered
      obtain ⟨otherOwn, fits, code, grows, reaches⟩ := ih others
      refine ⟨otherOwn.trans sameOwn, .cons ⟨typed, length⟩ fits, first ++ code,
        firstGrows.trans grows, ?_⟩
      intro activation machine readable inputs ready apart supplies
      obtain ⟨values, inputs, supply, otherSupplies, rfl⟩ := List.forall₂_cons_left_iff.mp supplies
      have sized : port.elements.length = values.size := supply.feeds.2.symm
      have placed : ∀ (index : Nat) (coordinate : Coordinate), port.elements[index]? = some coordinate →
          before.2.scope.Places activation.views machine.heap readable coordinate
            (values.item index) ∧ (values.item index).type = port.type := by
        intro index coordinate found
        obtain ⟨bound, _⟩ := List.getElem?_eq_some_iff.mp found
        rw [sized] at bound
        exact ⟨supply.places index coordinate _ found (Buffer.get?_eq_item bound),
          (Buffer.type_item bound).trans supply.feeds.1⟩
      have gatheredReaches : activation.Reaches first before.1.valueTypes.size
          (¬before.1.Fresh after.1 ·) machine fun later =>
            window.ShowsBuffer activation.views later.heap
              (fun slot => readable slot ∨ before.1.Fresh between.1 slot) values := by
        refine (firstReaches (ready.of_grows grows) (apart.left grows) placed).mono (Nat.le_refl _)
          (fun _ old fresh => old (fresh.mono_right grows)) ?_
        intro later _ shows
        refine ⟨typed.trans supply.feeds.1.symm, length.trans sized, fun index scalar found => ?_⟩
        have holds := shows index (sized ▸ Buffer.lt_size_of_get?_eq_some found)
        rwa [Buffer.item_of_get?_eq_some found] at holds
      refine gatheredReaches.append fun middle frame shows => ?_
      have unread : ∀ slot, readable slot → ¬before.1.Fresh after.1 slot :=
        fun _ read => apart.not_fresh ready read
      have later : ∀ slot, readable slot ∨ before.1.Fresh between.1 slot →
          ¬between.1.Fresh after.1 slot := by
        rintro slot (read | earlier) fresh
        · exact unread slot read (fresh.mono_left firstGrows)
        · exact absurd fresh.1 (Nat.not_le.mpr earlier.2)
      have supplied : List.Forall₂ (between.2.scope.Supplies activation.views middle.heap
          fun slot => readable slot ∨ before.1.Fresh between.1 slot) ports inputs := by
        rw [sameOwn]
        exact otherSupplies.imp fun _ _ supply =>
          (supply.frame frame unread).mono fun _ read => Or.inl read
      refine (reaches (ready.frame frame) (apart.right firstGrows) supplied).mono
        firstGrows.values_le (fun _ old fresh => old (fresh.mono_left firstGrows)) ?_
      intro last lastFrame done
      have widen : ∀ slot, ((readable slot ∨ before.1.Fresh between.1 slot) ∨
          between.1.Fresh after.1 slot) → readable slot ∨ before.1.Fresh after.1 slot := by
        rintro slot ((read | fresh) | fresh)
        · exact .inl read
        · exact .inr (fresh.mono_right grows)
        · exact .inr (fresh.mono_left firstGrows)
      refine .cons ?_ (done.imp fun _ _ shown => shown.mono widen)
      exact (shows.frame lastFrame later).mono fun slot read => widen slot (.inl read)

/-! ## Programs that grow -/

/-- A program keeps its routines while others are defined after them. -/
def Program.Extends (program later : Program) : Prop :=
  program.routines <+: later.routines

theorem Program.Extends.refl (program : Program) : program.Extends program :=
  List.prefix_rfl

theorem Program.Extends.trans {program between later : Program} (first : program.Extends between)
    (second : between.Extends later) : program.Extends later :=
  List.IsPrefix.trans first second

theorem Program.Extends.routine? {program later : Program} (extended : program.Extends later)
    {name : String} {routine : Routine} (found : program.routine? name = some routine) :
    later.routine? name = some routine := by
  obtain ⟨more, routines⟩ := extended
  rw [Program.routine?] at found ⊢
  rw [← routines, List.find?_append, found, Option.some_or]

theorem Program.define_eq_ok_iff {program after : Program} {builder : Builder} :
    program.define builder = .ok after ↔
      program.routine? builder.name = none ∧ after = ⟨program.routines ++ [builder.finish]⟩ := by
  rw [define]
  cases program.routine? builder.name <;> simp [eq_comm]

theorem Program.extends_of_define {program after : Program} {builder : Builder}
    (defined : program.define builder = .ok after) : program.Extends after := by
  obtain ⟨_, rfl⟩ := define_eq_ok_iff.mp defined
  exact List.prefix_append _ _

theorem Program.routine?_of_define {program after : Program} {builder : Builder}
    (defined : program.define builder = .ok after) :
    after.routine? builder.name = some builder.finish := by
  obtain ⟨free, rfl⟩ := define_eq_ok_iff.mp defined
  rw [Program.routine?] at free ⊢
  rw [List.find?_append, free, Option.none_or]
  simp [Builder.finish]

theorem Program.declare_eq_ok_iff {program : Program} {name : String} {parameters : List Parameter}
    {builder : Builder} :
    program.declare name parameters = .ok builder ↔
      program.routine? name = none ∧ builder = .start name parameters := by
  rw [declare]
  cases program.routine? name <;> simp [eq_comm]

/-! ## Nodes with an array -/

theorem Scope.locate_bind_of_ne {scope : Scope} {port : OutputRef} {binding : PortBinding}
    {coordinate : Coordinate} (different : coordinate.output ≠ port) :
    (scope.bind port binding).locate coordinate = scope.locate coordinate := by
  rw [locate, locate, binding?_bind_of_ne _ _ different]

/-- The code of a node fills a new array, to which the output port of the node is bound, with
what the evaluator computes. -/
def Node.Computes (node : Node) (id : NodeId) (before after : Builder × Lowering) : Prop :=
  ∃ window code, before.1.Fresh after.1 window.array ∧
    after.2.scope = before.2.scope.bindArray ⟨id, 0⟩ window ∧
    before.2.program.Extends after.2.program ∧ before.1.Grows code after.1 ∧
    ∀ {activation : Activation} {program : Program} {host : Host} {depth : Nat} {machine : Machine}
      {readable : Nat → Prop} {inputs : List Buffer} {result : Buffer},
      activation.call = program.call host (depth + 1) → after.2.program.Extends program →
      after.1.Ready activation.views machine → before.1.Apart after.1 activation.views readable →
      List.Forall₂ (before.2.scope.Supplies activation.views machine.heap readable) node.inputs
        inputs →
      node.operator.value inputs = .ok (some result) → node.operator.Unambiguous inputs →
      (∀ port ∈ node.outputs, result.Fits port) →
      activation.Reaches code before.1.valueTypes.size (¬before.1.Fresh after.1 ·) machine
        fun later => window.ShowsBuffer activation.views later.heap (before.1.Fresh after.1) result

section Computing

variable {id : NodeId} {node : Node} {options : CompilerOptions} {before after : Builder × Lowering}

/-- What a site in the entry routine reads is what the scope supplies. -/
theorem readsInputs_of_supplies {scope : Scope} {binding : PortBinding} {views : Array View}
    {heap : Array Buffer} {readable : Nat → Prop} {inputs : List Buffer}
    (earlier : ∀ input ∈ node.inputs, ∀ coordinate ∈ input.elements, coordinate.node ≠ id)
    (supplies : List.Forall₂ (scope.Supplies views heap readable) node.inputs inputs) :
    (Site.ofNode id node options .inline).ReadsInputs (scope.bind ⟨id, 0⟩ binding) views heap
      readable inputs := by
  intro index buffer found element scalar got port ported coordinate elementFound location located
  obtain ⟨bufferBound, rfl⟩ := List.getElem?_eq_some_iff.mp found
  have portFound : node.inputs[index]? = some port := ported
  obtain ⟨portBound, rfl⟩ := List.getElem?_eq_some_iff.mp portFound
  have supply := supplies.get portBound bufferBound
  simp only [List.get_eq_getElem] at supply
  have different : coordinate.output ≠ ⟨id, 0⟩ := fun same =>
    earlier _ (List.getElem_mem portBound) coordinate (List.mem_of_getElem? elementFound)
      (congrArg OutputRef.node same)
  rw [Scope.locate_bind_of_ne different] at located
  exact supply.places element coordinate scalar elementFound got location located

/-- A node whose code stands in the entry routine. -/
theorem computes_of_fills
    (fills : (Site.ofNode id node options .inline).Fills before after
      ((Site.ofNode id node options .inline).Evaluates node))
    (earlier : ∀ input ∈ node.inputs, ∀ coordinate ∈ input.elements, coordinate.node ≠ id) :
    node.Computes id before after := by
  obtain ⟨port, output, code, ported, typed, _, length, program, placement, grows, reaches⟩ := fills
  obtain ⟨_, fresh, scope⟩ := placement
  refine ⟨output, code, fresh, scope, program ▸ .refl _, grows, ?_⟩
  intro activation _ host depth machine readable inputs result _ _ ready apart supplies computed
    unambiguous fits
  have fitted : result.Fits port := fits port (List.mem_of_getElem? ported)
  have placed : ∀ view, activation.views[output.array]? = some view → view.slot = output.array :=
    fun view viewed => (apart _ view fresh viewed).1
  have unread : ¬readable output.array := fun read => apart.not_fresh ready read fresh
  have types : ∀ element < port.size, (result.item element).type = port.type := by
    intro element below
    rw [← fitted.2] at below
    exact (Buffer.type_item below).trans fitted.1
  have evaluates : (Site.ofNode id node options .inline).Evaluates node after.2.scope
      activation.views machine.heap readable result.item := by
    refine ⟨inputs, result, (supplies.imp fun _ _ supply => supply.feeds).flip, computed,
      unambiguous, ?_, fun element below => Buffer.get?_eq_item below⟩
    rw [scope]
    exact readsInputs_of_supplies earlier supplies
  refine (reaches ready placed unread apart types evaluates).mono (Nat.le_refl _)
    (fun other old => ⟨fun same => old (same ▸ fresh), old⟩) fun later _ filled => ?_
  rw [← fitted.2] at filled
  refine (filled.showsBuffer (typed.trans fitted.1.symm) (length.trans fitted.2.symm)).mono ?_
  rintro _ rfl
  exact fresh

/-- What the lowering of a node to a subroutine does, step by step. -/
theorem of_lowerSubroutine {port : OutputPort} {done : Unit} (outputs : node.outputs = [port])
    (emitted : Succeeds (lowerSubroutine options id node) before done after) :
    ∃ windows between subroutine own program,
      Succeeds (node.inputs.mapM fun port => do
        (← Lower.scope).gather port.elements port.type : Lower (List ArrayRef)) before windows
        between ∧
      Succeeds (node.operator.lower (Site.ofNode id node options .subroutine))
        (.start (options.functionName ++ s!"_node_{id}")
            (Site.ofNode id node options .subroutine).parameters,
          { between.2 with
            scope := between.2.scope.bindArray ⟨id, 0⟩
              ⟨between.1.arrays.size, port.type, 0, port.size⟩ }) () (subroutine, own) ∧
      own.program.define subroutine = .ok program ∧
      (∀ window ∈ windows ++ [(⟨between.1.arrays.size, port.type, 0, port.size⟩ : ArrayRef)],
        (between.1.withArray (.scratch port.type port.size)).checkArray window = .ok ()) ∧
      after.1 = (between.1.withArray (.scratch port.type port.size)).push
        (.call (.routine (options.functionName ++ s!"_node_{id}"))
          ((windows ++ [(⟨between.1.arrays.size, port.type, 0, port.size⟩ : ArrayRef)]).map
            fun window => .window window.array window.offset window.length)) ∧
      after.2.scope = own.scope ∧ after.2.program = program := by
  simp only [lowerSubroutine, outputs, declareOutputs, succeeds_bind_iff,
    Emit.succeeds_declareArray_iff, Lower.succeeds_scope_iff, Lower.succeeds_setScope_iff,
    Emit.succeeds_own_iff, Emit.succeeds_check_iff, Emit.succeeds_modifyOwn_iff,
    Emit.succeeds_call_iff, succeeds_pure_iff, mapM_eq_ok_iff] at emitted
  obtain ⟨windows, between, gathered, _, _,
    ⟨_, _, ⟨rfl, rfl⟩, _, _, ⟨rfl, rfl⟩, _, _, rfl, _, _, ⟨rfl, rfl⟩, rfl, rfl⟩,
    _, _, ⟨rfl, rfl⟩, builder, _, ⟨declared, rfl⟩, subroutine, _, routine, _, _, ⟨rfl, rfl⟩,
    program, state, ⟨defined, rfl⟩, _, _, rfl, _, _, ⟨arguments, passed, rfl⟩, rfl⟩ := emitted
  obtain ⟨_, rfl⟩ := Program.declare_eq_ok_iff.mp declared
  obtain ⟨same, lowered⟩ := Emit.of_inRoutine routine
  simp only [same] at passed ⊢
  obtain ⟨checked, rfl⟩ := arguments_eq_of_checked passed
  exact ⟨windows, between, subroutine, state.2, program, gathered, lowered, defined, checked, rfl,
    rfl, rfl⟩

/-- The parameters of a subroutine have the types and sizes of the ports. -/
theorem parameters_fit {windows : List ArrayRef} {window : ArrayRef} {port : OutputPort}
    (outputs : node.outputs = [port])
    (fits : List.Forall₂ (fun (port : InputPort) (window : ArrayRef) =>
      window.type = port.type ∧ window.length = port.size) node.inputs windows)
    (typed : window.type = port.type) (length : window.length = port.size) :
    List.Forall₂ (fun (parameter : Parameter) (window : ArrayRef) =>
      parameter.type = window.type ∧ parameter.length = window.length)
      (Site.ofNode id node options .subroutine).parameters (windows ++ [window]) := by
  refine List.rel_append ?_ ?_
  · refine List.forall₂_iff_get.mpr
      ⟨by simpa [Site.ofNode] using fits.length_eq, fun index before after => ?_⟩
    have fit := fits.get (by simpa [Site.ofNode] using before) after
    simp only [List.get_eq_getElem, Site.ofNode, List.getElem_mapIdx] at fit ⊢
    exact ⟨fit.1.symm, fit.2.symm⟩
  · rw [Site.ofNode, outputs]
    exact .cons ⟨typed.symm, length.symm⟩ .nil

/-- A routine that declares no arrays has the arrays of its parameters. -/
theorem locals_eq_nil {name : String} {parameters : List Parameter} {inner : Builder}
    {code : List Instruction} (grows : (Builder.start name parameters).Grows code inner)
    (arrays : inner.arrays = (Builder.start name parameters).arrays) : inner.finish.locals = [] := by
  have same : inner.parameters = parameters := grows.parameters_eq
  simp [Routine.locals, Builder.finish, arrays, Builder.start, same]

/-- The body of a routine is what was added to it. -/
theorem body_finish {name : String} {parameters : List Parameter} {inner : Builder}
    {code : List Instruction} (grows : (Builder.start name parameters).Grows code inner) :
    inner.finish.body = code := by
  have enclosing : inner.enclosing = [] := grows.enclosing_eq
  have block := grows.block_eq
  simpa [Builder.finish, enclosing, Builder.start] using block

/-- Calling the routine of a node with windows that show its inputs fills the last window with
what the evaluator computes. -/
theorem reaches_subroutine {port : OutputPort} {windows : List ArrayRef} {window : ArrayRef}
    {name : String} {inner caller : Builder} {lowering later : Lowering} {activation : Activation}
    {program : Program} {host : Host} {depth slot number : Nat} {machine : Machine}
    {readable : Nat → Prop} {inputs : List Buffer} {result : Buffer}
    (outputs : node.outputs = [port])
    (fills : (Site.ofNode id node options .subroutine).Fills
      (.start name (Site.ofNode id node options .subroutine).parameters, lowering) (inner, later)
      ((Site.ofNode id node options .subroutine).Evaluates node))
    (found : program.routine? name = some inner.finish)
    (calls : activation.call = program.call host (depth + 1))
    (ready : caller.Ready activation.views machine)
    (checked : ∀ given ∈ windows ++ [window], caller.checkArray given = .ok ())
    (windowFits : List.Forall₂ (fun (port : InputPort) (window : ArrayRef) =>
      window.type = port.type ∧ window.length = port.size) node.inputs windows)
    (typed : window.type = port.type) (length : window.length = port.size)
    (placed : ∀ view, activation.views[window.array]? = some view → view.slot = slot)
    (unread : ¬readable slot)
    (shows : List.Forall₂ (fun (window : ArrayRef) values =>
      window.ShowsBuffer activation.views machine.heap readable values) windows inputs)
    (feeds : List.Forall₂ Buffer.Feeds inputs node.inputs)
    (computed : node.operator.value inputs = .ok (some result))
    (unambiguous : node.operator.Unambiguous inputs)
    (fitted : result.Fits port) :
    activation.Reaches
      [.call (.routine name) ((windows ++ [window]).map fun window =>
        .window window.array window.offset window.length)] number (· ≠ slot) machine
      fun later => window.ShowsBuffer activation.views later.heap (· = slot) result := by
  obtain ⟨innerPort, output, body, ported, _, offset, outputLength, _, ⟨array, _, arrays⟩, grows,
    reaches⟩ := fills
  obtain rfl : port = innerPort := by
    rw [Site.ofNode, outputs] at ported
    exact Option.some.inj ported
  have parameters : inner.parameters = (Site.ofNode id node options .subroutine).parameters :=
    grows.parameters_eq
  have parameterFits : List.Forall₂ (fun (parameter : Parameter) (window : ArrayRef) =>
      parameter.type = window.type ∧ parameter.length = window.length) inner.parameters
      (windows ++ [window]) :=
    parameters ▸ parameters_fit outputs windowFits typed length
  have locals := locals_eq_nil grows arrays
  have accepted : ∃ passed, List.Forall₂ (Passes activation.views) (windows ++ [window]) passed ∧
      inner.finish.Accepts machine passed := ready.exists_accepts checked parameterFits
  obtain ⟨passed, passes, accepts⟩ := accepted
  have views : (program.activation host depth inner.finish passed machine.heap.size).views =
      passed.toArray := Program.views_activation locals
  have entered : (machine.enter inner.finish).heap = machine.heap := by
    simp [Machine.enter, locals]
  have unextended : ∀ slot, ¬Builder.Fresh
      (.start name (Site.ofNode id node options .subroutine).parameters) inner slot := by
    rintro slot ⟨above, below⟩
    exact absurd (arrays ▸ below) (Nat.not_lt.mpr above)
  have innerReady : inner.Ready passed.toArray (machine.enter inner.finish) := by
    refine ready.of_passes checked passes ?_ parameterFits (by simp [Machine.enter, Builder.finish])
      entered
    rw [parameters]
    exact arrays
  have count : windows.length = node.inputs.length := windowFits.length_eq.symm
  have last : (windows ++ [window])[windows.length]? = some window := by simp
  obtain ⟨view, viewed, pass⟩ := exists_getElem?_left passes last
  have innerReads : (Site.ofNode id node options .subroutine).ReadsInputs later.scope passed.toArray
      machine.heap readable inputs := by
    intro index buffer inputAt element scalar got
    obtain ⟨shown, shownAt, shows⟩ := exists_getElem?_right shows inputAt
    obtain ⟨bound, _⟩ := List.getElem?_eq_some_iff.mp shownAt
    obtain ⟨seen, seenAt, passes⟩ :=
      exists_getElem?_left passes ((List.getElem?_append_left bound).trans shownAt)
    have below : element < shown.length := by
      rw [shows.length_eq]
      exact Buffer.lt_size_of_get?_eq_some got
    exact (passes.holds_iff (by simpa using seenAt) below).mpr (shows.holds element scalar got)
  have evaluates : (Site.ofNode id node options .subroutine).Evaluates node later.scope
      passed.toArray machine.heap readable result.item :=
    ⟨inputs, result, feeds, computed, unambiguous, innerReads,
      fun element below => Buffer.get?_eq_item below⟩
  have outputViewed : passed.toArray[output.array]? = some view := by
    rw [array, List.getElem?_toArray]
    exact count ▸ viewed
  have innerPlaced : ∀ other, passed.toArray[output.array]? = some other → other.slot = slot := by
    intro other otherViewed
    obtain rfl := Option.some.inj (outputViewed.symm.trans otherViewed)
    obtain ⟨parent, parentViewed, _, rfl⟩ := pass
    exact placed parent parentViewed
  have types : ∀ element < port.size, (result.item element).type = port.type := by
    intro element below
    rw [← fitted.2] at below
    exact (Buffer.type_item below).trans fitted.1
  have ran : (program.activation host depth inner.finish passed machine.heap.size).Reaches
      inner.finish.body 0 (· ≠ slot) (machine.enter inner.finish) fun later =>
        Filled passed.toArray later.heap slot output port.size result.item := by
    rw [body_finish grows, ← views]
    refine (reaches (views ▸ innerReady) (views ▸ innerPlaced) unread
      (fun array _ new => absurd new (unextended array)) types ?_).mono (Nat.zero_le _)
      (fun other different => ⟨different, unextended other⟩) fun _ _ filled => filled
    rw [views, entered]
    exact evaluates
  refine (Activation.reaches_call
    (fun heap => Filled passed.toArray heap slot output port.size result.item) calls found passes
    accepts locals ran).mono (Nat.le_refl _) (fun _ different => different) fun later _ filled => ?_
  refine ⟨typed.trans fitted.1.symm, length.trans fitted.2.symm, fun index scalar got => ?_⟩
  have below : index < port.size := fitted.2 ▸ Buffer.lt_size_of_get?_eq_some got
  have holds := filled index below
  rw [Buffer.item_of_get?_eq_some got, offset, Nat.zero_add] at holds
  exact (pass.holds_iff outputViewed (length ▸ below)).mp holds

/-- A node whose code stands in a routine of its own.  That routine reads and writes windows of
the arrays that the entry routine has gathered and declared for it. -/
theorem computes_of_lowerSubroutine {port : OutputPort} {done : Unit}
    (outputs : node.outputs = [port])
    (lowered : ∀ {start finish : Builder × Lowering} {done : Unit},
      Succeeds (node.operator.lower (Site.ofNode id node options .subroutine)) start done finish →
      (Site.ofNode id node options .subroutine).Fills start finish
        ((Site.ofNode id node options .subroutine).Evaluates node))
    (emitted : Succeeds (lowerSubroutine options id node) before done after) :
    node.Computes id before after := by
  obtain ⟨windows, between, subroutine, own, defined, gathered, inner, defines, checked, builder,
    scope, program⟩ := of_lowerSubroutine outputs emitted
  obtain ⟨sameOwn, windowFits, code, grows, gathers⟩ := of_gatherAll gathered
  obtain ⟨innerPort, output, body, ported, typed, offset, length, keepsProgram,
    ⟨array, innerScope, arrays⟩, innerGrows, fills⟩ := lowered inner
  obtain rfl : port = innerPort := by
    rw [Site.ofNode, outputs] at ported
    exact Option.some.inj ported
  have declares : between.1.Grows [] (between.1.withArray (.scratch port.type port.size)) :=
    .withArray _ _
  have pushed := Builder.Grows.push (between.1.withArray (.scratch port.type port.size))
    (.call (.routine (options.functionName ++ s!"_node_{id}"))
      ((windows ++ [(⟨between.1.arrays.size, port.type, 0, port.size⟩ : ArrayRef)]).map
        fun window => .window window.array window.offset window.length))
  rw [← builder] at pushed
  have calls := declares.trans pushed
  have size : after.1.arrays.size = between.1.arrays.size + 1 := by
    simp [builder, Builder.withArray]
  have fresh : before.1.Fresh after.1 between.1.arrays.size :=
    ⟨grows.arrays_le, by rw [size]; exact Nat.lt_succ_self _⟩
  refine ⟨⟨between.1.arrays.size, port.type, 0, port.size⟩, _, fresh, ?_, ?_, grows.trans calls, ?_⟩
  · rw [scope, innerScope, sameOwn]
  · have kept : own.program = before.2.program := by rw [keepsProgram, sameOwn]
    rw [program, ← kept]
    exact Program.extends_of_define defines
  intro activation final host depth machine readable inputs result called extended ready apart supplies
    computed unambiguous fits
  have fitted : result.Fits port := fits port (by simp [outputs])
  refine ((gathers (ready.of_grows calls) (apart.left calls) supplies).mono (Nat.le_refl _)
    (fun _ old earlier => old (earlier.mono_right calls)) fun _ _ shows => shows).append
    fun middle frame shows => ?_
  have placed : ∀ view, activation.views[between.1.arrays.size]? = some view →
      view.slot = between.1.arrays.size := fun view viewed => (apart _ view fresh viewed).1
  have unread : ¬(readable between.1.arrays.size ∨
      before.1.Fresh between.1 between.1.arrays.size) := by
    rintro (read | earlier)
    · exact apart.not_fresh ready read fresh
    · exact absurd earlier.2 (Nat.lt_irrefl _)
  have found : final.routine? (options.functionName ++ s!"_node_{id}") = some subroutine.finish := by
    have name : subroutine.name = options.functionName ++ s!"_node_{id}" := innerGrows.name_eq
    rw [program] at extended
    exact extended.routine? (name ▸ Program.routine?_of_define defines)
  refine (reaches_subroutine outputs
    ⟨port, output, body, ported, typed, offset, length, keepsProgram, ⟨array, innerScope, arrays⟩,
      innerGrows, fills⟩ found called
    ((ready.frame frame).of_grows pushed) checked windowFits rfl rfl placed unread
    shows (supplies.imp fun _ _ supply => supply.feeds).flip computed unambiguous fitted).mono
    (Nat.le_refl _) (fun other old same => old (same ▸ fresh)) fun later _ shown => ?_
  exact shown.mono fun slot same => same ▸ fresh

end Computing

end Dataflow
