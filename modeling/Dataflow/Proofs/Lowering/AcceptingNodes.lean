import Dataflow.Proofs.Lowering.Accepting
import Dataflow.Proofs.Lowering.Nodes

/-!
# Nodes that are accepted

Where the ports that a node reads are in the scope, its lowering succeeds, in place or to a routine
of its own, and puts the port of the node into the scope.  Only a node without code is refused.
-/

namespace Dataflow

/-! ## Code of operators -/

section Operators

variable {id : NodeId} {node : Node} {options : CompilerOptions} {placement : Placement}
  {before : Builder × Lowering}

/-- Code that can stand inside the entry routine or in a routine of its own is accepted in both
places. -/
theorem Node.Standard.fulfils_lower (standard : node.Standard)
    (compilable : node.capabilities.compilable = true)
    (separable : node.capabilities.inline ≠ .required) {port : OutputPort}
    (outputs : node.outputs = [port])
    (opens : (Site.ofNode id node options placement).Open port before)
    (supplied : (Site.ofNode id node options placement).Supplied before.2.scope before.1)
    (earlier : ∀ input ∈ node.inputs, ∀ coordinate ∈ input.elements, coordinate.node ≠ id) :
    (Site.ofNode id node options placement).Fulfils port
      (node.operator.lower (Site.ofNode id node options placement)) before := by
  have ported : (Site.ofNode id node options placement).outputs[0]? = some port := by
    simp [Site.ofNode, outputs]
  have others : ∀ input ∈ (Site.ofNode id node options placement).inputs,
      ∀ coordinate ∈ input.elements,
        coordinate.output ≠ (Site.ofNode id node options placement).port 0 :=
    fun input mem coordinate coordinateMem same =>
      earlier input mem coordinate coordinateMem (congrArg OutputRef.node same)
  cases standard with
  | input | constant | concatenation | sink => exact absurd rfl separable
  | coordinatewise | hamming => exact absurd compilable Bool.false_ne_true
  | arithmetic type op left right same =>
      obtain rfl := List.singleton_inj.mp outputs
      refine Site.fulfils_elementwise (fun leftTyped rightTyped =>
        Emit.passes_binary type leftTyped rightTyped) (fun index below => ?_) ported rfl
        (size_vector _ _ _) opens supplied others
      obtain rfl | rfl : index = 0 ∨ index = 1 := by omega
      · exact ⟨_, rfl, rfl, rfl⟩
      · exact ⟨_, rfl, same.symm, rfl⟩
  | comparison type predicate left right same =>
      obtain rfl := List.singleton_inj.mp outputs
      have accepts : Site.Accepts (Emit.compare predicate) type.toScalarType .bool :=
        fun leftTyped rightTyped => Emit.passes_compare leftTyped rightTyped
      refine Site.fulfils_elementwise accepts (fun index below => ?_) ported rfl
        (size_vector _ _ _) opens supplied others
      obtain rfl | rfl : index = 0 ∨ index = 1 := by omega
      · exact ⟨_, rfl, rfl, rfl⟩
      · exact ⟨_, rfl, same.symm, rfl⟩
  | sum type groups =>
      obtain rfl := List.singleton_inj.mp outputs
      refine Site.fulfils_of_passes ported opens supplied others
        fun output between writable typed length supplied => ?_
      refine Site.passes_sums supplied (fun index port found => ?_) writable typed ?_
      · refine ⟨by simpa using found, ?_⟩
        simp only [Site.ofNode, inputs_sum, List.getElem?_map, Option.map_eq_some_iff] at found
        obtain ⟨elements, _, rfl⟩ := found
        rfl
      · simpa [Site.ofNode] using length

end Operators

/-! ## Ports in the scope -/

/-- The elements of the ports of a node can be read. -/
def Scope.Houses (scope : Scope) (builder : Builder) (id : NodeId) (node : Node) : Prop :=
  ∀ (index : Nat) (port : OutputPort), node.outputs[index]? = some port →
    scope.isBound ⟨id, index⟩ = true ∧
      ∀ element < port.size, scope.Finds builder port.type ⟨id, index, element⟩

/-- The name of the routine of a node. -/
def CompilerOptions.subroutine (options : CompilerOptions) (id : NodeId) : String :=
  options.functionName ++ s!"_node_{id}"

/-- What an accepted node leaves: its ports are in the scope, those of other nodes are where they
were, and at most one routine was added, under the name for this node. -/
structure Houses (options : CompilerOptions) (id : NodeId) (node : Node)
    (before after : Builder × Lowering) : Prop where
  continues : before.1.Continues after.1
  houses : after.2.scope.Houses after.1 id node
  others : ∀ port : OutputRef, port.node ≠ id →
    after.2.scope.binding? port = before.2.scope.binding? port
  routines : ∀ routine ∈ after.2.program.routines,
    routine ∈ before.2.program.routines ∨ routine.name = options.subroutine id

section Ports

variable {id : NodeId} {node : Node} {options : CompilerOptions} {before after : Builder × Lowering}
  {port : OutputPort}

theorem Scope.Houses.continues {scope : Scope} {builder later : Builder}
    (houses : scope.Houses builder id node) (continues : builder.Continues later) :
    scope.Houses later id node :=
  fun index port ported =>
    ⟨(houses index port ported).1, fun element below =>
      continues.scopeFinds ((houses index port ported).2 element below)⟩

/-- Ports that are bound as before are as readable as before. -/
theorem Scope.Houses.congr {scope later : Scope} {builder : Builder}
    (houses : scope.Houses builder id node)
    (same : ∀ index, later.binding? ⟨id, index⟩ = scope.binding? ⟨id, index⟩) :
    later.Houses builder id node := by
  intro index port ported
  obtain ⟨bound, finds⟩ := houses index port ported
  refine ⟨by rw [Scope.isBound, same]; exact bound, fun element below => ?_⟩
  obtain ⟨location, located, found⟩ := finds element below
  refine ⟨location, ?_, found⟩
  rw [Scope.locate] at located ⊢
  exact (same index).symm ▸ located

/-- The only port of a node is bound to a window. -/
theorem Scope.houses_of_array {scope : Scope} {builder : Builder} {window : ArrayRef}
    (bound : scope.binding? ⟨id, 0⟩ = some (.array window)) (outputs : node.outputs = [port])
    (fits : builder.Fits window port.type port.size) : scope.Houses builder id node := by
  intro index other ported
  obtain ⟨rfl, rfl⟩ : index = 0 ∧ port = other := by
    rw [outputs] at ported
    simpa [List.getElem?_singleton, eq_comm] using ported
  refine ⟨by simp [isBound, bound], fun element below => ?_⟩
  refine ⟨⟨window, element⟩, ?_, _, fits, below⟩
  have room : element < window.length := by
    rw [fits.2.2]
    exact below
  simp [locate, bound, Coordinate.output, PortBinding.locate, room]

/-- The only port of a node is another name for elements. -/
theorem Scope.houses_scattered {scope : Scope} {builder : Builder} {locations : List Location}
    (outputs : node.outputs = [port]) (length : locations.length = port.size)
    (finds : ∀ location ∈ locations, builder.Finds port.type location) :
    (scope.bind ⟨id, 0⟩ (.scattered locations)).Houses builder id node := by
  intro index other ported
  obtain ⟨rfl, rfl⟩ : index = 0 ∧ port = other := by
    rw [outputs] at ported
    simpa [List.getElem?_singleton, eq_comm] using ported
  refine ⟨by simp [isBound], fun element below => ?_⟩
  obtain ⟨location, found⟩ : ∃ location, locations[element]? = some location :=
    ⟨_, List.getElem?_eq_getElem (length ▸ below)⟩
  refine ⟨location, ?_, finds location (List.mem_of_getElem? found)⟩
  simp [locate, Coordinate.output, PortBinding.locate, found]

/-- Code that fulfils a site inside the entry routine houses the port. -/
theorem houses_of_fulfils (outputs : node.outputs = [port]) {action : Lower Unit}
    (fulfils : (Site.ofNode id node options .inline).Fulfils port action before) :
    ∃ after, Succeeds action before () after ∧ Houses options id node before after := by
  obtain ⟨after, ran, continues, program, output, scope, fits⟩ := fulfils
  refine ⟨after, ran, continues, ?_, fun other different => ?_, fun routine mem => .inl (program ▸ mem)⟩
  · rw [scope]
    exact Scope.houses_of_array (Scope.binding?_bind _ _ _) outputs fits
  · rw [scope]
    exact Scope.binding?_bind_of_node_ne different

end Ports

/-! ## Routines of their own -/

section Subroutines

variable {σ : Type} {id : NodeId} {node : Node} {options : CompilerOptions}
  {before : Builder × Lowering} {port : OutputPort}

theorem Emit.succeeds_inRoutine {routine inner : Builder} {action : Emit σ Unit}
    {start : Builder × σ} {own : σ} (ran : Succeeds action (routine, start.2) () (inner, own)) :
    Succeeds (inRoutine routine action) start inner (start.1, own) := by
  have same : outcome action (routine, start.2) = (.ok (), inner, own) := ran
  unfold Succeeds
  rw [inRoutine, outcome_bind_of_succeeds (succeeds_get_iff.mpr ⟨rfl, rfl⟩)]
  simp only [outcome] at same
  simp only [same]
  rfl

theorem Lower.succeeds_scope_bind {α : Type} {next : Scope → Lower α} {value : α}
    {after : Builder × Lowering} (ran : Succeeds (next before.2.scope) before value after) :
    Succeeds (Lower.scope >>= next) before value after :=
  ran

/-- All inputs of a node can be gathered. -/
theorem passes_gatherAll {ports : List InputPort}
    (finds : ∀ port ∈ ports, ∀ coordinate ∈ port.elements,
      before.2.scope.Finds before.1 port.type coordinate) :
    (ports.mapM fun port => do
      (← Lower.scope).gather port.elements port.type : Lower (List ArrayRef)).Passes
      Lowering.Agrees before
      fun windows builder => ∀ window ∈ windows, builder.checkArray window = .ok () := by
  induction ports generalizing before with
  | nil => exact Emit.passes_pure (by simp)
  | cons port ports ih =>
      obtain ⟨here, others⟩ := List.forall_mem_cons.mp finds
      have first : (do (← Lower.scope).gather port.elements port.type : Lower ArrayRef).Passes
          Lowering.Agrees before
          fun window builder => builder.Fits window port.type port.elements.length :=
        Scope.passes_gather here
      rw [List.mapM_cons]
      refine first.bind fun window one oneOn oneKept fits => ?_
      have later : ∀ port ∈ ports, ∀ coordinate ∈ port.elements,
          one.2.scope.Finds one.1 port.type coordinate := fun port mem coordinate coordinateMem =>
        oneKept.scope_eq ▸ oneOn.scopeFinds (others port mem coordinate coordinateMem)
      refine (ih later).bind fun windows two twoOn _ checked => Emit.passes_pure ?_
      exact List.forall_mem_cons.mpr ⟨twoOn.checkArray fits.1, checked⟩

/-- The parameters of a subroutine are what its code reads. -/
theorem supplied_start (name : String) (scope : Scope) :
    (Site.ofNode id node options .subroutine).Supplied scope
      (.start name (Site.ofNode id node options .subroutine).parameters) := by
  intro index port ported
  have listed : (Site.ofNode id node options .subroutine).parameters[index]? =
      some ⟨s!"in_{index}", port.type, port.size⟩ := by
    obtain ⟨bound, _⟩ := List.getElem?_eq_some_iff.mp ported
    rw [Site.parameters, List.getElem?_append_left (by simpa using bound), List.getElem?_mapIdx,
      ported, Option.map_some]
  exact (Builder.writable_start listed).1

/-- The last parameter of a subroutine is what its code writes. -/
theorem open_start (outputs : node.outputs = [port]) (name : String) (lowering : Lowering) :
    (Site.ofNode id node options .subroutine).Open port
      (.start name (Site.ofNode id node options .subroutine).parameters, lowering) := by
  have listed : (Site.ofNode id node options .subroutine).parameters[node.inputs.length]? =
      some ⟨"out_0", port.type, port.size⟩ := by
    rw [Site.parameters, List.getElem?_append_right (by simp [Site.ofNode])]
    simp [Site.ofNode, outputs]
    rfl
  exact Builder.writable_start listed

/-- A node without a place is lowered to a routine of its own, if there is none of its name. -/
theorem exists_lowerSubroutine (standard : node.Standard)
    (compilable : node.capabilities.compilable = true)
    (separable : node.capabilities.inline ≠ .required) (outputs : node.outputs = [port])
    (finds : ∀ input ∈ node.inputs, ∀ coordinate ∈ input.elements,
      before.2.scope.Finds before.1 input.type coordinate)
    (earlier : ∀ input ∈ node.inputs, ∀ coordinate ∈ input.elements, coordinate.node ≠ id)
    (free : ∀ routine ∈ before.2.program.routines, routine.name ≠ options.subroutine id) :
    ∃ after, Succeeds (lowerSubroutine options id node) before () after ∧
      Houses options id node before after := by
  obtain ⟨windows, one, gathered, oneOn, oneKept, checked⟩ := passes_gatherAll finds
  let window : ArrayRef := ⟨one.1.arrays.size, port.type, 0, port.size⟩
  let caller := one.1.withArray (.scratch port.type port.size)
  let bound : Lowering := { one.2 with scope := one.2.scope.bindArray ⟨id, 0⟩ window }
  let start := Builder.start (options.subroutine id)
    (Site.ofNode id node options .subroutine).parameters
  have callerOn : one.1.Continues caller := .of_grows (.withArray _ _)
  have fits : caller.Fits window port.type port.size :=
    ⟨(one.1.writable_withArray port.type port.size).1, rfl, rfl⟩
  obtain ⟨inner, ran, innerOn, program, scope⟩ : (Site.ofNode id node options .subroutine).Fulfils
      port (node.operator.lower (Site.ofNode id node options .subroutine)) (start, bound) :=
    standard.fulfils_lower compilable separable outputs (open_start outputs _ _)
      (supplied_start _ _) earlier
  have absent : one.2.program.routine? (options.subroutine id) = none := by
    rw [oneKept.program_eq, Program.routine?, List.find?_eq_none]
    exact fun routine mem same => free routine mem (of_decide_eq_true same)
  have defines : inner.2.program.define inner.1 =
      .ok ⟨before.2.program.routines ++ [inner.1.finish]⟩ := by
    refine Program.define_eq_ok_iff.mpr ⟨?_, ?_⟩
    · rw [innerOn.name_eq, program]
      exact absent
    · rw [program]
      exact congrArg (fun same : Program => Program.mk (same.routines ++ [inner.1.finish]))
        oneKept.program_eq.symm
  let defined : Lowering := { inner.2 with
    program := ⟨before.2.program.routines ++ [inner.1.finish]⟩ }
  have passable : ∀ given ∈ windows ++ [window], caller.checkArray given = .ok () := by
    intro given mem
    rcases List.mem_append.mp mem with input | output
    · exact callerOn.checkArray (checked given input)
    · exact List.mem_singleton.mp output ▸ fits.1
  obtain ⟨⟨⟩, called, calls, calledOn, calledKept, _⟩ :
      (Emit.call (.routine (options.subroutine id)) ((windows ++ [window]).map .array)).Passes
        Lowering.Agrees (caller, defined) Emit.Done := Emit.passes_call passable
  refine ⟨(called.1, { called.2 with subroutines := called.2.subroutines.push id }), ?_, ?_⟩
  · simp only [lowerSubroutine, outputs, declareOutputs, succeeds_bind_iff,
      Emit.succeeds_declareArray_iff, Lower.succeeds_scope_iff, Lower.succeeds_setScope_iff,
      Emit.succeeds_own_iff, Emit.succeeds_check_iff, Emit.succeeds_modifyOwn_iff, succeeds_pure_iff]
    have routine : Succeeds (Emit.inRoutine start _) (caller, bound) inner.1 (caller, inner.2) :=
      Emit.succeeds_inRoutine ran
    exact ⟨windows, one, gathered, [window], (caller, bound),
      ⟨_, _, ⟨rfl, rfl⟩, _, _, ⟨rfl, rfl⟩, (), _, rfl, [], _, ⟨rfl, rfl⟩, rfl, rfl⟩,
      _, _, ⟨rfl, rfl⟩, start, _, ⟨Program.declare_eq_ok_iff.mpr ⟨absent, rfl⟩, rfl⟩, _, _, routine,
      _, _, ⟨rfl, rfl⟩, _, _, ⟨defines, rfl⟩, (), _, rfl, (), called, calls, rfl⟩
  · have through : one.1.Continues called.1 := callerOn.trans calledOn
    have placed : called.2.scope = before.2.scope.bindArray ⟨id, 0⟩ window := by
      rw [calledKept.scope_eq]
      exact scope.trans (congrArg (Scope.bindArray · ⟨id, 0⟩ window) oneKept.scope_eq)
    refine ⟨oneOn.trans through, ?_, fun other different => ?_, fun routine mem => ?_⟩
    · simp only [placed]
      exact Scope.houses_of_array (Scope.binding?_bind _ _ _) outputs (calledOn.fits fits)
    · simp only [placed]
      exact Scope.binding?_bind_of_node_ne different
    · have mem : routine ∈ before.2.program.routines ++ [inner.1.finish] := by
        simpa only [calledKept.program_eq] using mem
      rcases List.mem_append.mp mem with old | new
      · exact .inl old
      · exact .inr (List.mem_singleton.mp new ▸ innerOn.name_eq)

end Subroutines

/-! ## All nodes -/

section Nodes

variable {id : NodeId} {node : Node} {options : CompilerOptions} {before : Builder × Lowering}

/-- A node is lowered as far as its own code is. -/
theorem exists_lowerNode_of_code (compilable : node.capabilities.compilable = true)
    (inline : ∃ after, Succeeds (node.operator.lower (Site.ofNode id node options .inline)) before ()
      after ∧ Houses options id node before after)
    (separate : node.capabilities.inline ≠ .required →
      ∃ after, Succeeds (lowerSubroutine options id node) before () after ∧
        Houses options id node before after) :
    ∃ after, Succeeds (lowerNode options id node) before () after ∧
      Houses options id node before after := by
  have bound : ∀ {after : Builder × Lowering}, Houses options id node before after →
      Succeeds (checkBound id node) after () after := by
    intro after houses
    have none_free : ((List.range node.outputs.length).map fun index =>
        (⟨id, index⟩ : OutputRef)).find? (!after.2.scope.isBound ·) = none := by
      rw [List.find?_eq_none]
      intro port mem
      obtain ⟨index, below, rfl⟩ := List.mem_map.mp mem
      have ported := List.getElem?_eq_getElem (List.mem_range.mp below)
      simp [(houses.houses index _ ported).1]
    simp only [checkBound, succeeds_bind_iff, Lower.succeeds_scope_iff]
    refine ⟨_, _, ⟨rfl, rfl⟩, ?_⟩
    rw [none_free]
    exact succeeds_pure_iff.mpr ⟨rfl, rfl⟩
  unfold lowerNode
  simp only [compilable, Bool.not_true, Bool.false_eq_true, if_false]
  split
  · obtain ⟨after, ran, houses⟩ := inline
    exact ⟨after, succeeds_bind_iff.mpr ⟨_, _, ran, bound houses⟩, houses⟩
  · rename_i outside
    obtain ⟨after, ran, houses⟩ := separate fun required => outside (by rw [required]; rfl)
    exact ⟨after, succeeds_bind_iff.mpr ⟨_, _, ran, bound houses⟩, houses⟩

/-- A node without code is refused by its id and type name. -/
theorem outcome_lowerNode_of_refineOnly (refused : node.capabilities.compilable = false) :
    outcome (lowerNode options id node) before =
      (.error (.uncompilableNode id node.typeName), before) := by
  unfold lowerNode
  simp only [refused, Bool.not_false, if_true]
  rfl

/-- The code of a sink is accepted, and the sink has the places of its input then. -/
theorem exists_lower_sink {type : ScalarType} {name : String} {notifies : Bool}
    {input trigger : Elements} (single : trigger.length = 1)
    (finds : ∀ port ∈ Node.inputs ⟨.sink type name input.length notifies, [input, trigger]⟩,
      ∀ coordinate ∈ port.elements, before.2.scope.Finds before.1 port.type coordinate) :
    ∃ after, Succeeds (Operator.lower
        (Site.ofNode id ⟨.sink type name input.length notifies, [input, trigger]⟩ options .inline)
        (.sink type name input.length notifies)) before () after ∧
      Houses options id ⟨.sink type name input.length notifies, [input, trigger]⟩ before after := by
  have supplied : (Site.ofNode id ⟨.sink type name input.length notifies, [input, trigger]⟩ options
      .inline).Supplied before.2.scope before.1 :=
    fun index port ported => finds port (List.mem_of_getElem? ported)
  let node : Node := ⟨.sink type name input.length notifies, [input, trigger]⟩
  have triggered : node.inputs[1]? = some ⟨"trigger", .bool, trigger⟩ := rfl
  have handed : node.inputs[0]? = some ⟨"input", type, input⟩ := rfl
  have first : 0 < InputPort.size ⟨"trigger", .bool, trigger⟩ := by
    rw [InputPort.size, single]
    exact Nat.one_pos
  obtain ⟨condition, one, loaded, oneOn, oneKept, conditionTyped⟩ :=
    Site.passes_inputElement supplied triggered first
  obtain ⟨values, two, collected, twoOn, twoKept, checked, _⟩ :=
    Site.passes_inputArray (oneKept.scope_eq ▸ supplied.continues oneOn) handed
  obtain ⟨⟨⟩, three, branched, threeOn, threeKept, _⟩ :
      (Emit.branch condition (Emit.call (.host name) ([values].map .array))).Passes
        Lowering.Agrees two Emit.Done := by
    refine Emit.passes_branch (twoOn.values _ _ conditionTyped) fun inner innerOn _ => ?_
    exact Emit.passes_call (List.forall_mem_singleton.mpr (innerOn.checkArray checked))
  have through := (oneOn.trans twoOn).trans threeOn
  have agrees : before.2.Agrees three.2 := (oneKept.trans twoKept).trans threeKept
  obtain ⟨locations, located, length, found⟩ : ∃ locations,
      three.2.scope.locateAll input = .ok locations ∧ locations.length = input.length ∧
        ∀ location ∈ locations, three.1.Finds type location :=
    Scope.exists_locateAll fun coordinate mem => agrees.scope_eq ▸
      through.scopeFinds (finds _ List.mem_cons_self coordinate mem)
  let last : Builder × Lowering :=
    (three.1, { three.2 with scope := three.2.scope.bind ⟨id, 0⟩ (.scattered locations) })
  have named : Succeeds ((Site.ofNode id node options .inline).bindOutputAlias 0 input) three ()
      last := Site.succeeds_bindOutputAlias rfl rfl (size_vector _ _ _).symm located
  refine ⟨last, ?_, through, Scope.houses_scattered rfl
    (length.trans (size_vector _ _ _).symm) found, fun other different => ?_,
    fun routine mem => .inl (agrees.program_eq ▸ mem)⟩
  · exact succeeds_bind_iff.mpr ⟨_, _, loaded, succeeds_bind_iff.mpr ⟨_, _, collected,
      succeeds_bind_iff.mpr ⟨_, _, branched, named⟩⟩⟩
  · rw [← agrees.scope_eq]
    exact Scope.binding?_bind_of_node_ne different

/-- A standard node with code is accepted when everything that it reads is in the scope.  An input
node has to have its place already, other nodes must not have one. -/
theorem Node.Standard.exists_lowerNode (standard : node.Standard)
    (compilable : node.capabilities.compilable = true)
    (finds : ∀ input ∈ node.inputs, ∀ coordinate ∈ input.elements,
      before.2.scope.Finds before.1 input.type coordinate)
    (earlier : ∀ input ∈ node.inputs, ∀ coordinate ∈ input.elements, coordinate.node ≠ id)
    (given : node.capabilities.input = true → before.2.scope.Houses before.1 id node)
    (unbound : node.capabilities.input = false → before.2.scope.binding? ⟨id, 0⟩ = none)
    (free : ∀ routine ∈ before.2.program.routines, routine.name ≠ options.subroutine id) :
    ∃ after, Succeeds (lowerNode options id node) before () after ∧
      Houses options id node before after := by
  have supplied : (Site.ofNode id node options .inline).Supplied before.2.scope before.1 :=
    fun index port ported => finds port (List.mem_of_getElem? ported)
  -- Nodes that compute can stand anywhere; each of the others has code for the entry routine.
  have computes : ∀ {port : OutputPort}, node.outputs = [port] → node.capabilities.input = false →
      node.capabilities.inline ≠ .required →
      ∃ after, Succeeds (lowerNode options id node) before () after ∧
        Houses options id node before after := fun outputs inner separable =>
    exists_lowerNode_of_code compilable
      (houses_of_fulfils outputs (standard.fulfils_lower compilable separable outputs (unbound inner)
        supplied earlier))
      fun _ => exists_lowerSubroutine standard compilable separable outputs finds earlier free
  cases standard with
  | coordinatewise | hamming => exact absurd compilable Bool.false_ne_true
  | arithmetic => exact computes rfl rfl nofun
  | comparison => exact computes rfl rfl nofun
  | sum => exact computes rfl rfl nofun
  | input type size =>
      have houses := given rfl
      have bound : before.2.scope.isBound ⟨id, 0⟩ = true := (houses 0 _ rfl).1
      refine exists_lowerNode_of_code compilable ⟨before, ?_, .refl _, houses, fun _ _ => rfl,
        fun _ mem => .inl mem⟩ (absurd rfl)
      have asked : Succeeds ((Site.ofNode id (.input type size) options .inline).outputIsBound 0)
          before true before :=
        Lower.succeeds_scope_bind (succeeds_pure_iff.mpr ⟨bound.symm, rfl⟩)
      exact succeeds_bind_iff.mpr ⟨true, before, asked, rfl⟩
  | constant values shape fits =>
      refine exists_lowerNode_of_code compilable ?_ (absurd rfl)
      have declares : Succeeds (Emit.declareConstant values : Lower ArrayRef) before
          ⟨before.1.arrays.size, values.type, 0, values.size⟩
          (before.1.withArray (.constant values), before.2) :=
        Emit.succeeds_declareConstant_iff.mpr ⟨rfl, rfl⟩
      refine ⟨_, succeeds_bind_iff.mpr ⟨_, _, declares,
        Site.succeeds_bindOutputArray rfl rfl fits.symm rfl⟩, .of_grows (.withArray _ _), ?_,
        fun _ different => Scope.binding?_bind_of_node_ne different, fun _ mem => .inl mem⟩
      exact Scope.houses_of_array (Scope.binding?_bind _ _ _) rfl
        ⟨before.1.checkArray_withArray (.constant values), rfl, fits.symm⟩
  | concatenation type shape input fits =>
      refine exists_lowerNode_of_code compilable ?_ (absurd rfl)
      obtain ⟨locations, located, length, found⟩ :=
        Scope.exists_locateAll (finds _ List.mem_cons_self)
      refine ⟨_, succeeds_bind_iff.mpr ⟨_, _, Emit.succeeds_check_iff.mpr ⟨rfl, rfl⟩,
        Site.succeeds_bindOutputAlias rfl rfl fits.symm located⟩, .refl _, ?_,
        fun _ different => Scope.binding?_bind_of_node_ne different, fun _ mem => .inl mem⟩
      exact Scope.houses_scattered rfl (length.trans fits.symm) found
  | sink type name notifies input trigger single =>
      exact exists_lowerNode_of_code compilable (exists_lower_sink single finds) (absurd rfl)

end Nodes

end Dataflow
