import Dataflow.Proofs.Lowering.Correctness
import Dataflow.Proofs.Lowering.SafeNodes

/-!
# Compiled programs are safe

The entry routine of a compiled program is safe code that calls only the routines of its nodes,
and these are safe code without calls.
-/

namespace Dataflow

/-! ## Routines of safe code -/

/-- A routine that was built by adding safe code is safe. -/
theorem Builder.Adds.finish {name : String} {parameters : List Parameter} {builder : Builder}
    {callees : String → List Parameter → Prop}
    (adds : (Builder.start name parameters).Adds callees [] ∅ builder ∅) :
    builder.name = name ∧ builder.parameters = parameters ∧ builder.finish.Safe callees := by
  obtain ⟨code, grows, safe⟩ := adds
  have body : builder.finish.body = code := body_finish grows
  have same : builder.parameters = parameters := grows.parameters_eq
  refine ⟨grows.name_eq, same, fun index parameter found => ?_, ?_⟩
  · have listed : parameters[index]? = some parameter := same ▸ found
    obtain ⟨bound, _⟩ := List.getElem?_eq_some_iff.mp listed
    have kept : builder.arrays[index]? = (Builder.start name parameters).arrays[index]? :=
      grows.getElem?_arrays (by simpa [start] using bound)
    change builder.arrays[index]? = _
    rw [kept]
    simp [start, listed]
  · rw [body]
    exact safe (by simp)

/-! ## Nodes -/

/-- What lowering a node with a number does to the routine and to the program: the routine grows by
safe code, and only ports of the node are bound. -/
structure Lowers (id : NodeId) (before after : Builder × Lowering) : Prop where
  extended : before.2.program.Extends after.2.program
  adds : ∀ program : Program, after.2.program.Extends program →
    before.1.Adds program.leaves [] ∅ after.1 ∅
  others : ∀ port : OutputRef, port.node ≠ id →
    after.2.scope.binding? port = before.2.scope.binding? port

section Nodes

variable {id : NodeId} {node : Node} {options : CompilerOptions} {before after : Builder × Lowering}
  {done : Unit}

theorem adds_gatherAll {ports : List InputPort} {windows : List ArrayRef}
    {callees : String → List Parameter → Prop} {counters : Counters} {known : Set ValueId}
    (emitted : Succeeds (ports.mapM fun port => do
      (← Lower.scope).gather port.elements port.type : Lower (List ArrayRef)) before windows after) :
    before.1.Adds callees counters known after.1 known := by
  induction ports generalizing before windows with
  | nil =>
      obtain ⟨_, rfl⟩ := succeeds_pure_iff.mp emitted
      exact .refl _ _
  | cons port ports ih =>
      simp only [List.mapM_cons, succeeds_bind_iff, Lower.succeeds_scope_iff,
        succeeds_pure_iff] at emitted
      obtain ⟨_, between, ⟨_, before, ⟨rfl, rfl⟩, gathered⟩, _, _, others, rfl, rfl⟩ := emitted
      exact (Scope.adds_gather gathered).trans (ih others)

/-- The caller of the routine of a node gathers the inputs and passes windows that fit. -/
theorem adds_lowerSubroutine {port : OutputPort} (outputs : node.outputs = [port])
    (lowered : ∀ {start finish : Builder × Lowering} {done : Unit},
      Succeeds (node.operator.lower (Site.ofNode id node options .subroutine)) start done finish →
      start.1.Adds (fun _ _ => False) [] ∅ finish.1 ∅)
    (emitted : Succeeds (lowerSubroutine options id node) before done after) (program : Program)
    (extended : after.2.program.Extends program) :
    before.1.Adds program.leaves [] ∅ after.1 ∅ := by
  obtain ⟨windows, between, subroutine, own, defined, gathered, inner, defines, checked, builder,
    _, same⟩ := of_lowerSubroutine outputs emitted
  obtain ⟨_, windowFits, _⟩ := of_gatherAll gathered
  obtain ⟨name, parameters, safe⟩ := (lowered inner).finish
  have leaf : program.leaves (options.functionName ++ s!"_node_{id}")
      (Site.ofNode id node options .subroutine).parameters := by
    refine ⟨subroutine.finish, ?_, parameters, safe⟩
    rw [same] at extended
    exact extended.routine? (name ▸ Program.routine?_of_define defines)
  have declared : between.1.Adds program.leaves [] ∅
      (between.1.withArray (.scratch port.type port.size)) ∅ :=
    .of_grows (.withArray _ _) subset_rfl
  rw [builder]
  refine ((adds_gatherAll gathered).trans declared).trans (Builder.adds_push fun _ => ?_)
  exact .routine leaf (parameters_fit outputs windowFits rfl rfl)
    (fun window mem => Builder.contains_of_checkArray (checked window mem)) (.nil subset_rfl)

/-- A node that computes is lowered to safe code, in place or in a routine of its own. -/
theorem lowers_of_computes {port : OutputPort} (standard : node.Standard)
    (compilable : node.capabilities.compilable = true)
    (separable : node.capabilities.inline ≠ .required) (outputs : node.outputs = [port])
    (earlier : ∀ input ∈ node.inputs, ∀ coordinate ∈ input.elements, coordinate.node ≠ id)
    (unbound : before.2.scope.binding? ⟨id, 0⟩ = none)
    (lowered : Succeeds (node.operator.lower (.ofNode id node options .inline)) before () after ∨
      node.capabilities.inline ≠ .required ∧
        Succeeds (lowerSubroutine options id node) before () after) :
    Lowers id before after := by
  obtain ⟨_, _, _, scope, extended, _⟩ :=
    standard.computes compilable separable outputs earlier unbound lowered
  refine ⟨extended, fun program extending => ?_, fun port different => ?_⟩
  · rcases lowered with inline | ⟨_, subroutine⟩
    · exact standard.adds_lower compilable separable inline fun _ => unbound
    · exact adds_lowerSubroutine outputs
        (fun inner => standard.adds_lower compilable separable inner (by simp)) subroutine program
        extending
  · rw [scope]
    exact Scope.binding?_bind_of_node_ne different

/-- A sink in the entry routine calls the host where its trigger is set. -/
theorem adds_sink {name : String} {first second : Builder × Lowering} {trigger : ValueId}
    {window : ArrayRef} {callees : String → List Parameter → Prop}
    (loaded : Succeeds ((Site.ofNode id node options .inline).inputElement 1 0) before trigger first)
    (collected : Succeeds ((Site.ofNode id node options .inline).inputArray 0) first window second)
    (branched : Succeeds (Emit.branch trigger (Emit.call (.host name) [.array window])) second done
      after) : before.1.Adds callees [] ∅ after.1 ∅ := by
  refine Builder.Adds.weaken ?_ (Set.empty_subset {trigger})
  rw [← insert_empty_eq]
  refine ((Site.adds_inputElement loaded).trans (Site.adds_inputArray collected)).trans ?_
  exact Emit.adds_branch branched (Set.mem_insert trigger ∅) fun called => Emit.adds_host called

/-- Every standard node with code is lowered to safe code. -/
theorem lowers_of_lowerNode {model : Model} {entry : Entry} (wellFormed : model.WellFormed)
    (mem : entry ∈ model.entries) (standard : entry.node.Standard)
    (unbound : entry.node.capabilities.input = false →
      before.2.scope.binding? ⟨entry.id, 0⟩ = none)
    (emitted : Succeeds (lowerNode options entry.id entry.node) before done after) :
    Lowers entry.id before after := by
  have earlier : ∀ input ∈ entry.node.inputs, ∀ coordinate ∈ input.elements,
      coordinate.node ≠ entry.id := fun input inputMem coordinate coordinateMem =>
    Nat.ne_of_lt (wellFormed.provided entry mem input inputMem coordinate coordinateMem).1
  obtain ⟨compilable, lowered⟩ := of_lowerNode emitted
  obtain ⟨id, node, outputs⟩ := entry
  simp only at earlier unbound lowered
  cases standard with
  | coordinatewise | hamming => exact absurd compilable Bool.false_ne_true
  | arithmetic type op left right same =>
      exact lowers_of_computes (.arithmetic type op left right same) compilable nofun rfl earlier
        (unbound rfl) lowered
  | comparison type predicate left right same =>
      exact lowers_of_computes (.comparison type predicate left right same) compilable nofun rfl
        earlier (unbound rfl) lowered
  | sum type groups =>
      exact lowers_of_computes (.sum type groups) compilable nofun rfl earlier (unbound rfl) lowered
  | input type size =>
      rcases lowered with inline | ⟨impossible, _⟩
      · obtain rfl := of_input inline
        exact ⟨.refl _, fun _ _ => .refl _ _, fun _ _ => rfl⟩
      · exact absurd rfl impossible
  | constant values shape fits =>
      rcases lowered with inline | ⟨impossible, _⟩
      · simp only [Operator.lower, succeeds_bind_iff, Emit.succeeds_declareConstant_iff] at inline
        obtain ⟨_, _, ⟨rfl, rfl⟩, bound⟩ := inline
        obtain rfl := Site.of_bindOutputArray bound
        exact ⟨.refl _, fun _ _ => .of_grows (.withArray _ _) subset_rfl,
          fun _ different => Scope.binding?_bind_of_node_ne different⟩
      · exact absurd rfl impossible
  | concatenation type shape input fits =>
      rcases lowered with inline | ⟨impossible, _⟩
      · simp only [Operator.lower, succeeds_bind_iff, Emit.succeeds_check_iff] at inline
        obtain ⟨_, _, ⟨_, rfl⟩, bound⟩ := inline
        obtain ⟨_, _, rfl⟩ := Site.of_bindOutputAlias bound
        exact ⟨.refl _, fun _ _ => .refl _ _,
          fun _ different => Scope.binding?_bind_of_node_ne different⟩
      · exact absurd rfl impossible
  | sink type name notifies input trigger single =>
      rcases lowered with inline | ⟨impossible, _⟩
      · simp only [Operator.lower, succeeds_bind_iff, Emit.succeeds_check_iff] at inline
        obtain ⟨condition, first, loaded, window, second, collected, _, _, branched, port, third,
          ⟨_, rfl⟩, bound⟩ := inline
        obtain ⟨_, _, rfl⟩ := Site.of_bindOutputAlias bound
        obtain ⟨_, _, _, _, firstEq, _⟩ := Site.of_inputElement loaded
        obtain ⟨_, _, secondOwn, _⟩ := Site.of_inputArray collected
        obtain ⟨_, thirdOwn, _⟩ := of_branch_call branched
        have own : third.2 = before.2 := by rw [thirdOwn, secondOwn, firstEq]
        have adds : ∀ program : Program, before.1.Adds program.leaves [] ∅ third.1 ∅ :=
          fun _ => adds_sink loaded collected branched
        refine ⟨?_, fun program _ => adds program, fun _ different => ?_⟩
        · rw [own]
          exact .refl _
        · rw [← own]
          exact Scope.binding?_bind_of_node_ne different
      · exact absurd rfl impossible

/-- Lowering a node leaves the nodes after it without a place. -/
theorem Lowers.unbound {entry : Entry} {rest : List Entry} (lowers : Lowers entry.id before after)
    (fresh : entry.id ∉ rest.map Entry.id)
    (unbound : ∀ other ∈ entry :: rest, other.node.capabilities.input = false →
      before.2.scope.binding? ⟨other.id, 0⟩ = none) :
    ∀ other ∈ rest, other.node.capabilities.input = false →
      after.2.scope.binding? ⟨other.id, 0⟩ = none := by
  intro other otherMem inner
  rw [lowers.others _ fun equal => fresh (equal ▸ List.mem_map_of_mem otherMem)]
  exact unbound other (List.mem_cons_of_mem _ otherMem) inner

/-- The nodes of a model, one after another.  Lowering one of them does not bind the ports of the
others. -/
theorem adds_lowerNodes {model : Model} (wellFormed : model.WellFormed) (standard : model.Standard)
    {rest : List Entry} (subset : rest ⊆ model.entries) (distinct : (rest.map Entry.id).Nodup)
    (unbound : ∀ entry ∈ rest, entry.node.capabilities.input = false →
      before.2.scope.binding? ⟨entry.id, 0⟩ = none)
    (emitted : Succeeds (lowerNodes options rest) before done after) :
    before.2.program.Extends after.2.program ∧ ∀ program : Program,
      after.2.program.Extends program → before.1.Adds program.leaves [] ∅ after.1 ∅ := by
  induction rest generalizing before with
  | nil =>
      obtain ⟨_, rfl⟩ := succeeds_pure_iff.mp emitted
      exact ⟨.refl _, fun _ _ => .refl _ _⟩
  | cons entry rest ih =>
      simp only [lowerNodes, succeeds_bind_iff] at emitted
      obtain ⟨_, between, first, others⟩ := emitted
      obtain ⟨mem, subset⟩ := List.cons_subset.mp subset
      obtain ⟨fresh, distinct⟩ := List.nodup_cons.mp distinct
      have lowers := lowers_of_lowerNode wellFormed mem (standard entry mem)
        (unbound entry List.mem_cons_self) first
      obtain ⟨extended, adds⟩ := ih subset distinct (lowers.unbound fresh unbound) others
      exact ⟨lowers.extended.trans extended, fun program extending =>
        (lowers.adds program (extended.trans extending)).trans (adds program extending)⟩

end Nodes

/-! ## The entry routine -/

section Entry

variable {options : CompilerOptions} {before after : Builder × Lowering} {done : Unit}
  {callees : String → List Parameter → Prop} {known : Set ValueId}

/-- Requested elements are copied to a window that is as long. -/
theorem adds_copyOutput {elements : Elements} {target : ArrayRef}
    (emitted : Succeeds (copyOutput options elements target) before done after)
    (length : target.length = elements.length) :
    before.1.Adds callees [] known after.1 known := by
  simp only [copyOutput, succeeds_bind_iff, Lower.succeeds_scope_iff, Emit.succeeds_check_iff]
    at emitted
  obtain ⟨_, _, ⟨rfl, rfl⟩, covered, before, ⟨covers, rfl⟩, rest⟩ := emitted
  split at rest
  · rename_i source _
    obtain ⟨_, sourceLength, _⟩ := Scope.shows_of_contiguous covers
    refine Emit.adds_loop rest fun {inner} ran => ?_
    simp only [succeeds_bind_iff] at ran
    obtain ⟨value, _, loaded, stored⟩ := ran
    have inside : ∀ window : ArrayRef, window.length = elements.length →
        (Index.value before.1.valueTypes.size).Counted
          [(before.1.valueTypes.size, elements.length)] window.length :=
      fun window same => ⟨elements.length, List.mem_cons_self, Nat.le_of_eq same.symm⟩
    refine ⟨?_, target, Emit.checkArray_of_store stored, Nat.le_of_eq length.symm⟩
    refine Builder.Adds.weaken ?_ (Set.subset_insert value known)
    exact (Emit.adds_load loaded (inside source sourceLength)).trans
      (Emit.adds_store stored (inside target length) (Set.mem_insert value known))
  · exact Scope.adds_copyElements rest

theorem adds_copyOutputs {index : Nat} {requests : List (Parameter × Elements)}
    (emitted : Succeeds (copyOutputs options index requests) before done after)
    (lengths : ∀ request ∈ requests, request.1.length = request.2.length) :
    before.1.Adds callees [] known after.1 known ∧ after.2 = before.2 := by
  induction requests generalizing before index with
  | nil =>
      obtain ⟨_, rfl⟩ := succeeds_pure_iff.mp emitted
      exact ⟨.refl _ _, rfl⟩
  | cons request requests ih =>
      simp only [copyOutputs, succeeds_bind_iff] at emitted
      obtain ⟨_, between, copied, others⟩ := emitted
      obtain ⟨here, later⟩ := List.forall_mem_cons.mp lengths
      obtain ⟨adds, own⟩ := ih others later
      exact ⟨(adds_copyOutput copied here).trans adds, own.trans (of_copyOutput copied here).1⟩

/-- A compiled model runs a safe entry routine. -/
theorem CompiledModel.exists_entry {model : Model} {requests : List Elements}
    {compiled : CompiledModel} (sound : model.Sound) (standard : model.Standard)
    (compiles : (model.compile options requests).result = .ok compiled) :
    ∃ routine, compiled.program.routine? compiled.signature.routine = some routine ∧
      routine.parameters = compiled.signature.parameters ∧
      routine.Safe compiled.program.leaves := by
  obtain ⟨checked, builder, lowering, lowered, defined, _⟩ := compile_eq_ok_iff.mp compiles
  obtain ⟨_, describes⟩ := sound.wellFormed.describes_of_checkedSignature standard checked
  simp only [lowerEntry, succeeds_bind_iff, Lower.succeeds_setScope_iff] at lowered
  obtain ⟨_, _, rfl, _, between, nodes, copied⟩ := lowered
  have given := describes.capabilities_input sound.wellFormed rfl
  obtain ⟨_, adds⟩ := adds_lowerNodes sound.wellFormed standard (List.Subset.refl _)
    sound.wellFormed.ids_nodup (fun entry mem inner => binding?_bindInputs_of_inner given mem inner)
    nodes
  obtain ⟨copies, own⟩ := adds_copyOutputs copied describes.lengths
  have extended : between.2.program.Extends compiled.program := by
    rw [← own]
    exact Program.extends_of_define defined
  obtain ⟨name, parameters, safe⟩ := ((adds _ extended).trans copies).finish
  exact ⟨builder.finish, name ▸ Program.routine?_of_define defined, parameters, safe⟩

end Entry

end Dataflow
