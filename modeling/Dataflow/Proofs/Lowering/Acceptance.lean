import Dataflow.Proofs.Lowering.AcceptingNodes
import Dataflow.Proofs.Lowering.Requests

/-!
# What compiles

A model compiles exactly when every requested coordinate exists, the coordinates of each request
have one type, and every node has code.  Faults of the requests are found first; after that only a
node without code can stop the compilation, and the first one does.
-/

namespace Dataflow

/-! ## Nodes in creation order -/

/-- How far the lowering of a model has come: the ports of the nodes that are done and of the input
nodes are in the scope, the ports of the others are not, and each routine is named after a node
that is done. -/
structure Placed (model : Model) (options : CompilerOptions) (done : List Entry)
    (state : Builder × Lowering) : Prop where
  houses : ∀ entry ∈ model.entries, entry ∈ done ∨ entry.node.capabilities.input = true →
    state.2.scope.Houses state.1 entry.id entry.node
  unbound : ∀ entry ∈ model.entries, entry ∉ done → entry.node.capabilities.input = false →
    state.2.scope.binding? ⟨entry.id, 0⟩ = none
  routines : ∀ routine ∈ state.2.program.routines, ∃ entry ∈ done,
    routine.name = options.subroutine entry.id

theorem CompilerOptions.subroutine_inj {options : CompilerOptions} {id other : NodeId} :
    options.subroutine id = options.subroutine other ↔ id = other := by
  simp [subroutine]

section Nodes

variable {model : Model} {options : CompilerOptions} {done rest : List Entry} {entry : Entry}
  {before : Builder × Lowering}

/-- Where a model has an element of a node that is done, the scope leads to it. -/
theorem Placed.finds (placed : Placed model options done before) {source : Entry}
    (mem : source ∈ model.entries)
    (ready : source ∈ done ∨ source.node.capabilities.input = true) {coordinate : Coordinate}
    {port : OutputPort} (same : source.id = coordinate.node)
    (ported : source.node.outputs[coordinate.port]? = some port)
    (inside : coordinate.element < port.size) :
    before.2.scope.Finds before.1 port.type coordinate := by
  have found := (placed.houses source mem ready coordinate.port port ported).2 _ inside
  rwa [same] at found

/-- The next node with code is accepted. -/
theorem Placed.exists_step (placed : Placed model options done before)
    (wellFormed : model.WellFormed) (standard : model.Standard)
    (split : model.entries = done ++ entry :: rest)
    (compilable : entry.node.capabilities.compilable = true) :
    ∃ after, Succeeds (lowerNode options entry.id entry.node) before () after ∧
      before.1.Continues after.1 ∧ Placed model options (done ++ [entry]) after := by
  have mem : entry ∈ model.entries := by simp [split]
  have increasing : (done.map Entry.id ++ entry.id :: rest.map Entry.id).Pairwise (· < ·) := by
    simpa [Model.ids, split] using wellFormed.ids_increasing
  have lower : ∀ other ∈ done, other.id < entry.id := fun other otherMem =>
    (List.pairwise_append.mp increasing).2.2 _ (List.mem_map_of_mem otherMem) _ List.mem_cons_self
  have fresh : entry ∉ done := fun here => Nat.lt_irrefl _ (lower entry here)
  -- What the node reads belongs to nodes with smaller ids, and these are done.
  have earlier : ∀ source ∈ model.entries, source.id < entry.id → source ∈ done := by
    intro source sourceMem below
    rw [split] at sourceMem
    rcases List.mem_append.mp sourceMem with here | later
    · exact here
    · have behind := (List.pairwise_append.mp increasing).2.1
      rcases List.mem_cons.mp later with rfl | later
      · exact absurd below (Nat.lt_irrefl _)
      · have above := (List.pairwise_cons.mp behind).1 _ (List.mem_map_of_mem later)
        exact absurd below (Nat.not_lt_of_lt above)
  have finds : ∀ input ∈ entry.node.inputs, ∀ coordinate ∈ input.elements,
      before.2.scope.Finds before.1 input.type coordinate := by
    intro input inputMem coordinate coordinateMem
    obtain ⟨below, source, sourceMem, same, port, ported, inside, typed⟩ :=
      wellFormed.provided entry mem input inputMem coordinate coordinateMem
    exact typed ▸ placed.finds sourceMem (.inl (earlier source sourceMem (same ▸ below))) same ported
      inside
  obtain ⟨after, ran, houses⟩ := (standard entry mem).exists_lowerNode compilable finds
    (fun input inputMem coordinate coordinateMem => Nat.ne_of_lt
      (wellFormed.provided entry mem input inputMem coordinate coordinateMem).1)
    (fun input => placed.houses entry mem (.inr input)) (placed.unbound entry mem fresh)
    (fun routine routineMem same => by
      obtain ⟨other, otherMem, named⟩ := placed.routines routine routineMem
      have equal := CompilerOptions.subroutine_inj.mp (named.symm.trans same)
      exact Nat.lt_irrefl _ (equal ▸ lower other otherMem))
  have different : ∀ other ∈ model.entries, other ≠ entry → other.id ≠ entry.id :=
    fun other otherMem distinct same =>
      distinct (wellFormed.coherent.entry_unique otherMem mem same)
  refine ⟨after, ran, houses.continues, ?_, ?_, ?_⟩
  · intro other otherMem ready
    by_cases same : other = entry
    · exact same ▸ houses.houses
    · have before := placed.houses other otherMem (ready.imp_left fun here => by simpa [same] using here)
      exact (before.continues houses.continues).congr fun index =>
        houses.others _ (different other otherMem same)
  · intro other otherMem absent inner
    rw [List.mem_append, not_or, List.mem_singleton] at absent
    rw [houses.others _ (different other otherMem absent.2)]
    exact placed.unbound other otherMem absent.1 inner
  · intro routine routineMem
    rcases houses.routines routine routineMem with old | named
    · obtain ⟨other, otherMem, named⟩ := placed.routines routine old
      exact ⟨other, List.mem_append_left _ otherMem, named⟩
    · exact ⟨entry, by simp, named⟩

/-- Nodes with code are accepted one after another.  The induction is on the nodes that are left. -/
theorem Placed.exists_lowerNodes (placed : Placed model options done before)
    (wellFormed : model.WellFormed) (standard : model.Standard) {ready : List Entry}
    (split : model.entries = done ++ (ready ++ rest))
    (compilable : ∀ entry ∈ ready, entry.node.capabilities.compilable = true) :
    ∃ after, Succeeds (lowerNodes options ready) before () after ∧
      before.1.Continues after.1 ∧ Placed model options (done ++ ready) after := by
  induction ready generalizing done before with
  | nil => exact ⟨before, succeeds_pure_iff.mpr ⟨rfl, rfl⟩, .refl _, by simpa using placed⟩
  | cons entry ready ih =>
      obtain ⟨here, others⟩ := List.forall_mem_cons.mp compilable
      obtain ⟨between, first, continues, next⟩ :=
        placed.exists_step wellFormed standard split here
      obtain ⟨after, ran, further, last⟩ := ih next (by simpa using split) others
      refine ⟨after, succeeds_bind_iff.mpr ⟨(), between, first, ran⟩, continues.trans further, ?_⟩
      simpa using last

/-- The first node without code stops the lowering. -/
theorem Placed.outcome_lowerNodes (placed : Placed model options [] before)
    (wellFormed : model.WellFormed) (standard : model.Standard) {ready : List Entry}
    (split : model.entries = ready ++ entry :: rest)
    (compilable : ∀ other ∈ ready, other.node.capabilities.compilable = true)
    (refused : entry.node.capabilities.compilable = false) :
    (outcome (lowerNodes options model.entries) before).1 =
      .error (.uncompilableNode entry.id entry.node.typeName) := by
  obtain ⟨between, ran, _⟩ := placed.exists_lowerNodes wellFormed standard split compilable
  rw [split, lowerNodes_append, outcome_bind_of_succeeds ran, lowerNodes, outcome_bind,
    outcome_lowerNode_of_refineOnly refused]

end Nodes

/-! ## The entry routine -/

section Entry

variable {model : Model} {options : CompilerOptions} {signature : Signature}
  {requests : List Elements}

theorem isBound_bindInputs {inputs : List (NodeId × Parameter)} {scope : Scope} {start : Nat}
    {port : OutputRef} (bound : (∃ pair ∈ inputs, port = ⟨pair.1, 0⟩) ∨ scope.isBound port = true) :
    (bindInputs start inputs scope).isBound port = true := by
  induction inputs generalizing start scope with
  | nil => simpa [bindInputs] using bound
  | cons pair rest ih =>
      refine ih ?_
      rcases bound with ⟨other, mem, rfl⟩ | bound
      · rcases List.mem_cons.mp mem with rfl | later
        · exact .inr (by simp [Scope.isBound, Scope.bindArray])
        · exact .inl ⟨other, later, rfl⟩
      · by_cases same : port = ⟨pair.1, 0⟩
        · exact .inr (by simp [Scope.isBound, Scope.bindArray, same])
        · exact .inr (by rwa [Scope.isBound, Scope.bindArray, Scope.binding?_bind_of_ne _ _ same])

/-- When the nodes are lowered, the input nodes have their places in the parameters. -/
theorem Signature.Describes.placed (describes : signature.Describes model requests)
    (wellFormed : model.WellFormed) (options : CompilerOptions) :
    Placed model options [] (.start signature.routine signature.parameters,
      { Lowering.start with scope := bindInputs 0 signature.inputs .empty }) where
  houses := by
    intro entry mem ready
    have input : entry.node.capabilities.input = true := by simpa using ready
    obtain ⟨pair, pairMem, pairId⟩ : ∃ pair ∈ signature.inputs, pair.1 = entry.id := by
      have listed : entry.id ∈ signature.inputs.map Prod.fst := by
        rw [describes.inputs_eq]
        exact List.mem_map_of_mem (List.mem_filter.mpr ⟨mem, input⟩)
      exact List.mem_map.mp listed
    have bound : (bindInputs 0 signature.inputs .empty).isBound ⟨entry.id, 0⟩ = true :=
      isBound_bindInputs (.inl ⟨pair, pairMem, by rw [pairId]⟩)
    obtain ⟨binding, binds⟩ := Option.isSome_iff_exists.mp bound
    rcases binding?_bindInputs binds with ⟨index, id, parameter, listed, same, rfl⟩ | absent
    · obtain rfl : entry.id = id := congrArg OutputRef.node same
      obtain ⟨twin, twinMem, twinId, node⟩ := Model.mem_skeleton_iff.mp
        (describes.inputs _ (List.mem_of_getElem? listed))
      obtain rfl := wellFormed.coherent.entry_unique twinMem mem twinId
      have given : signature.parameters[index]? = some parameter := by
        obtain ⟨below, _⟩ := List.getElem?_eq_some_iff.mp listed
        rw [Signature.parameters, List.getElem?_append_left (by simpa using below), List.getElem?_map,
          listed, Option.map_some]
      have outputs : twin.node.outputs = [.vector "output" parameter.type parameter.length] := by
        rw [node]
        rfl
      refine Scope.houses_of_array binds outputs ⟨?_, rfl, (size_vector _ _ _).symm⟩
      rw [Nat.zero_add]
      exact (Builder.writable_start given).1
    · simp [Scope.binding?, Scope.empty] at absent
  unbound := by
    intro entry mem _ inner
    exact binding?_bindInputs_of_inner (describes.capabilities_input wellFormed rfl) mem inner
  routines := by simp [Lowering.start, Program.empty]

/-- Requested elements that can be read are copied to a window that is as long. -/
theorem passes_copyOutput {before : Builder × Lowering} {elements : Elements} {target : ArrayRef}
    (writable : before.1.Writable target) (length : target.length = elements.length)
    (finds : ∀ coordinate ∈ elements, before.2.scope.Finds before.1 target.type coordinate) :
    (copyOutput options elements target).Passes Lowering.Agrees before Emit.Done := by
  obtain ⟨covered, covers, fits⟩ := Scope.exists_contiguous finds
  have copies : (before.2.scope.copyElements target 0 elements).Passes Lowering.Agrees before
      Emit.Done := Scope.passes_copyElements writable (by omega) finds
  refine Emit.passes_check covers ?_
  split
  · rename_i source _
    obtain ⟨checked, typed, _⟩ := fits source rfl
    refine Emit.passes_loop fun counter inner innerOn _ counts => ?_
    refine Emit.Passes.bind (Emit.passes_load (innerOn.checkArray checked) counts)
      fun value one oneOn _ valueTyped => ?_
    exact Emit.passes_store ((innerOn.trans oneOn).writable writable) (typed ▸ valueTyped)
      (oneOn.values _ _ counts)
  · exact copies

/-- All requests are copied to the output parameters.  The induction is on the requests that are
left. -/
theorem passes_copyOutputs {before : Builder × Lowering} {index : Nat}
    {pairs : List (Parameter × Elements)}
    (targets : ∀ (position : Nat) (pair : Parameter × Elements), pairs[position]? = some pair →
      before.1.Writable ⟨index + position, pair.1.type, 0, pair.1.length⟩)
    (fits : ∀ pair ∈ pairs, pair.1.length = pair.2.length ∧ ∀ coordinate ∈ pair.2,
      before.2.scope.Finds before.1 pair.1.type coordinate) :
    (copyOutputs options index pairs).Passes Lowering.Agrees before Emit.Done := by
  induction pairs generalizing before index with
  | nil => exact Emit.passes_pure trivial
  | cons pair rest ih =>
      obtain ⟨⟨length, finds⟩, others⟩ := List.forall_mem_cons.mp fits
      refine Emit.Passes.bind (passes_copyOutput (targets 0 pair rfl) length finds)
        fun _ one oneOn oneKept _ => ?_
      refine ih (fun position other found => ?_) fun other mem => ?_
      · rw [Nat.add_right_comm]
        exact oneOn.writable (targets (position + 1) other found)
      · refine ⟨(others other mem).1, fun coordinate coordinateMem => ?_⟩
        exact oneKept.scope_eq ▸ oneOn.scopeFinds ((others other mem).2 coordinate coordinateMem)

/-- If all nodes have code, the entry routine of a model is accepted. -/
theorem Signature.Describes.exists_lowerEntry (describes : signature.Describes model requests)
    (wellFormed : model.WellFormed) (standard : model.Standard) (options : CompilerOptions)
    (compilable : ∀ entry ∈ model.entries, entry.node.capabilities.compilable = true) :
    ∃ after, Succeeds (lowerEntry model options signature requests)
        (.start signature.routine signature.parameters, .start) () after ∧
      after.1.name = signature.routine ∧
      ∀ routine ∈ after.2.program.routines, ∃ id, routine.name = options.subroutine id := by
  have split : model.entries = [] ++ (model.entries ++ []) := by simp
  obtain ⟨nodes, ran, continues, placed⟩ :=
    (describes.placed wellFormed options).exists_lowerNodes wellFormed standard split compilable
  obtain ⟨⟨⟩, after, copied, further, agrees, _⟩ : (copyOutputs options signature.inputs.length
      (signature.outputs.zip requests)).Passes Lowering.Agrees nodes Emit.Done := by
    refine passes_copyOutputs (fun position pair found => ?_) fun pair mem => ?_
    · have listed : signature.parameters[signature.inputs.length + position]? = some pair.1 := by
        rw [Signature.parameters, List.getElem?_append_right (by simp)]
        simpa using (List.getElem?_zip_eq_some.mp found).1
      exact continues.writable (Builder.writable_start listed)
    · obtain ⟨length, _, shares⟩ := (List.forall₂_iff_zip.mp describes.outputs).2 mem
      refine ⟨length, fun coordinate coordinateMem => ?_⟩
      obtain ⟨scalar, read, typed⟩ := shares coordinate coordinateMem
      obtain ⟨source, sourceMem, same, port, ported, inside, sourceTyped⟩ :=
        wellFormed.has_of_value read
      exact (sourceTyped.trans typed) ▸ placed.finds sourceMem (.inl (by simpa using sourceMem)) same
        ported inside
  refine ⟨after, ?_, (continues.trans further).name_eq, fun routine mem => ?_⟩
  · rw [lowerEntry]
    exact succeeds_bind_iff.mpr ⟨(), _, Lower.succeeds_setScope_iff.mpr rfl,
      succeeds_bind_iff.mpr ⟨(), nodes, ran, copied⟩⟩
  · obtain ⟨entry, _, named⟩ := placed.routines routine (agrees.program_eq ▸ mem)
    exact ⟨entry.id, named⟩

end Entry

/-! ## Compilation -/

section Compilation

variable {model : Model} {options : CompilerOptions} {requests : List Elements}

/-- The operators that have no code of their own. -/
def Operator.refineOnly (operator : Operator) : Bool :=
  match operator.kind? with
  | some (.coordinatewise _) | some (.hamming _) => true
  | _ => false

theorem Node.Standard.compilable_eq {node : Node} (standard : node.Standard) :
    node.capabilities.compilable = !node.operator.refineOnly := by
  cases standard <;> rfl

theorem Model.WellFormed.exists_compiled (wellFormed : model.WellFormed) (standard : model.Standard)
    (options : CompilerOptions) (requestable : model.Requestable requests)
    (compilable : ∀ entry ∈ model.entries, entry.node.capabilities.compilable = true) :
    ∃ compiled, (model.compile options requests).result = .ok compiled := by
  obtain ⟨signature, checked⟩ := wellFormed.exists_checkedSignature standard options requestable
  obtain ⟨routine, describes⟩ := wellFormed.describes_of_checkedSignature standard checked
  obtain ⟨⟨builder, lowering⟩, lowered, named, routines⟩ :=
    describes.exists_lowerEntry wellFormed standard options compilable
  have free : lowering.program.routine? builder.name = none := by
    rw [Program.routine?, List.find?_eq_none]
    intro other mem same
    obtain ⟨id, otherName⟩ := routines other mem
    have equal : other.name = builder.name := of_decide_eq_true same
    rw [otherName, named, routine] at equal
    simp [CompilerOptions.subroutine] at equal
  let program : Program := ⟨lowering.program.routines ++ [builder.finish]⟩
  exact ⟨⟨program, signature, lowering.strategies.toList, lowering.subroutines.toList⟩,
    compile_eq_ok_iff.mpr ⟨checked, builder, lowering, lowered,
      Program.define_eq_ok_iff.mpr ⟨free, rfl⟩, rfl, rfl⟩⟩

/-- A compilation fails with the failure of its entry routine. -/
theorem result_compile_of_lowerEntry {signature : Signature} {error : CompileError}
    (checked : model.checkedSignature options requests = .ok signature)
    (failed : (outcome (lowerEntry model options signature requests)
      (.start signature.routine signature.parameters, .start)).1 = .error error) :
    (model.compile options requests).result = .error error := by
  unfold Model.compile
  simp only [checked]
  rcases lowered : (lowerEntry model options signature requests).run.run
    (.start signature.routine signature.parameters, .start) with ⟨result, builder, lowering⟩
  rw [outcome, lowered] at failed
  simp only at failed
  subst failed
  rfl

/-- The first node without code is named. -/
theorem Model.WellFormed.result_compile_of_refineOnly (wellFormed : model.WellFormed)
    (standard : model.Standard) (requestable : model.Requestable requests) {entry : Entry}
    (first : model.entries.find? (·.node.operator.refineOnly) = some entry) :
    (model.compile options requests).result =
      .error (.uncompilableNode entry.id entry.node.typeName) := by
  obtain ⟨signature, checked⟩ := wellFormed.exists_checkedSignature standard options requestable
  obtain ⟨_, describes⟩ := wellFormed.describes_of_checkedSignature standard checked
  obtain ⟨refused, ready, rest, split, others⟩ := List.find?_eq_some_iff_append.mp first
  have mem : ∀ other ∈ ready, other ∈ model.entries := fun other otherMem => by
    rw [split]
    exact List.mem_append_left _ otherMem
  have stopped := (describes.placed wellFormed options).outcome_lowerNodes wellFormed standard split
    (fun other otherMem => by
      rw [(standard other (mem other otherMem)).compilable_eq]
      exact others other otherMem)
    (by rw [(standard entry (by simp [split])).compilable_eq, refused]; rfl)
  refine result_compile_of_lowerEntry checked ?_
  have given : Succeeds (Lower.setScope (bindInputs 0 signature.inputs .empty))
      (.start signature.routine signature.parameters, .start) () _ :=
    Lower.succeeds_setScope_iff.mpr rfl
  rw [lowerEntry, outcome_bind_of_succeeds given, outcome_bind]
  rcases done : outcome (lowerNodes options model.entries) _ with ⟨failed | ⟨⟩, after⟩
  · rw [done] at stopped
    exact stopped
  · rw [done] at stopped
    cases stopped

/-- What compiles: exactly what can be requested of a model whose nodes all have code.  Requests
that are at fault are refused before any node is lowered, by an error that names the fault; of a
model that could be asked, the first node without code is named.  Nothing else goes wrong. -/
theorem Model.compile_decides {model : Model} (reachable : model.Reachable)
    (kinds : ∀ entry ∈ model.entries, entry.node.operator.kind?.isSome) (options : CompilerOptions)
    (requests : List Elements) :
    ((∃ compiled, (model.compile options requests).result = .ok compiled) ↔
      model.Requestable requests ∧ ∀ entry ∈ model.entries, entry.node.operator.refineOnly = false) ∧
    (model.Requestable requests → ∀ entry,
      model.entries.find? (·.node.operator.refineOnly) = some entry →
        (model.compile options requests).result =
          .error (.uncompilableNode entry.id entry.node.typeName)) ∧
    (¬model.Requestable requests →
      ∃ error, model.compile options requests = ⟨.error error, []⟩ ∧ model.Refuses requests error) ∧
    ∀ error, (model.compile options requests).result = .error error →
      model.Refuses requests error ∨ ∃ entry ∈ model.entries,
        entry.node.operator.refineOnly = true ∧
          error = .uncompilableNode entry.id entry.node.typeName := by
  have standard : model.Standard := fun entry mem =>
    (reachable.sound.made entry mem).standard (kinds entry mem)
  have wellFormed := reachable.sound.wellFormed
  have coded : ∀ entry ∈ model.entries, entry.node.operator.refineOnly = false →
      entry.node.capabilities.compilable = true := fun entry mem code => by
    rw [(standard entry mem).compilable_eq, code]
    rfl
  have refused : ∀ requestable : model.Requestable requests, ∀ entry,
      model.entries.find? (·.node.operator.refineOnly) = some entry →
        (model.compile options requests).result =
          .error (.uncompilableNode entry.id entry.node.typeName) :=
    fun requestable entry first => wellFormed.result_compile_of_refineOnly standard requestable first
  have compiles : model.Requestable requests →
      model.entries.find? (·.node.operator.refineOnly) = none →
        ∃ compiled, (model.compile options requests).result = .ok compiled :=
    fun requestable none => wellFormed.exists_compiled standard options requestable fun entry mem =>
      coded entry mem (Bool.eq_false_iff.mpr (List.find?_eq_none.mp none entry mem))
  have faulty : ¬model.Requestable requests →
      ∃ error, model.compile options requests = ⟨.error error, []⟩ ∧
        model.Refuses requests error := by
    intro unrequestable
    cases checked : model.checkedSignature options requests with
    | ok signature =>
        obtain ⟨_, describes⟩ := wellFormed.describes_of_checkedSignature standard checked
        exact absurd (describes.requestable wellFormed) unrequestable
    | error error =>
        refine ⟨error, ?_, wellFormed.refuses_of_checkedSignature standard checked⟩
        rw [Model.compile, checked]
  refine ⟨⟨?_, ?_⟩, refused, faulty, fun error failed => ?_⟩
  · rintro ⟨compiled, compiled_eq⟩
    have requestable : model.Requestable requests := by
      by_contra unrequestable
      obtain ⟨error, failed, _⟩ := faulty unrequestable
      rw [failed] at compiled_eq
      cases compiled_eq
    refine ⟨requestable, fun entry mem => ?_⟩
    cases found : model.entries.find? (·.node.operator.refineOnly) with
    | none => exact Bool.eq_false_iff.mpr (List.find?_eq_none.mp found entry mem)
    | some first =>
        rw [refused requestable first found] at compiled_eq
        cases compiled_eq
  · rintro ⟨requestable, code⟩
    exact compiles requestable (List.find?_eq_none.mpr fun entry mem => by simp [code entry mem])
  · by_cases requestable : model.Requestable requests
    · cases found : model.entries.find? (·.node.operator.refineOnly) with
      | none =>
          obtain ⟨compiled, compiled_eq⟩ := compiles requestable found
          rw [compiled_eq] at failed
          cases failed
      | some first =>
          rw [refused requestable first found] at failed
          have refuses : first.node.operator.refineOnly = true :=
            (List.find?_eq_some_iff_append.mp found).1
          exact .inr ⟨first, List.mem_of_find?_eq_some found, refuses, (Except.error.inj failed).symm⟩
    · obtain ⟨other, other_eq, refuses⟩ := faulty requestable
      rw [other_eq] at failed
      exact .inl (Except.error.inj failed ▸ refuses)

/-- The listening model compiles for its sum, and is refused for a node that it does not have. -/
theorem compile_decides_listener :
    (∃ compiled, (listener.compile {} [[⟨3, 0, 0⟩]]).result = .ok compiled) ∧
      ∃ error, listener.compile {} [[⟨3, 0, 0⟩], [⟨7, 0, 0⟩]] = ⟨.error error, []⟩ ∧
        listener.Refuses [[⟨3, 0, 0⟩], [⟨7, 0, 0⟩]] error := by
  have kinds : ∀ entry ∈ listener.entries, entry.node.operator.kind?.isSome := by decide
  constructor
  · refine (Model.compile_decides reachable_listener kinds {} [[⟨3, 0, 0⟩]]).1.mpr ⟨?_, by decide⟩
    intro elements mem
    obtain rfl := List.mem_singleton.mp mem
    refine ⟨.f64, fun coordinate coordinateMem => ?_⟩
    obtain rfl := List.mem_singleton.mp coordinateMem
    have mem : ⟨3, .sum .f64 [[⟨2, 0, 0⟩]], [.f64 #[0]]⟩ ∈ listener.entries :=
      List.mem_of_getElem? (rfl : listener.entries[3]? = _)
    exact ⟨_, mem, rfl, _, rfl, by decide, rfl⟩
  · refine (Model.compile_decides reachable_listener kinds {} [[⟨3, 0, 0⟩], [⟨7, 0, 0⟩]]).2.2.1
      fun requestable => ?_
    obtain ⟨type, shares⟩ := requestable [⟨7, 0, 0⟩] (by simp)
    obtain ⟨entry, mem, same, _⟩ := shares ⟨7, 0, 0⟩ List.mem_cons_self
    have absent : ∀ other ∈ listener.entries, other.id ≠ 7 := by decide
    exact absent entry mem same

end Compilation

end Dataflow
