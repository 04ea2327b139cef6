import Dataflow.Proofs.Lowering.Acceptance

/-!
# Strategies and loops

A node records a strategy for each amount of work that it lays out, and the report of a compilation
lists them.  Which strategies are recorded depends on the sizes and the options alone.  Elementwise
work loops exactly where the report says so.  A sum does so too, unless it stands in the entry routine
and its input does not lie in one array: then a loop is reported and the sum is written out.
-/

namespace Dataflow

/-! ## Counting loops -/

theorem bodyLoopCount_append (first second : List Instruction) :
    bodyLoopCount (first ++ second) = bodyLoopCount first + bodyLoopCount second := by
  induction first with
  | nil => simp [bodyLoopCount]
  | cons instruction rest ih =>
      rw [List.cons_append, bodyLoopCount, bodyLoopCount, ih, Nat.add_assoc]

/-- Code was added to the routine that is being built, routines were finished, and strategies were
recorded. -/
structure Reports (code : List Instruction) (routines : List Routine)
    (chosen : List (NodeId × Strategy)) (before after : Builder × Lowering) : Prop where
  grows : before.1.Grows code after.1
  routines_eq : after.2.program.routines = before.2.program.routines ++ routines
  strategies_eq : after.2.strategies.toList = before.2.strategies.toList ++ chosen

/-- Code with a number of loops was added, and strategies were recorded. -/
def Emits (loops : Nat) (chosen : List (NodeId × Strategy)) (before after : Builder × Lowering) :
    Prop :=
  ∃ code, Reports code [] chosen before after ∧ bodyLoopCount code = loops

section Reports

variable {code rest : List Instruction} {routines more : List Routine}
  {chosen others : List (NodeId × Strategy)} {loops count : Nat}
  {before between after : Builder × Lowering}

theorem Reports.of_grows (grows : before.1.Grows code after.1) (same : after.2 = before.2) :
    Reports code [] [] before after :=
  ⟨grows, by rw [same, List.append_nil], by rw [same, List.append_nil]⟩

theorem Reports.trans (first : Reports code routines chosen before between)
    (second : Reports rest more others between after) :
    Reports (code ++ rest) (routines ++ more) (chosen ++ others) before after where
  grows := first.grows.trans second.grows
  routines_eq := by rw [second.routines_eq, first.routines_eq, List.append_assoc]
  strategies_eq := by rw [second.strategies_eq, first.strategies_eq, List.append_assoc]

theorem Emits.trans (first : Emits loops chosen before between)
    (second : Emits count others between after) :
    Emits (loops + count) (chosen ++ others) before after := by
  obtain ⟨code, reports, counted⟩ := first
  obtain ⟨rest, restReports, restCounted⟩ := second
  exact ⟨code ++ rest, reports.trans restReports, by rw [bodyLoopCount_append, counted, restCounted]⟩

/-- Declaring arrays and binding ports emits no code. -/
theorem emits_of_grows_nil (grows : before.1.Grows [] after.1)
    (program : after.2.program = before.2.program)
    (strategies : after.2.strategies = before.2.strategies) : Emits 0 [] before after :=
  ⟨[], ⟨grows, by rw [program, List.append_nil], by rw [strategies, List.append_nil]⟩, rfl⟩

theorem Emits.withScope (emits : Emits loops chosen before after) (scope : Scope) :
    Emits loops chosen before (after.1, { after.2 with scope }) := by
  obtain ⟨code, ⟨grows, routines, strategies⟩, counted⟩ := emits
  exact ⟨code, ⟨grows, routines, strategies⟩, counted⟩

theorem emits_of_own_eq
    (grows : after.2 = before.2 ∧ ∃ code, before.1.Grows code after.1 ∧ bodyLoopCount code = loops) :
    Emits loops [] before after := by
  obtain ⟨same, code, grows, counted⟩ := grows
  exact ⟨code, .of_grows grows same, counted⟩

end Reports

/-! ## Straight code -/

/-- An action that adds code without loops, and changes nothing else. -/
def Straight {α : Type} (action : Lower α) : Prop :=
  ∀ ⦃before after : Builder × Lowering⦄ ⦃value : α⦄, Succeeds action before value after →
    after.2 = before.2 ∧ ∃ code, before.1.Grows code after.1 ∧ bodyLoopCount code = 0

section Straight

variable {α β : Type} {action : Lower α} {next : α → Lower β} {before after : Builder × Lowering}
  {value : α}

theorem Straight.emits (straight : Straight action) (emitted : Succeeds action before value after) :
    Emits 0 [] before after :=
  emits_of_own_eq (straight emitted)

theorem straight_pure (value : α) : Straight (pure value : Lower α) := by
  intro before after other emitted
  obtain ⟨_, rfl⟩ := succeeds_pure_iff.mp emitted
  exact ⟨rfl, [], .refl _, rfl⟩

theorem straight_throw (error : CompileError) : Straight (throw error : Lower α) :=
  fun _ _ _ emitted => absurd emitted not_succeeds_throw

theorem straight_check (checked : Except CompileError α) : Straight (Emit.check checked : Lower α) := by
  intro before after other emitted
  obtain ⟨_, rfl⟩ := Emit.succeeds_check_iff.mp emitted
  exact ⟨rfl, [], .refl _, rfl⟩

theorem straight_scope : Straight Lower.scope := by
  intro before after other emitted
  obtain ⟨_, rfl⟩ := Lower.succeeds_scope_iff.mp emitted
  exact ⟨rfl, [], .refl _, rfl⟩

theorem Straight.bind (first : Straight action) (second : ∀ value, Straight (next value)) :
    Straight (action >>= next) := by
  intro before after other emitted
  obtain ⟨value, between, ran, rest⟩ := succeeds_bind_iff.mp emitted
  obtain ⟨own, code, grows, none⟩ := first ran
  obtain ⟨restOwn, more, restGrows, restNone⟩ := second value rest
  refine ⟨restOwn.trans own, code ++ more, grows.trans restGrows, ?_⟩
  rw [bodyLoopCount_append, none, restNone]

/-- Assigning an expression to a new variable. -/
theorem straight_of_define {action : Lower ValueId}
    (defines : ∀ {before after : Builder × Lowering} {value : ValueId},
      Succeeds action before value after →
        ∃ type expression, after = (before.1.define type expression, before.2)) :
    Straight action := by
  intro before after value emitted
  obtain ⟨type, expression, rfl⟩ := defines emitted
  exact ⟨rfl, _, .define _ _ _, rfl⟩

theorem straight_literal (constant : Literal) : Straight (Emit.literal constant : Lower ValueId) :=
  straight_of_define fun emitted => ⟨_, _, (Emit.succeeds_literal_iff.mp emitted).2⟩

theorem straight_load (window : ArrayRef) (index : Index) :
    Straight (Emit.load window index : Lower ValueId) := by
  refine straight_of_define fun emitted => ?_
  obtain ⟨_, _, _, rfl⟩ := Emit.of_load emitted
  exact ⟨_, _, rfl⟩

theorem straight_binary (op : BinaryOp) (left right : ValueId) :
    Straight (Emit.binary op left right : Lower ValueId) := by
  refine straight_of_define fun emitted => ?_
  obtain ⟨_, _, rfl⟩ := Emit.of_binary emitted
  exact ⟨_, _, rfl⟩

theorem straight_compare (predicate : Predicate) (left right : ValueId) :
    Straight (Emit.compare predicate left right : Lower ValueId) := by
  refine straight_of_define fun emitted => ?_
  obtain ⟨_, rfl⟩ := Emit.of_compare emitted
  exact ⟨_, _, rfl⟩

theorem straight_assign (target source : ValueId) :
    Straight (Emit.assign target source : Lower Unit) := by
  intro before after value emitted
  obtain rfl := Emit.of_assign emitted
  exact ⟨rfl, _, .push _ _, rfl⟩

theorem straight_store (window : ArrayRef) (index : Index) (value : ValueId) :
    Straight (Emit.store window index value : Lower Unit) := by
  intro before after done emitted
  obtain ⟨_, _, _, rfl⟩ := Emit.of_store emitted
  exact ⟨rfl, _, .push _ _, rfl⟩

theorem straight_declareArray (type : ScalarType) (length : Nat) :
    Straight (Emit.declareArray type length : Lower ArrayRef) := by
  intro before after window emitted
  obtain ⟨_, rfl⟩ := Emit.succeeds_declareArray_iff.mp emitted
  exact ⟨rfl, _, .withArray _ _, rfl⟩

theorem straight_call (callee : Callee) (operands : List Operand) :
    Straight (Emit.call callee operands : Lower Unit) := by
  intro before after done emitted
  obtain ⟨_, _, rfl⟩ := Emit.succeeds_call_iff.mp emitted
  exact ⟨rfl, _, .push _ _, rfl⟩

theorem Straight.branch {body : Lower Unit} (straight : Straight body) (condition : ValueId) :
    Straight (Emit.branch condition body) := by
  intro before after done emitted
  obtain ⟨inner, own, ran, rfl⟩ := Emit.of_branch emitted
  obtain ⟨same, code, grows, none⟩ := straight ran
  obtain ⟨block, closed⟩ := Builder.Grows.block grows
  refine ⟨same, _, closed.trans (.push _ _), ?_⟩
  rw [block]
  simpa [bodyLoopCount, Instruction.loopCount] using none

/-- A loop whose body has no loop. -/
theorem Straight.loop {body : ValueId → Lower Unit} (straight : ∀ counter, Straight (body counter))
    {start stop : Nat} {done : Unit} (emitted : Succeeds (Emit.loop start stop body) before done after) :
    after.2 = before.2 ∧ ∃ code, before.1.Grows code after.1 ∧ bodyLoopCount code = 1 := by
  obtain ⟨inner, own, ran, rfl⟩ := Emit.of_loop emitted
  obtain ⟨same, code, grows, none⟩ := straight _ ran
  obtain ⟨block, closed⟩ := Builder.Grows.block grows
  refine ⟨same, _, ((Builder.Grows.withValue _ _).trans closed).trans (.push _ _), ?_⟩
  rw [block]
  simpa [bodyLoopCount, Instruction.loopCount] using none

end Straight

theorem Scope.straight_load (scope : Scope) (coordinate : Coordinate) :
    Straight (scope.load coordinate : Lower ValueId) :=
  (straight_check _).bind fun _ => Dataflow.straight_load _ _

/-- The induction is on the elements that are left. -/
theorem Scope.straight_copyElements (scope : Scope) (target : ArrayRef) (position : Nat)
    (elements : Elements) : Straight (scope.copyElements target position elements : Lower Unit) := by
  induction elements generalizing position with
  | nil => exact straight_pure ()
  | cons coordinate rest ih =>
      exact (scope.straight_load coordinate).bind fun _ =>
        (straight_store _ _ _).bind fun _ => ih (position + 1)

theorem Scope.straight_gather (scope : Scope) (elements : Elements) (type : ScalarType) :
    Straight (scope.gather elements type : Lower ArrayRef) := by
  refine (straight_check _).bind fun covered => ?_
  cases covered with
  | some window => exact straight_pure window
  | none =>
      exact (straight_declareArray _ _).bind fun target =>
        (scope.straight_copyElements target 0 elements).bind fun _ => straight_pure target

/-! ## Sites -/

/-- Whether the elements of an input follow one another in one array. -/
def Scope.covers (scope : Scope) (port : InputPort) : Bool :=
  match scope.contiguous port.elements port.type with
  | .ok (some _) => true
  | _ => false

namespace Site

/-- Whether a sum loops over an input: the input is long, and in the entry routine it lies in one
array. -/
def loopsOver (site : Site) (scope : Scope) (port : InputPort) : Bool :=
  decide (site.options.strategyFor port.size = .loop) &&
    (decide (site.placement = .subroutine) || scope.covers port)

/-- The strategies that a node records for work of some sizes. -/
def choices (site : Site) (sizes : List Nat) : List (NodeId × Strategy) :=
  sizes.map fun size => (site.node, site.options.strategyFor size)

variable {site : Site} {before after : Builder × Lowering}

theorem straight_inputElement (site : Site) (index element : Nat) :
    Straight (site.inputElement index element) := by
  refine (straight_check _).bind fun port => ?_
  split
  · split
    · exact straight_scope.bind fun scope => scope.straight_load _
    · exact straight_throw _
  · exact straight_load _ _

theorem straight_inputArray (site : Site) (index : Nat) : Straight (site.inputArray index) := by
  refine (straight_check _).bind fun port => ?_
  split
  · exact straight_scope.bind fun scope => scope.straight_gather _ _
  · exact straight_pure _

/-- Choosing a strategy records it. -/
theorem emits_strategy {size : Nat} {choice : Strategy}
    (emitted : Succeeds (site.strategy size) before choice after) :
    choice = site.options.strategyFor size ∧ Emits 0 (site.choices [size]) before after ∧
      after.2.scope = before.2.scope := by
  simp only [strategy, succeeds_bind_iff, Emit.succeeds_modifyOwn_iff, succeeds_pure_iff] at emitted
  obtain ⟨_, _, rfl, rfl, rfl⟩ := emitted
  exact ⟨rfl, ⟨[], ⟨.refl _, (List.append_nil _).symm, Array.toList_push⟩, rfl⟩, rfl⟩

/-- In a subroutine all inputs lie in one array, in the entry routine the scope says so. -/
theorem contiguous_eq {index : Nat} {port : InputPort} {contiguous : Bool}
    (ported : site.inputs[index]? = some port)
    (emitted : Succeeds (site.inputIsContiguous index) before contiguous after) :
    contiguous = (decide (site.placement = .subroutine) || before.2.scope.covers port) := by
  simp only [inputIsContiguous, succeeds_bind_iff, Emit.succeeds_check_iff] at emitted
  obtain ⟨found, _, ⟨read, rfl⟩, rest⟩ := emitted
  obtain rfl := Option.some.inj (ported.symm.trans (inputPort_eq_ok_iff.mp read))
  cases placed : site.placement with
  | inline =>
      simp only [placed, succeeds_bind_iff, Lower.succeeds_scope_iff, Emit.succeeds_check_iff,
        succeeds_pure_iff] at rest
      obtain ⟨_, _, ⟨rfl, rfl⟩, covering, _, ⟨covers, rfl⟩, rfl, rfl⟩ := rest
      rw [Scope.covers, covers]
      cases covering <;> rfl
  | subroutine =>
      simp only [placed] at rest
      obtain ⟨rfl, _⟩ := succeeds_pure_iff.mp rest
      rfl

/-- An input node requires its parameter. -/
theorem straight_input (site : Site) (type : ScalarType) (size : Nat) :
    Straight (Operator.lower site (.input type size)) := by
  have asks : Straight (site.outputIsBound 0) := by
    unfold outputIsBound
    split
    · exact straight_scope.bind fun scope => straight_pure _
    · exact straight_pure _
  refine asks.bind fun bound => ?_
  cases bound with
  | true => exact straight_pure _
  | false => exact straight_throw _

/-- An output that gets its array binds its port, and emits no code. -/
theorem emits_outputArray {index : Nat} {window : ArrayRef}
    (emitted : Succeeds (site.outputArray index) before window after) :
    Emits 0 [] before after ∧ (after.2.scope = before.2.scope ∨
      after.2.scope = before.2.scope.bindArray (site.port index) window) := by
  simp only [outputArray, succeeds_bind_iff, Emit.succeeds_check_iff] at emitted
  obtain ⟨port, _, ⟨_, rfl⟩, rest⟩ := emitted
  split at rest
  · simp only [succeeds_bind_iff, Lower.succeeds_scope_iff] at rest
    obtain ⟨_, _, ⟨rfl, rfl⟩, rest⟩ := rest
    split at rest
    · obtain ⟨_, rfl⟩ := succeeds_pure_iff.mp rest
      exact ⟨(straight_pure _).emits rest, .inl rfl⟩
    · simp only [succeeds_bind_iff, Emit.succeeds_declareArray_iff, Lower.succeeds_setScope_iff,
        succeeds_pure_iff] at rest
      obtain ⟨_, _, ⟨rfl, rfl⟩, _, _, rfl, rfl, rfl⟩ := rest
      exact ⟨emits_of_grows_nil (.withArray _ _) rfl rfl, .inr rfl⟩
  · obtain ⟨_, rfl⟩ := succeeds_pure_iff.mp rest
    exact ⟨(straight_pure _).emits rest, .inl rfl⟩

/-! ## Elementwise work -/

theorem straight_expandElementwise {combine : ValueId → ValueId → Lower ValueId}
    (straight : ∀ left right, Straight (combine left right)) (output : ArrayRef)
    (position count : Nat) : Straight (site.expandElementwise output combine position count) := by
  induction count generalizing position with
  | zero => exact straight_pure ()
  | succ count ih =>
      exact (site.straight_inputElement 0 position).bind fun left =>
        (site.straight_inputElement 1 position).bind fun right =>
          (straight left right).bind fun _ => (straight_store _ _ _).bind fun _ => ih (position + 1)

/-- Elementwise work loops where its strategy says so. -/
theorem emits_elementwise {combine : ValueId → ValueId → Lower ValueId} {size : Nat} {done : Unit}
    (straight : ∀ left right, Straight (combine left right))
    (emitted : Succeeds (site.elementwise size combine) before done after) :
    Emits ((site.choices [size]).countP (·.2 = .loop)) (site.choices [size]) before after := by
  simp only [elementwise, succeeds_bind_iff] at emitted
  obtain ⟨output, declared, outputChosen, choice, chosen, strategyChosen, rest⟩ := emitted
  obtain ⟨rfl, records, _⟩ := emits_strategy strategyChosen
  have started := (emits_outputArray outputChosen).1.trans records
  simp only [choices, List.map_cons, List.map_nil] at started ⊢
  cases strategy : site.options.strategyFor size with
  | expanded =>
      simp only [strategy] at rest started
      simpa using started.trans ((straight_expandElementwise straight output 0 size).emits rest)
  | loop =>
      simp only [strategy, succeeds_bind_iff] at rest started
      obtain ⟨left, one, leftRead, right, two, rightRead, looped⟩ := rest
      have reads := ((site.straight_inputArray 0).emits leftRead).trans
        ((site.straight_inputArray 1).emits rightRead)
      have loops := Straight.loop (fun counter => (straight_load _ _).bind fun leftValue =>
        (straight_load _ _).bind fun rightValue =>
          (straight leftValue rightValue).bind fun _ => straight_store _ _ _) looped
      simpa using (started.trans reads).trans (emits_of_own_eq loops)

/-! ## Sums -/

theorem straight_expandSum (site : Site) (group : Nat) (total : ValueId) (position count : Nat) :
    Straight (site.expandSum group total position count) := by
  induction count generalizing total position with
  | zero => exact straight_pure total
  | succ count ih =>
      exact (site.straight_inputElement group position).bind fun _ =>
        (straight_binary _ _ _).bind fun total => ih total (position + 1)

/-- A sum records the strategy for its size, and loops only where its input lies in one array. -/
theorem emits_sumInput {type : RealType} {group : Nat} {port : InputPort} {value : ValueId}
    (ported : site.inputs[group]? = some port)
    (emitted : Succeeds (site.sumInput type group port.size) before value after) :
    Emits (site.loopsOver before.2.scope port).toNat (site.choices [port.size]) before after ∧
      after.2.scope = before.2.scope := by
  obtain ⟨choice, chosen, looped, strategyChosen, asked, rest⟩ := exists_looped emitted
  obtain ⟨rfl, records, scope⟩ := emits_strategy strategyChosen
  have loops : looped = site.loopsOver before.2.scope port := by
    rw [loopsOver]
    rcases asked with ⟨loop, answered⟩ | ⟨expanded, rfl⟩
    · rw [contiguous_eq ported answered, loop, scope]
      rfl
    · rw [expanded]
      rfl
  rw [← loops]
  cases looped with
  | true =>
      simp only [if_true, succeeds_bind_iff, succeeds_pure_iff] at rest
      obtain ⟨values, read, inputRead, total, zeroed, started, _, _, loop, rfl, rfl⟩ := rest
      have reads := (site.straight_inputArray group).emits inputRead
      have zeros := (straight_literal _).emits started
      have adds := Straight.loop (fun counter => (straight_load _ _).bind fun _ =>
        (straight_binary _ _ _).bind fun _ => straight_assign _ _) loop
      refine ⟨by simpa using ((records.trans reads).trans zeros).trans (emits_of_own_eq adds), ?_⟩
      rw [adds.1, (straight_literal _ started).1, (site.straight_inputArray group inputRead).1, scope]
  | false =>
      simp only [Bool.false_eq_true, if_false] at rest
      have straight := (site.straight_inputElement group 0).bind fun first =>
        site.straight_expandSum group first 1 (port.size - 1)
      exact ⟨by simpa using records.trans (straight.emits rest), by rw [(straight rest).1, scope]⟩

/-- The sum of nothing is written out, and no strategy is recorded for it. -/
theorem loopsOver_of_size_eq_zero {scope : Scope} {port : InputPort} (empty : port.size = 0) :
    site.loopsOver scope port = false := by
  simp [loopsOver, empty, CompilerOptions.strategyFor]

/-- Sums record strategies for the inputs that are not empty, and loop over those that are long and
lie in one array.  The induction is on the groups that are left. -/
theorem emits_sums {type : RealType} {output : ArrayRef} {group : Nat} {ports : List InputPort}
    {done : Unit} (inputs : ∀ (index : Nat) (port : InputPort), ports[index]? = some port →
      site.inputs[group + index]? = some port)
    (emitted : Succeeds (site.sums type output group ports) before done after) :
    Emits (ports.countP (site.loopsOver before.2.scope))
      (site.choices ((ports.map InputPort.size).filter (· ≠ 0))) before after := by
  induction ports generalizing before group with
  | nil => exact (straight_pure _).emits emitted
  | cons port rest ih =>
      have shifted : ∀ (index : Nat) (other : InputPort), rest[index]? = some other →
          site.inputs[group + 1 + index]? = some other := by
        intro index other found
        rw [show group + 1 + index = group + (index + 1) by omega]
        exact inputs (index + 1) other (by simpa using found)
      -- one sum, and what it leaves to do
      obtain ⟨total, between, first, scope, others⟩ : ∃ total between,
          Emits (site.loopsOver before.2.scope port).toNat
            (site.choices ([port.size].filter (· ≠ 0))) before between ∧
          between.2.scope = before.2.scope ∧
          Succeeds (do
            Emit.store output (.fixed group) total
            site.sums type output (group + 1) rest) between done after := by
        simp only [sums] at emitted
        by_cases empty : port.size = 0
        · simp only [empty, if_true] at emitted
          obtain ⟨total, between, zeroed, others⟩ := succeeds_bind_iff.mp emitted
          refine ⟨total, between, ?_, (straight_literal _ zeroed).1 ▸ rfl, others⟩
          simpa [loopsOver_of_size_eq_zero empty, empty, choices] using
            (straight_literal _).emits zeroed
        · simp only [empty, if_false] at emitted
          obtain ⟨total, between, summed, others⟩ := succeeds_bind_iff.mp emitted
          obtain ⟨records, scope⟩ := emits_sumInput (inputs 0 port rfl) summed
          exact ⟨total, between, by simpa [empty] using records, scope, others⟩
      simp only [succeeds_bind_iff] at others
      obtain ⟨_, stored, kept, others⟩ := others
      have rested := ih shifted others
      rw [(straight_store _ _ _ kept).1, scope] at rested
      have all := (first.trans ((straight_store _ _ _).emits kept)).trans rested
      have loops : (port :: rest).countP (site.loopsOver before.2.scope) =
          (site.loopsOver before.2.scope port).toNat + 0 +
            rest.countP (site.loopsOver before.2.scope) := by
        rw [List.countP_cons, Nat.add_comm]
        cases site.loopsOver before.2.scope port <;> rfl
      have records : site.choices (((port :: rest).map InputPort.size).filter (· ≠ 0)) =
          site.choices ([port.size].filter (· ≠ 0)) ++ [] ++
            site.choices ((rest.map InputPort.size).filter (· ≠ 0)) := by
        rw [List.append_nil, choices, choices, choices, ← List.map_append, ← List.filter_append]
        rfl
      rwa [loops, records]

end Site

/-! ## Nodes -/

/-- Binding the output of a node does not move elements of earlier nodes. -/
theorem Scope.covers_bindArray {scope : Scope} {port : OutputRef} {window : ArrayRef}
    {input : InputPort} (other : ∀ coordinate ∈ input.elements, coordinate.output ≠ port) :
    (scope.bindArray port window).covers input = scope.covers input := by
  have located : (scope.bindArray port window).locateAll input.elements =
      scope.locateAll input.elements := by
    unfold Scope.locateAll
    generalize input.elements = elements at other
    induction elements with
    | nil => rfl
    | cons coordinate rest ih =>
        rw [List.mapM_cons, List.mapM_cons, Scope.bindArray,
          Scope.locate_bind_of_ne (other coordinate List.mem_cons_self)]
        rw [Scope.bindArray] at ih
        rw [ih fun next mem => other next (List.mem_cons_of_mem _ mem)]
  rw [Scope.covers, Scope.contiguous, located]
  rfl

/-- The sizes of the work that a node chooses strategies for. -/
def Node.workSizes (node : Node) : List Nat :=
  match node.operator with
  | .arithmetic _ _ size => [size]
  | .comparison _ _ size => [size]
  | .sum _ _ => (node.inputs.map InputPort.size).filter (· ≠ 0)
  | _ => []

/-- Whether an input is long enough for a loop, but does not lie in one array. -/
def Scope.scatters (scope : Scope) (options : CompilerOptions) (port : InputPort) : Bool :=
  decide (options.strategyFor port.size = .loop) && !scope.covers port

/-- The inputs of a sum that it writes out although they are long. -/
def Node.scattered (options : CompilerOptions) (scope : Scope) (node : Node) :
    Placement → List InputPort
  | .inline =>
      match node.operator with
      | .sum _ _ => node.inputs.filter (scope.scatters options)
      | _ => []
  | .subroutine => []

section Nodes

variable {id : NodeId} {node : Node} {options : CompilerOptions} {placement : Placement}
  {before after : Builder × Lowering} {done : Unit}

/-- Of the long inputs of a sum, some are looped over and the others are scattered. -/
theorem Site.countP_loopsOver (id : NodeId) (node : Node) (options : CompilerOptions)
    (placement : Placement) (scope : Scope) (ports : List InputPort) :
    ports.countP ((ofNode id node options placement).loopsOver scope) +
        (match placement with
          | .inline => ports.filter (scope.scatters options)
          | .subroutine => []).length =
      ((ofNode id node options placement).choices
        ((ports.map InputPort.size).filter (· ≠ 0))).countP (·.2 = .loop) := by
  induction ports with
  | nil => cases placement <;> rfl
  | cons port rest ih =>
      have empty : port.size = 0 → options.strategyFor port.size = .expanded := by
        intro empty
        simp [empty, CompilerOptions.strategyFor]
      have loops : (ofNode id node options placement).loopsOver scope port =
          (decide (options.strategyFor port.size = .loop) &&
            (decide (placement = .subroutine) || scope.covers port)) := rfl
      have chosen : ((ofNode id node options placement).choices
          (((port :: rest).map InputPort.size).filter (· ≠ 0))).countP (·.2 = .loop) =
          ((ofNode id node options placement).choices
            ((rest.map InputPort.size).filter (· ≠ 0))).countP (·.2 = .loop) +
          (if options.strategyFor port.size = .loop then 1 else 0) := by
        by_cases none : port.size = 0
        · simp [choices, none, ofNode, CompilerOptions.strategyFor]
        · simp [choices, none, ofNode, List.countP_cons]
      rw [chosen, ← ih, List.countP_cons, loops]
      cases placement <;> cases strategy : options.strategyFor port.size <;>
        cases covered : scope.covers port <;>
          simp [Scope.scatters, strategy, covered] <;> omega

/-- Choosing the array of an output does not move elements of earlier nodes. -/
theorem covers_of_outputArray {between : Builder × Lowering} {window : ArrayRef} {input : InputPort}
    (bound : between.2.scope = before.2.scope ∨
      between.2.scope = before.2.scope.bindArray ⟨id, 0⟩ window)
    (earlier : ∀ coordinate ∈ input.elements, coordinate.node ≠ id) :
    between.2.scope.covers input = before.2.scope.covers input := by
  rcases bound with same | bound
  · rw [same]
  · rw [bound]
    exact Scope.covers_bindArray fun coordinate mem same =>
      earlier coordinate mem (congrArg OutputRef.node same)

theorem Node.scattered_congr {scope other : Scope}
    (covers : ∀ port ∈ node.inputs, scope.covers port = other.covers port) :
    node.scattered options scope placement = node.scattered options other placement := by
  cases placement with
  | subroutine => rfl
  | inline =>
      simp only [scattered]
      split
      · refine List.filter_congr fun port mem => ?_
        rw [Scope.scatters, Scope.scatters, covers port mem]
      · rfl

/-- A node with code records the strategies for its work.  It emits as many loops as it records, but
for the scattered inputs of a sum. -/
theorem Node.Standard.emits_lower (standard : node.Standard)
    (compilable : node.capabilities.compilable = true)
    (earlier : ∀ input ∈ node.inputs, ∀ coordinate ∈ input.elements, coordinate.node ≠ id)
    (emitted : Succeeds (node.operator.lower (.ofNode id node options placement)) before done after) :
    ∃ loops, Emits loops ((Site.ofNode id node options placement).choices node.workSizes) before after ∧
      loops + (node.scattered options before.2.scope placement).length =
        ((Site.ofNode id node options placement).choices node.workSizes).countP (·.2 = .loop) := by
  cases standard with
  | coordinatewise | hamming => exact absurd compilable Bool.false_ne_true
  | input type size =>
      exact ⟨0, (Site.straight_input _ _ _).emits emitted, by cases placement <;> rfl⟩
  | constant values shape fits =>
      simp only [Operator.lower, succeeds_bind_iff, Emit.succeeds_declareConstant_iff] at emitted
      obtain ⟨_, _, ⟨rfl, rfl⟩, bound⟩ := emitted
      obtain rfl := Site.of_bindOutputArray bound
      exact ⟨0, emits_of_grows_nil (.withArray _ _) rfl rfl, by cases placement <;> rfl⟩
  | arithmetic type op left right same =>
      exact ⟨_, Site.emits_elementwise (straight_binary op) emitted, by cases placement <;> rfl⟩
  | comparison type predicate left right same =>
      exact ⟨_, Site.emits_elementwise (straight_compare predicate) emitted, by cases placement <;> rfl⟩
  | sum type groups =>
      simp only [Operator.lower, succeeds_bind_iff] at emitted
      obtain ⟨output, between, declared, summed⟩ := emitted
      obtain ⟨declares, scope⟩ := Site.emits_outputArray declared
      have sums := Site.emits_sums (fun index port found => by rwa [Nat.zero_add]) summed
      have all := declares.trans sums
      rw [Nat.zero_add, List.nil_append] at all
      refine ⟨_, all, ?_⟩
      have total := Site.countP_loopsOver id ⟨.sum type groups.length, groups⟩ options placement
        between.2.scope (⟨.sum type groups.length, groups⟩ : Node).inputs
      rw [← Node.scattered_congr fun port mem => covers_of_outputArray scope (earlier port mem)]
      cases placement <;> exact total
  | concatenation type shape input fits =>
      simp only [Operator.lower, succeeds_bind_iff, Emit.succeeds_check_iff] at emitted
      obtain ⟨_, _, ⟨_, rfl⟩, bound⟩ := emitted
      obtain ⟨_, _, rfl⟩ := Site.of_bindOutputAlias bound
      exact ⟨0, emits_of_grows_nil (.refl _) rfl rfl, by cases placement <;> rfl⟩
  | sink type name notifies input trigger single =>
      simp only [Operator.lower, succeeds_bind_iff] at emitted
      obtain ⟨condition, first, loaded, window, second, collected, _, third, branched, port, _,
        checked, bound⟩ := emitted
      obtain ⟨_, _, rfl⟩ := Site.of_bindOutputAlias bound
      have reads := ((Site.straight_inputElement _ 1 0).emits loaded).trans
        ((Site.straight_inputArray _ 0).emits collected)
      have branches := ((straight_call _ _).branch condition).emits branched
      have all := (reads.trans branches).trans ((straight_check _).emits checked)
      exact ⟨0, all.withScope _, by cases placement <;> rfl⟩

/-! ## Routines of their own -/

theorem straight_gatherAll (ports : List InputPort) :
    Straight (ports.mapM fun port => do
      (← Lower.scope).gather port.elements port.type : Lower (List ArrayRef)) := by
  induction ports with
  | nil => exact straight_pure []
  | cons port rest ih =>
      rw [List.mapM_cons]
      exact (straight_scope.bind fun scope => scope.straight_gather _ _).bind fun _ =>
        ih.bind fun _ => straight_pure _

/-- Outputs get arrays, and no code. -/
theorem emits_declareOutputs {index : Nat} {ports : List OutputPort} {windows : List ArrayRef}
    (emitted : Succeeds (declareOutputs id index ports) before windows after) :
    Emits 0 [] before after := by
  induction ports generalizing index before windows with
  | nil => exact (straight_pure _).emits emitted
  | cons port rest ih =>
      simp only [declareOutputs, succeeds_bind_iff, Emit.succeeds_declareArray_iff,
        Lower.succeeds_scope_iff, Lower.succeeds_setScope_iff, succeeds_pure_iff] at emitted
      obtain ⟨_, _, ⟨rfl, rfl⟩, _, _, ⟨rfl, rfl⟩, _, _, rfl, _, _, others, rfl, rfl⟩ := emitted
      have declares : Emits 0 [] before (before.1.withArray (.scratch port.type port.size),
          { before.2 with
            scope := before.2.scope.bindArray ⟨id, index⟩
              ⟨before.1.arrays.size, port.type, 0, port.size⟩ }) :=
        emits_of_grows_nil (.withArray _ _) rfl rfl
      exact declares.trans (ih others)

/-- The code of a node in a routine of its own is in that routine, and its caller has no loop. -/
theorem reports_lowerSubroutine {loops : Nat} {chosen : List (NodeId × Strategy)}
    (lowers : ∀ {start finish : Builder × Lowering} {done : Unit},
      Succeeds (node.operator.lower (.ofNode id node options .subroutine)) start done finish →
        Emits loops chosen start finish)
    (emitted : Succeeds (lowerSubroutine options id node) before done after) :
    ∃ code routine, Reports code [routine] chosen before after ∧ bodyLoopCount code = 0 ∧
      bodyLoopCount routine.body = loops ∧
      after.2.program.routine? (options.subroutine id) = some routine := by
  simp only [lowerSubroutine, succeeds_bind_iff, Emit.succeeds_own_iff, Emit.succeeds_check_iff,
    Emit.succeeds_modifyOwn_iff, Emit.succeeds_call_iff] at emitted
  obtain ⟨_, _, gathered, _, two, declared, _, _, ⟨rfl, rfl⟩, _, _, ⟨starts, rfl⟩, inner, ⟨builder, own⟩,
    routine, _, _, ⟨rfl, rfl⟩, program, _, ⟨defined, rfl⟩, _, _, rfl, _, _, ⟨_, _, rfl⟩, rfl⟩ := emitted
  obtain ⟨_, rfl⟩ := Program.declare_eq_ok_iff.mp starts
  obtain ⟨same, lowered⟩ := Emit.of_inRoutine routine
  obtain rfl : builder = _ := same
  obtain ⟨code, ⟨grows, kept, chose⟩, counted⟩ := lowers lowered
  obtain ⟨caller, ⟨callerGrows, callerKept, callerChose⟩, straight⟩ :=
    ((straight_gatherAll _).emits gathered).trans (emits_declareOutputs declared)
  have found := Program.routine?_of_define defined
  obtain ⟨_, rfl⟩ := Program.define_eq_ok_iff.mp defined
  rw [grows.name_eq] at found
  rw [List.append_nil] at kept callerKept
  refine ⟨_, inner.finish, ⟨callerGrows.trans (.push _ _), ?_, ?_⟩, ?_, ?_, found⟩
  · exact congrArg (· ++ [inner.finish]) (kept.trans callerKept)
  · exact chose.trans (congrArg (· ++ chosen) (callerChose.trans (List.append_nil _)))
  · rw [bodyLoopCount_append, straight]
    rfl
  · rw [body_finish grows, counted]

/-- The strategies that a node records. -/
def Node.choices (options : CompilerOptions) (id : NodeId) (node : Node) : List (NodeId × Strategy) :=
  node.workSizes.map fun size => (id, options.strategyFor size)

/-- What lowering a node adds to the entry routine and to the program, with the strategies that it
records.  The code has as many loops as it records, but for the scattered inputs of a sum. -/
structure Node.Reported (options : CompilerOptions) (id : NodeId) (node : Node)
    (code : List Instruction) (routines : List Routine) (before after : Builder × Lowering) : Prop where
  reports : Reports code routines (node.choices options id) before after
  named : ∀ routine ∈ routines, after.2.program.routine? (options.subroutine id) = some routine
  loops : bodyLoopCount code + (routines.map fun routine => bodyLoopCount routine.body).sum +
    (node.scattered options before.2.scope (node.placement options)).length =
      (node.choices options id).countP (·.2 = .loop)

/-- Every standard node reports on its code. -/
theorem Node.Standard.exists_reported (standard : node.Standard)
    (earlier : ∀ input ∈ node.inputs, ∀ coordinate ∈ input.elements, coordinate.node ≠ id)
    (emitted : Succeeds (lowerNode options id node) before done after) :
    ∃ code routines, node.Reported options id code routines before after := by
  obtain ⟨compilable, lowered⟩ := placed_of_lowerNode emitted
  cases placed : node.placement options with
  | inline =>
      simp only [placed] at lowered
      obtain ⟨_, ⟨code, reports, rfl⟩, loops⟩ := standard.emits_lower compilable earlier lowered
      exact ⟨code, [], reports, by simp, placed ▸ loops⟩
  | subroutine =>
      simp only [placed] at lowered
      -- no input of a routine of its own is scattered
      have lowers : ∀ {start finish : Builder × Lowering} {done : Unit},
          Succeeds (node.operator.lower (.ofNode id node options .subroutine)) start done finish →
            Emits ((node.choices options id).countP (·.2 = .loop)) (node.choices options id) start
              finish := by
        intro start finish done inner
        obtain ⟨loops, emits, counted⟩ := standard.emits_lower compilable earlier inner
        obtain rfl : loops = _ := counted
        exact emits
      obtain ⟨code, routine, reports, straight, counted, found⟩ := reports_lowerSubroutine lowers lowered
      refine ⟨code, [routine], reports, by simpa using found, ?_⟩
      rw [straight, placed]
      simpa [Node.scattered] using counted

end Nodes

/-! ## Models -/

section Models

variable {model : Model} {options : CompilerOptions} {requests : List Elements}
  {compiled : CompiledModel} {before after : Builder × Lowering} {done : Unit}

theorem Reports.extends {code : List Instruction} {routines : List Routine}
    {chosen : List (NodeId × Strategy)} (reports : Reports code routines chosen before after) :
    before.2.program.Extends after.2.program :=
  ⟨routines, reports.routines_eq.symm⟩

/-- The strategies that the nodes of a model record, in creation order. -/
def CompilerOptions.choices (options : CompilerOptions) (entries : List Entry) :
    List (NodeId × Strategy) :=
  entries.flatMap fun entry => entry.node.choices options entry.id

theorem exists_reported_of_lowerNode (wellFormed : model.WellFormed) (standard : model.Standard)
    {entry : Entry} (mem : entry ∈ model.entries)
    (emitted : Succeeds (lowerNode options entry.id entry.node) before done after) :
    ∃ code routines, entry.node.Reported options entry.id code routines before after :=
  (standard entry mem).exists_reported (fun input inputMem coordinate coordinateMem =>
    Nat.ne_of_lt (wellFormed.provided entry mem input inputMem coordinate coordinateMem).1) emitted

/-- Nodes report one after another.  The induction is on the nodes that are left. -/
theorem exists_reports_of_lowerNodes (wellFormed : model.WellFormed) (standard : model.Standard)
    {entries : List Entry} (subset : entries ⊆ model.entries)
    (emitted : Succeeds (lowerNodes options entries) before done after) :
    ∃ code routines, Reports code routines (options.choices entries) before after := by
  induction entries generalizing before with
  | nil =>
      obtain ⟨_, rfl⟩ := succeeds_pure_iff.mp emitted
      exact ⟨[], [], .of_grows (.refl _) rfl⟩
  | cons entry rest ih =>
      obtain ⟨mem, others⟩ := List.cons_subset.mp subset
      rw [lowerNodes, succeeds_bind_iff] at emitted
      obtain ⟨_, between, first, emitted⟩ := emitted
      obtain ⟨code, routines, reported⟩ := exists_reported_of_lowerNode wellFormed standard mem first
      obtain ⟨more, added, reports⟩ := ih others emitted
      exact ⟨code ++ more, routines ++ added, reported.reports.trans reports⟩

/-- A node records strategies under its own number. -/
theorem count_choices {entries : List Entry} {entry : Entry} (distinct : (entries.map Entry.id).Nodup)
    (mem : entry ∈ entries) (choice : Strategy) :
    (options.choices entries).count (entry.id, choice) =
      (entry.node.choices options entry.id).countP (·.2 = choice) := by
  have own : ∀ id (node : Node), (node.choices options id).count (id, choice) =
      (node.choices options id).countP (·.2 = choice) := by
    intro id node
    refine List.countP_congr fun pair pairMem => ?_
    obtain ⟨size, _, rfl⟩ := List.mem_map.mp pairMem
    simp
  have other : ∀ id (node : Node), id ≠ entry.id →
      (node.choices options id).count (entry.id, choice) = 0 := by
    intro id node different
    refine List.count_eq_zero.mpr fun listed => ?_
    obtain ⟨size, _, same⟩ := List.mem_map.mp listed
    exact different (congrArg Prod.fst same)
  obtain ⟨earlier, later, rfl⟩ := List.append_of_mem mem
  rw [List.map_append, List.map_cons, List.nodup_middle, List.nodup_cons] at distinct
  have none : ∀ rest : List Entry, (∀ next ∈ rest, next.id ≠ entry.id) →
      (options.choices rest).count (entry.id, choice) = 0 := by
    intro rest apart
    refine List.count_eq_zero.mpr fun listed => ?_
    obtain ⟨next, nextMem, inside⟩ := List.mem_flatMap.mp listed
    exact List.count_eq_zero.mp (other next.id next.node (apart next nextMem)) inside
  have apart : ∀ next ∈ earlier ++ later, next.id ≠ entry.id := fun next nextMem same =>
    distinct.1 (by rw [← List.map_append, ← same]; exact List.mem_map_of_mem nextMem)
  have split : options.choices (earlier ++ entry :: later) = options.choices earlier ++
      (entry.node.choices options entry.id ++ options.choices later) := by
    simp [CompilerOptions.choices]
  rw [split, List.count_append, List.count_append, own,
    none earlier fun next nextMem => apart next (List.mem_append_left _ nextMem),
    none later fun next nextMem => apart next (List.mem_append_right _ nextMem), Nat.zero_add,
    Nat.add_zero]

/-- Where the lowering of the nodes of a compiled model starts. -/
def CompiledModel.start (compiled : CompiledModel) : Builder × Lowering :=
  (.start compiled.signature.routine compiled.signature.parameters,
    { Lowering.start with scope := bindInputs 0 compiled.signature.inputs .empty })

/-- A compiled model has the strategies of all nodes, and the code that each node reported on. -/
theorem exists_reported_of_compile (sound : model.Sound) (standard : model.Standard)
    (compiles : (model.compile options requests).result = .ok compiled) {earlier later : List Entry}
    {entry : Entry} (split : model.entries = earlier ++ entry :: later) :
    compiled.strategies = options.choices model.entries ∧
      ∃ before after routine code routines,
        Succeeds (lowerNodes options earlier) compiled.start () before ∧
        Succeeds (lowerNode options entry.id entry.node) before () after ∧
        entry.node.Reported options entry.id code routines before after ∧
        compiled.program.routine? compiled.signature.routine = some routine ∧
        code <:+: routine.body ∧
        ∀ own ∈ routines, compiled.program.routine? (options.subroutine entry.id) = some own := by
  have wellFormed := sound.wellFormed
  obtain ⟨checked, builder, lowering, lowered, defined, strategies, _⟩ :=
    compile_eq_ok_iff.mp compiles
  obtain ⟨_, describes⟩ := wellFormed.describes_of_checkedSignature standard checked
  simp only [lowerEntry, succeeds_bind_iff, Lower.succeeds_setScope_iff] at lowered
  obtain ⟨_, _, rfl, _, last, nodes, copied⟩ := lowered
  rw [split, lowerNodes_append, succeeds_bind_iff] at nodes
  obtain ⟨_, before, first, nodes⟩ := nodes
  rw [lowerNodes, succeeds_bind_iff] at nodes
  obtain ⟨_, after, here, rest⟩ := nodes
  -- the nodes before, the node, the nodes after it and the outputs
  obtain ⟨_, _, firstReports⟩ := exists_reports_of_lowerNodes wellFormed standard
    (split ▸ List.subset_append_left _ _) first
  obtain ⟨code, routines, reported⟩ := exists_reported_of_lowerNode wellFormed standard
    (split ▸ List.mem_append_right _ List.mem_cons_self) here
  obtain ⟨_, _, restReports⟩ := exists_reports_of_lowerNodes wellFormed standard
    (split ▸ fun _ mem => List.mem_append_right _ (List.mem_cons_of_mem _ mem)) rest
  obtain ⟨own, _, _, copyGrows, _⟩ := of_copyOutputs copied describes.lengths
  have nodesReport := firstReports.trans (reported.reports.trans restReports)
  have grows := firstReports.grows.trans
    (reported.reports.grows.trans (restReports.grows.trans copyGrows))
  have extended : after.2.program.Extends compiled.program :=
    (own ▸ restReports.extends).trans (Program.extends_of_define defined)
  refine ⟨?_, before, after, builder.finish, code, routines, first, here, reported, ?_, ?_, ?_⟩
  · rw [strategies, show lowering = last.2 from own, nodesReport.strategies_eq, split]
    simp [CompilerOptions.choices, Lowering.start]
  · have name : builder.name = compiled.signature.routine := grows.name_eq
    exact name ▸ Program.routine?_of_define defined
  · rw [body_finish grows, ← List.append_assoc]
    exact ⟨_, _, rfl⟩
  · exact fun routine mem => extended.routine? (reported.named routine mem)

/-- The report of a compilation tells how many loops each node has, but for the inputs of sums that
are long and scattered: these are reported as loops and are not.  The loops are counted in what the
node adds to the entry routine and in its own routine. -/
theorem loops_of_compile (reachable : model.Reachable)
    (kinds : ∀ entry ∈ model.entries, entry.node.operator.kind?.isSome)
    (compiles : (model.compile options requests).result = .ok compiled) {earlier later : List Entry}
    {entry : Entry} (split : model.entries = earlier ++ entry :: later) :
    ∃ before after routine code routines,
      Succeeds (lowerNodes options earlier) compiled.start () before ∧
      Succeeds (lowerNode options entry.id entry.node) before () after ∧
      Reports code routines (entry.node.choices options entry.id) before after ∧
      compiled.program.routine? compiled.signature.routine = some routine ∧
      code <:+: routine.body ∧
      (∀ own ∈ routines, compiled.program.routine? (options.subroutine entry.id) = some own) ∧
      bodyLoopCount code + (routines.map fun routine => bodyLoopCount routine.body).sum +
          (entry.node.scattered options before.2.scope (entry.node.placement options)).length =
        compiled.strategies.count (entry.id, .loop) := by
  have standard : model.Standard :=
    fun entry mem => (reachable.sound.made entry mem).standard (kinds entry mem)
  obtain ⟨strategies, before, after, routine, code, routines, first, here, reported, found, inside,
    named⟩ := exists_reported_of_compile reachable.sound standard compiles split
  refine ⟨before, after, routine, code, routines, first, here, reported.reports, found, inside, named,
    ?_⟩
  rw [strategies, count_choices reachable.sound.wellFormed.ids_nodup
    (split ▸ List.mem_append_right _ List.mem_cons_self), reported.loops]

/-- A model that adds up its input from the end. -/
def backwards : Model where
  arena := ⟨#[
    some ⟨0, .input .f64 2, [.f64 #[0, 0]]⟩,
    some ⟨1, .sum .f64 [[⟨0, 0, 1⟩, ⟨0, 0, 0⟩]], [.f64 #[0]]⟩]⟩
  order := [0, 1]
  keys := [(1, 1), (0, 0)]
  nextId := 2

theorem reachable_backwards : backwards.Reachable := by
  have first : Model.Reachable _ :=
    .add .empty (.inl (.input .f64 2)) (rfl : _ = Except.ok (0, _))
  exact first.add (.inl (.sum .f64 [[⟨0, 0, 1⟩, ⟨0, 0, 0⟩]])) (rfl : _ = Except.ok (1, _))

/-- A loop is reported for a sum that is written out. -/
theorem backwards_without_loops :
    ∃ compiled, (backwards.compile { unrollThreshold := 1 } [[⟨1, 0, 0⟩]]).result = .ok compiled ∧
      compiled.strategies = [(1, .loop)] ∧
      ∀ routine ∈ compiled.program.routines, bodyLoopCount routine.body = 0 := by
  have reported : (backwards.compile { unrollThreshold := 1 } [[⟨1, 0, 0⟩]]).result.toOption.map
      (fun compiled => (compiled.strategies,
        compiled.program.routines.map fun routine => bodyLoopCount routine.body)) =
      some ([(1, .loop)], [0]) := by cbv
  obtain ⟨compiled, compiles, both⟩ := Option.map_eq_some_iff.mp reported
  obtain ⟨strategies, loops⟩ := Prod.mk.inj both
  refine ⟨compiled, toOption_eq_some_iff.mp compiles, strategies, fun routine mem => ?_⟩
  have listed := List.mem_map_of_mem (f := fun routine : Routine => bodyLoopCount routine.body) mem
  rw [loops] at listed
  exact List.mem_singleton.mp listed

end Models

end Dataflow
