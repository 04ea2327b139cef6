import Dataflow.Proofs.Routine.SafeBuilding
import Dataflow.Proofs.Routine.SafeRuns
import Dataflow.Proofs.Routine.Typing

/-!
# Programs made by emitter calls

A client makes a routine by calling the emitter, in any order and nesting, with any handles.  It may
look at what a call returns or why it failed, and go on in any way.  Whatever it does, all code that
ends up in the routine has passed the checks of the emitter and is typed.
-/

namespace Dataflow

/-! ## Clients -/

/-- An action that changes its routine by calls of the emitter only.  It may read and change the
state of the client, and go on after failures. -/
inductive Emit.Calls {σ : Type} : {α : Type} → Emit σ α → Prop
  | pure {α : Type} (value : α) : Calls (pure value)
  | throw {α : Type} (error : CompileError) : Calls (throw error : Emit σ α)
  | builder : Calls Emit.builder
  | own : Calls Emit.own
  | modifyOwn (change : σ → σ) : Calls (Emit.modifyOwn change)
  | bind {α β : Type} {action : Emit σ α} {next : α → Emit σ β} (first : Calls action)
      (second : ∀ value, Calls (next value)) : Calls (action >>= next)
  | tryCatch {α : Type} {action : Emit σ α} {handler : CompileError → Emit σ α}
      (tried : Calls action) (handled : ∀ error, Calls (handler error)) :
      Calls (tryCatch action handler)
  | literal (value : Literal) : Calls (Emit.literal value)
  | assign (target source : ValueId) : Calls (Emit.assign target source)
  | declareArray (type : ScalarType) (length : Nat) : Calls (Emit.declareArray type length)
  | declareConstant (values : Buffer) : Calls (Emit.declareConstant values)
  | load (window : ArrayRef) (index : Index) : Calls (Emit.load window index)
  | store (window : ArrayRef) (index : Index) (value : ValueId) :
      Calls (Emit.store window index value)
  | binary (op : BinaryOp) (left right : ValueId) : Calls (Emit.binary op left right)
  | compare (predicate : Predicate) (left right : ValueId) :
      Calls (Emit.compare predicate left right)
  | loop (start stop : Nat) {body : ValueId → Emit σ Unit} (turn : ∀ counter, Calls (body counter)) :
      Calls (Emit.loop start stop body)
  | branch (condition : ValueId) {body : Emit σ Unit} (taken : Calls body) :
      Calls (Emit.branch condition body)
  | call (callee : Callee) (operands : List Operand) : Calls (Emit.call callee operands)

/-- A routine that clients have worked on, one after another. -/
inductive Builder.Built : Builder → Prop
  | start (name : String) (parameters : List Parameter) : Built (.start name parameters)
  | emit {builder : Builder} (built : Built builder) {σ α : Type} {action : Emit σ α}
      (calls : action.Calls) (own : σ) : Built (outcome action (builder, own)).2.1

/-- A program of routines that clients have made by emitter calls. -/
inductive Program.Assembled : Program → Prop
  | empty : Assembled .empty
  | define {program after : Program} {builder : Builder} (assembled : Assembled program)
      (built : builder.Built) (defined : program.define builder = .ok after) : Assembled after

/-! ## Lawful growth -/

/-- The loops in some code count with variables from a number on. -/
def CountsFrom (first : ValueId) (code : List Instruction) : Prop :=
  ∀ counter start stop body, Instruction.Occurs (.loop counter start stop body) code →
    first ≤ counter

theorem CountsFrom.mono {first second : Nat} {code : List Instruction}
    (counts : CountsFrom second code) (le : first ≤ second) : CountsFrom first code :=
  fun counter start stop body occurs => Nat.le_trans le (counts counter start stop body occurs)

theorem CountsFrom.append {first : ValueId} {code rest : List Instruction}
    (one : CountsFrom first code) (other : CountsFrom first rest) : CountsFrom first (code ++ rest) :=
  fun counter start stop body occurs =>
    occurs.of_append.elim (one counter start stop body) (other counter start stop body)

theorem countsFrom_nil (first : ValueId) : CountsFrom first [] :=
  fun _ _ _ _ occurs => nomatch occurs

/-- A law that the code of a routine obeys if its instructions obey it.  What the checks of the emitter
let through obeys it, and code keeps it when more is declared. -/
structure Declarations.Law (law : Declarations → List Instruction → Prop) : Prop where
  nil (declared : Declarations) : law declared []
  append {declared : Declarations} {code rest : List Instruction} (first : law declared code)
      (second : law declared rest) : law declared (code ++ rest)
  extend {declared more : Declarations} {code : List Instruction} (obeys : law declared code)
      (extended : declared.Extends more) : law more code
  assign {declared : Declarations} {target : ValueId} {expression : Expression} {type : ValueType}
      (has_type : declared.HasType expression type)
      (target_type : declared.values[target]? = some type) : law declared [.assign target expression]
  store {declared : Declarations} {array : ArrayId} {position : Position} {value : ValueId}
      {type : ScalarType} (admits : declared.Admits array position type)
      (value_type : declared.values[value]? = some (.scalar type))
      (variable_elements : ∀ values, declared.arrays[array]? ≠ some (.constant values)) :
      law declared [.store array position value]
  loop {declared : Declarations} {counter : ValueId} {start stop : Nat} {body : List Instruction}
      (counts : declared.values[counter]? = some .index) (fresh : CountsFrom (counter + 1) body)
      (turn : law declared body) : law declared [.loop counter start stop body]
  branch {declared : Declarations} {condition : ValueId} {body : List Instruction}
      (condition_type : declared.values[condition]? = some (.scalar .bool)) (taken : law declared body) :
      law declared [.branch condition body]
  call {declared : Declarations} {callee : Callee} {arguments : List Argument}
      (passes : ∀ argument ∈ arguments, argument.Declared declared) :
      law declared [.call callee arguments]

/-- Typed code is lawful. -/
theorem Declarations.law_typed : Law Typed where
  nil _ := .nil
  append := .append
  extend := .extend
  assign has_type target_type := .assign has_type target_type .nil
  store admits value_type _ := .store admits value_type .nil
  loop counts _ turn := .loop counts turn .nil
  branch condition_type taken := .branch condition_type taken .nil
  call passes := .call passes .nil

/-- A routine has grown by code that obeys a law, whatever routines exist, and whose loops count with
new variables. -/
def Builder.Appends (law : Declarations → List Instruction → Prop) (before after : Builder) : Prop :=
  ∃ code, before.Grows code after ∧ law (after.declarations fun _ _ => False) code ∧
    CountsFrom before.valueTypes.size code

namespace Builder

variable {law : Declarations → List Instruction → Prop} {before between after : Builder}
  {code : List Instruction}

/-- A routine that has grown without code. -/
theorem Grows.appends (grows : before.Grows [] after) (lawful : Declarations.Law law) :
    before.Appends law after :=
  ⟨[], grows, lawful.nil _, countsFrom_nil _⟩

theorem Appends.refl (lawful : Declarations.Law law) (builder : Builder) : builder.Appends law builder :=
  (Grows.refl builder).appends lawful

theorem Appends.trans (lawful : Declarations.Law law) (first : before.Appends law between)
    (second : between.Appends law after) : before.Appends law after := by
  obtain ⟨code, grows, obeys, fresh⟩ := first
  obtain ⟨rest, restGrows, restObeys, restFresh⟩ := second
  exact ⟨code ++ rest, grows.trans restGrows,
    lawful.append (lawful.extend obeys (restGrows.extends fun _ _ callee => callee)) restObeys,
    fresh.append (restFresh.mono grows.values_le)⟩

/-- A routine has grown by an instruction after it has grown without code. -/
theorem appends_push {instruction : Instruction} (grows : before.Grows [] after)
    (obeys : law (after.declarations fun _ _ => False) [instruction])
    (fresh : CountsFrom before.valueTypes.size [instruction]) :
    before.Appends law (after.push instruction) :=
  ⟨_, grows.trans (.push after instruction), obeys, fresh⟩

/-- A new variable is assigned an expression of its type. -/
theorem appends_define (lawful : Declarations.Law law) {type : ValueType} {expression : Expression}
    (hasType : (before.declarations fun _ _ => False).HasType expression type) :
    before.Appends law (before.define type expression) := by
  have grows := Grows.define before type expression
  refine ⟨_, grows, lawful.assign ((grows.extends fun _ _ callee => callee).hasType hasType) ?_, ?_⟩
  · simp [declarations, define]
  · intro _ _ _ _ occurs
    cases occurs with
    | later none => cases none

/-- A position that has passed its checks is admitted. -/
theorem admits_of_position {window : ArrayRef} {index : Index} {position : Position}
    (checked : before.checkArray window = .ok ())
    (placed : before.position window index = .ok position) :
    (before.declarations fun _ _ => False).Admits window.array position window.type := by
  obtain ⟨declaration, declared, room, typed⟩ := checkArray_eq_ok_iff.mp checked
  refine ⟨declaration, declared, typed, ?_⟩
  cases index with
  | fixed index =>
      obtain ⟨inside, rfl⟩ := position_fixed_eq_ok_iff.mp placed
      exact Nat.lt_of_lt_of_le (Nat.add_lt_add_left inside _) room
  | value value =>
      simp only [Builder.position, bind_eq_ok_iff, pure_eq_ok_iff] at placed
      obtain ⟨_, typed, rfl⟩ := placed
      exact expectType_eq_ok_iff.mp typed

/-- An argument that has passed its checks is declared. -/
theorem declared_of_argument {operand : Operand} {argument : Argument}
    (checked : before.argument operand = .ok argument) :
    argument.Declared (before.declarations fun _ _ => False) := by
  cases operand with
  | value value =>
      simp only [Builder.argument, bind_eq_ok_iff, pure_eq_ok_iff] at checked
      obtain ⟨type, found, rfl⟩ := checked
      exact ⟨type, valueType_eq_ok_iff.mp found⟩
  | array window =>
      obtain ⟨inside, rfl⟩ := argument_array_eq_ok_iff.mp checked
      obtain ⟨declaration, declared, room, _⟩ := checkArray_eq_ok_iff.mp inside
      exact ⟨declaration, declared, room⟩

end Builder

namespace Emit

variable {σ α β : Type} {law : Declarations → List Instruction → Prop} {before : Builder × σ}

/-- Whether an action fails or not, the routine grows by code that obeys a law. -/
def Appends (law : Declarations → List Instruction → Prop) (action : Emit σ α) (before : Builder × σ) :
    Prop :=
  before.1.Appends law (outcome action before).2.1

theorem Appends.bind (lawful : Declarations.Law law) {action : Emit σ α} {next : α → Emit σ β}
    (first : action.Appends law before)
    (second : ∀ value between, Succeeds action before value between →
      (next value).Appends law between) : (action >>= next).Appends law before := by
  unfold Appends at first ⊢
  rw [outcome_bind]
  rcases done : outcome action before with ⟨error | value, between⟩
  · rwa [done] at first
  · rw [done] at first
    exact first.trans lawful (second value between done)

theorem Appends.tryCatch (lawful : Declarations.Law law) {action : Emit σ α}
    {handler : CompileError → Emit σ α} (tried : action.Appends law before)
    (handled : ∀ error between, (handler error).Appends law between) :
    (tryCatch action handler).Appends law before := by
  unfold Appends at tried ⊢
  rw [outcome_tryCatch]
  rcases done : outcome action before with ⟨error | value, between⟩
  · rw [done] at tried
    exact tried.trans lawful (handled error between)
  · rwa [done] at tried

/-- An action that starts by looking at the routine. -/
theorem Appends.look {next : Builder → Emit σ α} (rest : (next before.1).Appends law before) :
    (builder >>= next).Appends law before :=
  rest

/-- An action that starts with a check. -/
theorem Appends.check (lawful : Declarations.Law law) {checked : Except CompileError α}
    {next : α → Emit σ β} (rest : ∀ value, checked = .ok value → (next value).Appends law before) :
    (check checked >>= next).Appends law before := by
  cases checked with
  | error error => exact .refl lawful before.1
  | ok value => exact rest value rfl

/-! ## Emitter calls -/

theorem appends_literal (lawful : Declarations.Law law) (value : Literal) :
    (literal value).Appends law before :=
  Builder.appends_define lawful (.literal value)

theorem appends_assign (lawful : Declarations.Law law) (target source : ValueId) :
    (assign target source).Appends law before := by
  refine .look (.check lawful fun type found => .check lawful fun _ sourceType => ?_)
  exact Builder.appends_push (.refl before.1)
    (lawful.assign (.copy (Builder.expectType_eq_ok_iff.mp sourceType))
      (Builder.valueType_eq_ok_iff.mp found)) fun _ _ _ _ occurs => nomatch occurs

theorem appends_declareArray (lawful : Declarations.Law law) (type : ScalarType) (length : Nat) :
    (declareArray type length).Appends law before :=
  (Builder.Grows.withArray before.1 (.scratch type length)).appends lawful

theorem appends_declareConstant (lawful : Declarations.Law law) (values : Buffer) :
    (declareConstant values).Appends law before :=
  (Builder.Grows.withArray before.1 (.constant values)).appends lawful

theorem appends_load (lawful : Declarations.Law law) (window : ArrayRef) (index : Index) :
    (load window index).Appends law before := by
  refine .look (.check lawful fun _ checked => .check lawful fun position placed => ?_)
  exact Builder.appends_define lawful (.load (Builder.admits_of_position checked placed))

theorem appends_store (lawful : Declarations.Law law) (window : ArrayRef) (index : Index)
    (value : ValueId) : (store window index value).Appends law before := by
  refine .look (.check lawful fun _ checked => ?_)
  split
  · exact .refl lawful before.1
  · rename_i notConstant
    refine .check lawful fun _ valueType => .check lawful fun position placed => ?_
    refine Builder.appends_push (.refl before.1)
      (lawful.store (Builder.admits_of_position checked placed)
        (Builder.expectType_eq_ok_iff.mp valueType) fun values declared => notConstant ?_)
      fun _ _ _ _ occurs => nomatch occurs
    have declared : before.1.arrays[window.array]? = some (.constant values) := declared
    simp [Builder.isConstant, declared, ArrayDeclaration.isConstant]

theorem appends_binary (lawful : Declarations.Law law) (op : BinaryOp) (left right : ValueId) :
    (binary op left right).Appends law before := by
  refine .look (.check lawful fun type leftType => ?_)
  split
  · exact .refl lawful before.1
  · rename_i float
    refine .check lawful fun _ rightType => ?_
    obtain ⟨real, rfl⟩ := exists_realType float
    exact Builder.appends_define lawful (.binary (Builder.valueType_eq_ok_iff.mp leftType)
      (Builder.expectType_eq_ok_iff.mp rightType))

theorem appends_compare (lawful : Declarations.Law law) (predicate : Predicate) (left right : ValueId) :
    (compare predicate left right).Appends law before := by
  refine .look (.check lawful fun type leftType => ?_)
  split
  · exact .refl lawful before.1
  · rename_i scalar
    refine .check lawful fun _ rightType => ?_
    cases type with
    | index => exact absurd rfl scalar
    | scalar type =>
        exact Builder.appends_define lawful (.compare (Builder.valueType_eq_ok_iff.mp leftType)
          (Builder.expectType_eq_ok_iff.mp rightType))

theorem appends_call (lawful : Declarations.Law law) (callee : Callee) (operands : List Operand) :
    (call callee operands).Appends law before := by
  refine .look (.check lawful fun arguments passed => ?_)
  refine Builder.appends_push (.refl before.1) (lawful.call fun argument mem => ?_)
    fun _ _ _ _ occurs => nomatch occurs
  obtain ⟨operand, _, checked⟩ := exists_of_mem_right (mapM_eq_ok_iff.mp passed) mem
  exact Builder.declared_of_argument checked

/-- A block is closed again, whether its body fails or not. -/
theorem outcome_inBlock (body : Emit σ Unit) (before : Builder × σ) :
    outcome (inBlock body) before =
      match outcome body (before.1.openBlock, before.2) with
      | (.ok (), inner) => (.ok inner.1.block.toList, (inner.1.closeBlock, inner.2))
      | (.error error, inner) => (.error error, (inner.1.closeBlock, inner.2)) := by
  have opened : outcome (modifyBuilder Builder.openBlock : Emit σ Unit) before =
      (.ok (), (before.1.openBlock, before.2)) := rfl
  simp only [inBlock, outcome_bind, opened, outcome_tryCatch]
  rcases outcome body (before.1.openBlock, before.2) with ⟨error | ⟨⟩, inner⟩ <;> rfl

/-- An action that runs a body in a block and pushes what it has appended there, in an instruction that
wraps it.  Nothing else of the block is left outside. -/
theorem appends_block (lawful : Declarations.Law law) {start : Builder}
    (grows : start.Grows [] before.1) {body : Emit σ Unit} {wrap : List Instruction → Instruction}
    (inside : body.Appends law (before.1.openBlock, before.2))
    (obeys : ∀ code (after : Builder), before.1.Grows [] after →
      law (after.declarations fun _ _ => False) code → CountsFrom before.1.valueTypes.size code →
        law (after.declarations fun _ _ => False) [wrap code] ∧
          CountsFrom start.valueTypes.size [wrap code]) :
    start.Appends law (outcome (inBlock body >>= fun code => push (wrap code)) before).2.1 := by
  obtain ⟨code, inner, codeObeys, fresh⟩ := inside
  obtain ⟨same, closed⟩ := inner.block
  rw [outcome_bind, outcome_inBlock]
  rcases done : outcome body (before.1.openBlock, before.2) with ⟨error | ⟨⟩, after⟩
  · rw [done] at closed
    exact (grows.trans closed).appends lawful
  · rw [done] at same closed codeObeys
    have closedObeys : law (after.1.closeBlock.declarations fun _ _ => False) code := by
      simpa [Builder.declarations] using codeObeys
    obtain ⟨wrapped, counts⟩ := obeys code _ closed closedObeys fresh
    rw [← same] at wrapped counts
    exact Builder.appends_push (grows.trans closed) wrapped counts

/-- A loop declares its counter before it opens a block. -/
theorem outcome_loop (start stop : Nat) (body : ValueId → Emit σ Unit) (before : Builder × σ) :
    outcome (loop start stop body) before =
      outcome (inBlock (body before.1.valueTypes.size) >>= fun code =>
        push (.loop before.1.valueTypes.size start stop code)) (before.1.withValue .index, before.2) :=
  outcome_bind_of_succeeds (succeeds_newValue_iff.mpr ⟨rfl, rfl⟩) _

theorem appends_loop (lawful : Declarations.Law law) (start stop : Nat) {body : ValueId → Emit σ Unit}
    (turn : ∀ counter between, (body counter).Appends law between) :
    (loop start stop body).Appends law before := by
  have counts : ((before.1.withValue .index).declarations fun _ _ => False).values[
      before.1.valueTypes.size]? = some .index := by
    simp [Builder.declarations, Builder.withValue]
  have size : (before.1.withValue .index).valueTypes.size = before.1.valueTypes.size + 1 := by
    simp [Builder.withValue]
  rw [Appends, outcome_loop]
  refine appends_block lawful (.withValue before.1 .index) (turn _ _)
    fun code after grows obeys fresh => ?_
  rw [size] at fresh
  refine ⟨lawful.loop ((grows.extends fun _ _ callee => callee).values _ _ counts) fresh obeys, ?_⟩
  intro counter _ _ _ occurs
  cases occurs with
  | here => exact Nat.le_refl _
  | later none => cases none
  | loop inside => exact Nat.le_of_succ_le (fresh _ _ _ _ inside)

theorem appends_branch (lawful : Declarations.Law law) (condition : ValueId) {body : Emit σ Unit}
    (taken : ∀ between, body.Appends law between) : (branch condition body).Appends law before := by
  refine .look (.check lawful fun _ conditionType => ?_)
  refine appends_block lawful (.refl before.1) (taken _) fun code after grows obeys fresh => ⟨?_, ?_⟩
  · exact lawful.branch ((grows.extends fun _ _ callee => callee).values _ _
      (Builder.expectType_eq_ok_iff.mp conditionType)) obeys
  · intro counter _ _ _ occurs
    cases occurs with
    | later none => cases none
    | branch inside => exact fresh _ _ _ _ inside

/-- Whatever a client does, its routine grows by lawful code.  The induction is on the calls of the
client. -/
theorem Calls.appends (lawful : Declarations.Law law) {action : Emit σ α} (calls : action.Calls)
    (before : Builder × σ) : action.Appends law before := by
  induction calls generalizing before with
  | pure => exact .refl lawful before.1
  | throw => exact .refl lawful before.1
  | builder => exact .refl lawful before.1
  | own => exact .refl lawful before.1
  | modifyOwn => exact .refl lawful before.1
  | bind _ _ first second =>
      exact (first before).bind lawful fun value between _ => second value between
  | tryCatch _ _ tried handled => exact (tried before).tryCatch lawful handled
  | literal value => exact appends_literal lawful value
  | assign target source => exact appends_assign lawful target source
  | declareArray type length => exact appends_declareArray lawful type length
  | declareConstant values => exact appends_declareConstant lawful values
  | load window index => exact appends_load lawful window index
  | store window index value => exact appends_store lawful window index value
  | binary op left right => exact appends_binary lawful op left right
  | compare predicate left right => exact appends_compare lawful predicate left right
  | loop start stop _ turn => exact appends_loop lawful start stop turn
  | branch condition _ taken => exact appends_branch lawful condition taken
  | call callee operands => exact appends_call lawful callee operands

end Emit

/-! ## Programs -/

/-- A routine with typed code, whose parameters come first among its arrays. -/
structure Routine.Typed (routine : Routine) : Prop where
  parameters : ∀ (index : Nat) (parameter : Parameter),
    routine.parameters[index]? = some parameter →
      routine.arrays[index]? = some (.parameter parameter.type parameter.length)
  body : (routine.declarations fun _ _ => False).Typed routine.body

section Laws

variable {law : Declarations → List Instruction → Prop} {builder : Builder}

theorem Builder.Built.appends (lawful : Declarations.Law law) (built : builder.Built) :
    ∃ name parameters, (Builder.start name parameters).Appends law builder := by
  induction built with
  | start name parameters => exact ⟨name, parameters, .refl lawful _⟩
  | @emit builder _ σ _ _ calls own ih =>
      obtain ⟨name, parameters, appends⟩ := ih
      exact ⟨name, parameters, appends.trans lawful (calls.appends lawful (builder, own))⟩

/-- All code of a routine that clients have made is lawful. -/
theorem Builder.Built.obeys (lawful : Declarations.Law law) (built : builder.Built) :
    law (builder.finish.declarations fun _ _ => False) builder.finish.body := by
  obtain ⟨name, parameters, code, grows, obeys, _⟩ := built.appends lawful
  have body : builder.finish.body = code := by
    have enclosing : builder.enclosing = [] := grows.enclosing_eq
    have block : builder.block.toList = code := grows.block_eq
    simp [finish, enclosing, block]
  exact body ▸ obeys

end Laws

/-- A routine that clients have made is typed. -/
theorem Builder.Built.typed {builder : Builder} (built : builder.Built) : builder.finish.Typed := by
  refine ⟨fun index parameter found => ?_, built.obeys Declarations.law_typed⟩
  obtain ⟨name, parameters, code, grows, _⟩ := built.appends Declarations.law_typed
  have declared : parameters[index]? = some parameter := by
    rw [← found]
    exact congrArg (·[index]?) grows.parameters_eq.symm
  have bound : index < (Builder.start name parameters).arrays.size := by
    simpa [Builder.start] using (List.getElem?_eq_some_iff.mp declared).1
  have kept : builder.finish.arrays[index]? = (Builder.start name parameters).arrays[index]? :=
    grows.getElem?_arrays bound
  rw [kept]
  simp [Builder.start, declared]

/-- Every routine of a program that clients have assembled was made by them. -/
theorem Program.Assembled.exists_built {program : Program} (assembled : program.Assembled) :
    ∀ routine ∈ program.routines, ∃ builder : Builder, builder.Built ∧ routine = builder.finish := by
  induction assembled with
  | empty => simp [Program.empty]
  | @define program after builder _ built defined ih =>
      unfold Program.define at defined
      split at defined
      · contradiction
      · obtain rfl := Except.ok.inj defined
        simp only [List.mem_append, List.mem_singleton]
        rintro routine (old | rfl)
        · exact ih routine old
        · exact ⟨builder, built, rfl⟩

theorem Program.Assembled.typed {program : Program} (assembled : program.Assembled) :
    ∀ routine ∈ program.routines, routine.Typed := by
  intro routine mem
  obtain ⟨builder, built, rfl⟩ := assembled.exists_built routine mem
  exact built.typed

end Dataflow
