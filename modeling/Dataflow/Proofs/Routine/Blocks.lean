import Dataflow.Proofs.Routine.Emission

/-!
# Blocks

Loops and branches collect their code in blocks of their own.  Whatever an emitter action does inside,
it pushes into the innermost block and leaves the blocks around it alone.  So a loop or a branch that
succeeds adds one instruction, which holds what its body has pushed, and one that fails leaves all open
blocks as they were.
-/

namespace Dataflow

/-! ## Open blocks -/

namespace Builder

variable {before after : Builder} {code : List Instruction}

/-- The instructions of the open blocks, the innermost block first. -/
def blocks (builder : Builder) : List (List Instruction) :=
  builder.block.toList :: builder.enclosing.map Array.toList

/-- A routine that grows by some code has it at the end of its innermost block. -/
theorem Grows.blocks_eq (grows : before.Grows code after) :
    after.blocks = (before.block.toList ++ code) :: before.enclosing.map Array.toList := by
  rw [blocks, grows.block_eq, grows.enclosing_eq]

theorem Grows.blocks_eq_of_nil (grows : before.Grows [] after) : after.blocks = before.blocks := by
  rw [grows.blocks_eq, List.append_nil, blocks]

/-- A variable has the expected type, or it has another one, or it is not declared. -/
theorem expectType_eq (builder : Builder) (operation : String) (value : ValueId)
    (expected : ValueType) :
    builder.expectType operation value expected =
      match builder.valueTypes[value]? with
      | none => .error (.unknownValue value)
      | some found =>
          if found = expected then .ok () else .error (.typeMismatch operation expected found) := by
  unfold expectType valueType
  cases builder.valueTypes[value]? with
  | none => rfl
  | some found =>
      by_cases same : found = expected
      · simp [bind, Except.bind, pure, Except.pure, same]
      · simp [bind, Except.bind, throw, throwThe, MonadExceptOf.throw, same]

end Builder

namespace Emit

variable {σ α β : Type} {before opened : Builder × σ} {action : Emit σ α} {next : α → Emit σ β}

/-! ## What is pushed -/

/-- What an action adds to the innermost block, whether it fails or not. -/
def pushed (action : Emit σ α) (before : Builder × σ) : List Instruction :=
  (outcome action before).2.1.block.toList.drop before.1.block.size

theorem pushed_of_grows {code : List Instruction}
    (grows : before.1.Grows code (outcome action before).2.1) : pushed action before = code := by
  rw [pushed, grows.block_eq, ← Array.length_toList, List.drop_left]

/-- A client adds to the innermost block, and to no other. -/
theorem Calls.grows (calls : action.Calls) (before : Builder × σ) :
    before.1.Grows (pushed action before) (outcome action before).2.1 := by
  obtain ⟨code, grows, _⟩ := calls.appends Declarations.law_typed before
  rwa [pushed_of_grows grows]

/-- Actions push one after another.  After a failure nothing more is pushed. -/
theorem Calls.pushed_bind (first : action.Calls) (second : ∀ value, (next value).Calls) :
    pushed (action >>= next) before =
      match outcome action before with
      | (.ok value, between) => pushed action before ++ pushed (next value) between
      | (.error _, _) => pushed action before := by
  have grows := first.grows before
  have unfolded := outcome_bind action next before
  apply pushed_of_grows
  rcases done : outcome action before with ⟨error | value, between⟩
  · rw [done] at grows unfolded
    exact unfolded ▸ grows
  · rw [done] at grows unfolded
    exact unfolded ▸ grows.trans ((second value).grows between)

/-- A handler pushes after what was pushed before the failure. -/
theorem Calls.pushed_tryCatch {handler : CompileError → Emit σ α} (tried : action.Calls)
    (handled : ∀ error, (handler error).Calls) :
    pushed (MonadExcept.tryCatch action handler) before =
      match outcome action before with
      | (.ok _, _) => pushed action before
      | (.error error, between) => pushed action before ++ pushed (handler error) between := by
  have grows := tried.grows before
  have unfolded := outcome_tryCatch action handler before
  apply pushed_of_grows
  rcases done : outcome action before with ⟨error | value, between⟩
  · rw [done] at grows unfolded
    exact unfolded ▸ grows.trans ((handled error).grows between)
  · rw [done] at grows unfolded
    exact unfolded ▸ grows

/-! ## Loops and branches -/

/-- An action runs a body in a block of its own, from a routine on where that block is open.  Inside,
only that block changes.  The action ends as the body does, with as many open blocks as before.  If it
succeeds, one instruction has been added, which wraps what the body has pushed; if it fails, all open
blocks are as they were. -/
structure Wraps (action : Emit σ Unit) (wrap : List Instruction → Instruction) (body : Emit σ Unit)
    (before opened : Builder × σ) : Prop where
  inside : (outcome body opened).2.1.blocks = pushed body opened :: before.1.blocks
  result : (outcome action before).1 = (outcome body opened).1
  own : (outcome action before).2.2 = (outcome body opened).2.2
  depth : (outcome action before).2.1.blocks.length = before.1.blocks.length
  succeeded : (outcome body opened).1 = .ok () →
    (outcome action before).2.1.blocks =
      (before.1.block.toList ++ [wrap (pushed body opened)]) :: before.1.enclosing.map Array.toList
  failed : ∀ error, (outcome body opened).1 = .error error →
    (outcome action before).2.1.blocks = before.1.blocks

/-- Wrapping depends on the outcome of the action and on the blocks that are open. -/
theorem Wraps.congr {other body : Emit σ Unit} {wrap : List Instruction → Instruction}
    {start inner : Builder × σ} (wraps : other.Wraps wrap body start inner) {action : Emit σ Unit}
    (same : outcome action before = outcome other start)
    (block : start.1.block = before.1.block) (enclosing : start.1.enclosing = before.1.enclosing) :
    action.Wraps wrap body before inner := by
  have blocks : start.1.blocks = before.1.blocks := by rw [Builder.blocks, block, enclosing]; rfl
  exact {
    inside := by rw [wraps.inside, blocks]
    result := same ▸ wraps.result
    own := same ▸ wraps.own
    depth := by rw [same, wraps.depth, blocks]
    succeeded := fun done => by rw [same, wraps.succeeded done, block, enclosing]
    failed := fun error done => by rw [same, wraps.failed error done, blocks] }

/-- The code of a block is wrapped after the block has been closed. -/
theorem Calls.wraps {body : Emit σ Unit} (calls : body.Calls) (wrap : List Instruction → Instruction)
    (before : Builder × σ) :
    (inBlock body >>= fun code => push (wrap code)).Wraps wrap body before
      (before.1.openBlock, before.2) := by
  have grows := calls.grows (before.1.openBlock, before.2)
  have inside : (outcome body (before.1.openBlock, before.2)).2.1.blocks =
      pushed body (before.1.openBlock, before.2) :: before.1.blocks := grows.blocks_eq
  obtain ⟨same, closed⟩ := grows.block
  have unfolded := outcome_bind (inBlock body) (fun code => push (wrap code)) before
  rw [outcome_inBlock] at unfolded
  rcases done : outcome body (before.1.openBlock, before.2) with ⟨error | ⟨⟩, inner⟩
  · rw [done] at closed unfolded
    refine ⟨inside, by rw [unfolded, done], by rw [unfolded, done], ?_, fun succeeded => ?_,
      fun _ _ => ?_⟩
    · rw [unfolded, closed.blocks_eq_of_nil]
    · simp [done] at succeeded
    · rw [unfolded, closed.blocks_eq_of_nil]
  · rw [done] at closed unfolded same
    have pushes : outcome (push (wrap inner.1.block.toList) : Emit σ Unit)
        (inner.1.closeBlock, inner.2) =
          (.ok (), (inner.1.closeBlock.push (wrap inner.1.block.toList), inner.2)) := rfl
    have blocks : (inner.1.closeBlock.push (wrap inner.1.block.toList)).blocks =
        (before.1.block.toList ++ [wrap (pushed body (before.1.openBlock, before.2))]) ::
          before.1.enclosing.map Array.toList := by
      rw [← same]
      exact (closed.trans (.push _ _)).blocks_eq
    simp only [pushes] at unfolded
    refine ⟨inside, by rw [unfolded, done], by rw [unfolded, done], ?_, fun _ => ?_,
      fun _ failed => ?_⟩
    · rw [unfolded, blocks, Builder.blocks, List.length_cons, List.length_cons]
    · rw [unfolded, blocks]
    · simp [done] at failed

/-- A loop wraps its body, whose counter is a new variable. -/
theorem wraps_loop (start stop : Nat) {body : ValueId → Emit σ Unit}
    (turn : ∀ counter, (body counter).Calls) (before : Builder × σ) :
    (loop start stop body).Wraps (.loop before.1.valueTypes.size start stop)
      (body before.1.valueTypes.size) before
      ((before.1.withValue .index).openBlock, before.2) :=
  ((turn before.1.valueTypes.size).wraps (.loop before.1.valueTypes.size start stop)
    (before.1.withValue .index, before.2)).congr (outcome_loop start stop body before) rfl rfl

/-- A branch checks its condition before it opens a block. -/
theorem outcome_branch (condition : ValueId) (body : Emit σ Unit) (before : Builder × σ) :
    outcome (branch condition body) before =
      match before.1.expectType "branch" condition ScalarType.bool with
      | .error error => (.error error, before)
      | .ok () => outcome (inBlock body >>= fun code => push (.branch condition code)) before := by
  have looks : outcome (branch condition body) before =
      outcome (check (before.1.expectType "branch" condition ScalarType.bool) >>= fun _ =>
        inBlock body >>= fun code => push (.branch condition code)) before :=
    outcome_bind_of_succeeds (succeeds_builder_iff.mpr ⟨rfl, rfl⟩) _
  rw [looks]
  cases before.1.expectType "branch" condition ScalarType.bool <;> rfl

/-- Blocks leave no trace when they fail.  For every routine under construction and every body that a
client makes of emitter calls, nested to any depth, whether it passes on the failures of its calls or
goes on after them: a loop ends as its body does, with as many open blocks as before.  If it succeeds,
it has added one loop to the innermost block, which holds what its body has pushed, in order
(`Calls.pushed_bind`); if it fails, all open blocks have the instructions that they had.  The same
holds of a branch on a boolean.  A branch on another variable is refused, and nothing changes at
all. -/
theorem blocks_leave_no_trace (before : Builder × σ) :
    (∀ (start stop : Nat) (body : ValueId → Emit σ Unit), (∀ counter, (body counter).Calls) →
      (loop start stop body).Wraps (.loop before.1.valueTypes.size start stop)
        (body before.1.valueTypes.size) before
        ((before.1.withValue .index).openBlock, before.2)) ∧
      ∀ (condition : ValueId) (body : Emit σ Unit), body.Calls →
        match before.1.valueTypes[condition]? with
        | none => outcome (branch condition body) before = (.error (.unknownValue condition), before)
        | some type =>
            if type = .scalar .bool then
              (branch condition body).Wraps (.branch condition) body before
                (before.1.openBlock, before.2)
            else
              outcome (branch condition body) before =
                (.error (.typeMismatch "branch" ScalarType.bool type), before) := by
  refine ⟨fun start stop body turn => wraps_loop start stop turn before,
    fun condition body taken => ?_⟩
  have unfolded := outcome_branch condition body before
  rw [Builder.expectType_eq] at unfolded
  cases declared : before.1.valueTypes[condition]? with
  | none =>
      rw [declared] at unfolded
      exact unfolded
  | some type =>
      rw [declared] at unfolded
      dsimp only at unfolded ⊢
      split
      · rename_i boolean
        rw [if_pos boolean] at unfolded
        exact (taken.wraps (.branch condition) before).congr unfolded rfl rfl
      · rename_i other
        rw [if_neg other] at unfolded
        exact unfolded

/-- The body of a loop over an array.  It tries another loop, which stores past the end, and goes on
without it. -/
def stubborn (counter : ValueId) : Emit Unit Unit := do
  let item ← load ⟨0, .f64, 0, 4⟩ (.value counter)
  tryCatch
    (loop 0 2 fun _ => do
      let other ← load ⟨0, .f64, 0, 4⟩ (.fixed 0)
      store ⟨0, .f64, 0, 4⟩ (.fixed 4) other)
    fun _ => pure ()
  store ⟨0, .f64, 0, 4⟩ (.value counter) item

/-- Of the loop that was tried, nothing is left in the code. -/
theorem blocks_leave_no_trace_stubborn :
    (∀ counter, (stubborn counter).Calls) ∧
      (outcome (loop 0 4 stubborn) (.start "keep" [⟨"data", .f64, 4⟩], ())).2.1.blocks =
        [[.loop 0 0 4 [.assign 1 (.load 0 (.indexed 0 0)), .store 0 (.indexed 0 0) 1]]] := by
  have calls : ∀ counter, (stubborn counter).Calls := fun counter =>
    .bind (.load _ _) fun _ => .bind
      (.tryCatch (.loop 0 2 fun _ => .bind (.load _ _) fun _ => .store _ _ _) fun _ => .pure ())
      fun _ => .store _ _ _
  refine ⟨calls, ?_⟩
  have wraps := (blocks_leave_no_trace (.start "keep" [⟨"data", .f64, 4⟩], ())).1 0 4 stubborn calls
  exact wraps.succeeded rfl

end Emit

end Dataflow
