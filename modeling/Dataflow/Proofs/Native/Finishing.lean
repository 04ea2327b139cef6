import Dataflow.Native.Execution
import Dataflow.Proofs.Native.Memory
import Dataflow.Proofs.Routine.SafeRuns

/-!
# Native code of safe code ends

The native code of safe code runs to its end whatever the machine holds: its loops count up to
numbers below 2^31, and nothing but the loop itself writes to its counter.  Once a call of the host
has failed, the failure and the calls that were made stay as they are.
-/

namespace Dataflow.Native

/-! ## Effects -/

section Effects

variable {α β : Type} {before after : Machine}

/-- Native code ends on a machine with a value, and leaves another machine. -/
def Ends (effect : Effect α) (before : Machine) (value : α) (after : Machine) : Prop :=
  effect.run.run before = (some value, after)

theorem ends_bind_iff {effect : Effect α} {next : α → Effect β} {value : β} :
    Ends (effect >>= next) before value after ↔
      ∃ first between, Ends effect before first between ∧ Ends (next first) between value after := by
  have unfolded : (effect >>= next).run.run before =
      match effect.run.run before with
      | (some first, between) => (next first).run.run between
      | (none, between) => (none, between) := by
    rw [OptionT.run_bind, Option.elimM, StateT.run_bind]
    rcases effect.run.run before with ⟨_ | first, between⟩ <;> rfl
  rw [Ends, unfolded]
  rcases done : effect.run.run before with ⟨_ | first, between⟩
  · constructor
    · intro impossible
      exact absurd (congrArg Prod.fst impossible) (by simp)
    · rintro ⟨first, middle, ends, _⟩
      exact absurd (congrArg Prod.fst (done.symm.trans ends)) (by simp)
  · constructor
    · exact fun rest => ⟨first, between, done, rest⟩
    · rintro ⟨other, middle, ends, rest⟩
      have same : (some first, between) = (some other, middle) := done.symm.trans ends
      obtain ⟨⟨⟩, rfl⟩ := Prod.mk.inj same
      exact rest

@[simp]
theorem ends_pure_iff {value result : α} :
    Ends (pure value) before result after ↔ result = value ∧ after = before := by
  constructor
  · rintro ⟨⟩
    exact ⟨rfl, rfl⟩
  · rintro ⟨rfl, rfl⟩
    rfl

theorem ends_get : Ends (get : Effect Machine) before before before :=
  rfl

theorem ends_modify (change : Machine → Machine) :
    Ends (modify change : Effect Unit) before () (change before) :=
  rfl

theorem Ends.bind {effect : Effect α} {next : α → Effect β} {first : α} {value : β}
    {between : Machine} (ends : Ends effect before first between)
    (rest : Ends (next first) between value after) : Ends (effect >>= next) before value after :=
  ends_bind_iff.mpr ⟨first, between, ends, rest⟩

/-- The word in a variable. -/
def Machine.word (machine : Machine) (value : ValueId) : Word :=
  (machine.registers[value]?).getD (.index 0)

theorem ends_readValue (machine : Machine) (value : ValueId) :
    Ends (Effect.readValue value) machine (machine.word value) machine :=
  rfl

theorem ends_readIndex {machine : Machine} {value : ValueId} {index : UInt64}
    (counts : machine.registers[value]? = some (.index index)) :
    Ends (Effect.readIndex value) machine index machine := by
  refine (ends_readValue machine value).bind ?_
  rw [Machine.word, counts]
  rfl

theorem exists_ends_readIndex (machine : Machine) (value : ValueId) :
    ∃ index, Ends (Effect.readIndex value) machine index machine := by
  cases found : machine.word value with
  | index index =>
      refine ⟨index, (ends_readValue machine value).bind ?_⟩
      rw [found]
      rfl
  | f32 | f64 | byte =>
      refine ⟨0, (ends_readValue machine value).bind ?_⟩
      rw [found]
      rfl

/-- A machine on which a variable has been assigned. -/
def Machine.write (machine : Machine) (target : ValueId) (word : Word) : Machine :=
  { machine with registers := machine.registers.setIfInBounds target word }

theorem ends_writeValue (machine : Machine) (target : ValueId) (word : Word) :
    Ends (Effect.writeValue target word) machine () (machine.write target word) :=
  rfl

theorem Machine.size_registers_write (machine : Machine) (target : ValueId) (word : Word) :
    (machine.write target word).registers.size = machine.registers.size := by
  simp [write]

theorem Machine.registers_write (machine : Machine) {target : ValueId} (word : Word)
    (inside : target < machine.registers.size) (value : ValueId) :
    (machine.write target word).registers[value]? =
      if value = target then some word else machine.registers[value]? := by
  simp only [write, Array.getElem?_setIfInBounds, inside, eq_comm, if_true]

end Effects

/-! ## What native code leaves alone -/

/-- After a failed call of the host, neither the failure nor the calls change. -/
def Machine.Quiet (before after : Machine) : Prop :=
  ∀ error, before.failure = some error → after.failure = some error ∧ after.calls = before.calls

theorem Machine.Quiet.of_eq {before after : Machine} (failure : after.failure = before.failure)
    (calls : after.calls = before.calls) : before.Quiet after :=
  fun _ failed => ⟨failure.trans failed, calls⟩

theorem Machine.Quiet.trans {before between after : Machine} (first : before.Quiet between)
    (second : between.Quiet after) : before.Quiet after := by
  intro error failed
  obtain ⟨failure, calls⟩ := first error failed
  obtain ⟨lastFailure, lastCalls⟩ := second error failure
  exact ⟨lastFailure, lastCalls.trans calls⟩

/-- Native code inside some loops keeps their counters. -/
structure Machine.Keeps (counters : Counters) (before after : Machine) : Prop where
  size_registers : after.registers.size = before.registers.size
  counters : ∀ counter ∈ counters.map Prod.fst, after.registers[counter]? = before.registers[counter]?
  quiet : before.Quiet after

section Keeping

variable {counters : Counters} {before between after : Machine}

theorem Machine.Keeps.of_eq (registers : after.registers = before.registers)
    (quiet : before.Quiet after) : before.Keeps counters after :=
  ⟨congrArg Array.size registers, fun _ _ => by rw [registers], quiet⟩

theorem Machine.Keeps.refl (machine : Machine) : machine.Keeps counters machine :=
  .of_eq rfl (.of_eq rfl rfl)

theorem Machine.Keeps.trans (first : before.Keeps counters between)
    (second : between.Keeps counters after) : before.Keeps counters after where
  size_registers := second.size_registers.trans first.size_registers
  counters counter mem := (second.counters counter mem).trans (first.counters counter mem)
  quiet := first.quiet.trans second.quiet

theorem Machine.Keeps.drop {counter : ValueId × Nat}
    (keeps : before.Keeps (counter :: counters) after) : before.Keeps counters after :=
  { keeps with counters := fun other mem => keeps.counters other (List.mem_cons_of_mem _ mem) }

theorem Machine.keeps_write (machine : Machine) {target : ValueId} (word : Word)
    (free : target ∉ counters.map Prod.fst) : machine.Keeps counters (machine.write target word) where
  size_registers := machine.size_registers_write target word
  counters counter mem := by
    have different : target ≠ counter := by
      rintro rfl
      exact free mem
    simp [write, different]
  quiet := .of_eq rfl rfl

/-- Native code runs to its end and keeps the counters of the loops around it. -/
def Finishes (counters : Counters) (effect : Effect Unit) (before : Machine) : Prop :=
  ∃ after, Ends effect before () after ∧ before.Keeps counters after

theorem Finishes.bind {effect : Effect Unit} {next : Unit → Effect Unit}
    (first : Finishes counters effect before)
    (rest : ∀ between, before.Keeps counters between → Finishes counters (next ()) between) :
    Finishes counters (effect >>= next) before := by
  obtain ⟨between, ends, keeps⟩ := first
  obtain ⟨after, restEnds, restKeeps⟩ := rest between keeps
  exact ⟨after, ends.bind restEnds, keeps.trans restKeeps⟩

theorem Finishes.of_ends {α : Type} {effect : Effect α} {next : α → Effect Unit} {value : α}
    (ends : Ends effect before value between) (rest : Finishes counters (next value) between)
    (keeps : before.Keeps counters between) : Finishes counters (effect >>= next) before := by
  obtain ⟨after, restEnds, restKeeps⟩ := rest
  exact ⟨after, ends.bind restEnds, keeps.trans restKeeps⟩

end Keeping

/-! ## Instructions -/

section Instructions

variable {frame : Frame} {declared : Declarations} {counters : Counters} {machine : Machine}

theorem exists_ends_locate (frame : Frame) (machine : Machine) (array : ArrayId)
    (position : Position) :
    ∃ pointer, Ends (frame.locate array position) machine pointer machine := by
  cases position with
  | fixed position => exact ⟨_, rfl⟩
  | indexed value offset =>
      obtain ⟨index, read⟩ := exists_ends_readIndex machine value
      exact ⟨_, read.bind rfl⟩

theorem exists_ends_evaluate (frame : Frame) (machine : Machine) (expression : Expression) :
    ∃ word, Ends (frame.evaluate expression) machine word machine := by
  cases expression with
  | literal value => exact ⟨_, rfl⟩
  | copy source => exact ⟨_, rfl⟩
  | load array position =>
      obtain ⟨pointer, located⟩ := exists_ends_locate frame machine array position
      exact ⟨_, located.bind rfl⟩
  | binary op left right => exact ⟨_, rfl⟩
  | compare predicate left right => exact ⟨_, rfl⟩

theorem finishes_assign {target : ValueId} {expression : Expression}
    (free : target ∉ counters.map Prod.fst) :
    Finishes counters (frame.execute (.assign target expression)) machine := by
  obtain ⟨word, evaluated⟩ := exists_ends_evaluate frame machine expression
  exact ⟨_, evaluated.bind (ends_writeValue _ _ _), machine.keeps_write word free⟩

theorem finishes_store {array : ArrayId} {position : Position} {value : ValueId} :
    Finishes counters (frame.execute (.store array position value)) machine := by
  obtain ⟨pointer, located⟩ := exists_ends_locate frame machine array position
  exact ⟨_, (ends_readValue machine value).bind (located.bind rfl), .of_eq rfl (.of_eq rfl rfl)⟩

/-- A call of the host after a failed one is skipped. -/
theorem ends_callHost_of_failed {host : Host} {name : String} {arguments : Effect (List HostValue)}
    {error : RunError} (failed : machine.failure = some error) :
    Ends (Effect.callHost host name arguments) machine () machine :=
  ends_get.bind (by simp [failed])

theorem ends_callHost_of_missing {host : Host} {name : String} {arguments : Effect (List HostValue)}
    (fine : machine.failure = none) (missing : host.function? name = none) :
    Ends (Effect.callHost host name arguments) machine ()
      { machine with failure := some (.unknownHostFunction name) } := by
  refine ends_get.bind ?_
  simp only [fine, Option.isNone_none, if_true, missing]
  rfl

/-- A call that is made is recorded, and a panic is remembered. -/
theorem ends_callHost_of_found {host : Host} {name : String} {arguments : Effect (List HostValue)}
    {function : HostFunction} {values : List HostValue} (fine : machine.failure = none)
    (found : host.function? name = some function) (read : Ends arguments machine values machine) :
    Ends (Effect.callHost host name arguments) machine ()
      { machine with
        calls := machine.calls.push ⟨function.label, values⟩
        failure := if function.panics then some (.hostPanic name) else none } := by
  refine ends_get.bind ?_
  simp only [fine, Option.isNone_none, if_true, found]
  refine read.bind ((ends_modify _).bind ?_)
  cases function.panics with
  | true => rfl
  | false => simp [fine]

/-- A window can always be handed to the host. -/
theorem ends_hostValues (frame : Frame) (machine : Machine) (window : ArrayRef) :
    Ends ([Argument.window window.array window.offset window.length].mapM frame.hostValue) machine
      [.array (machine.memory.loadMany (frame.array window.array).type
        (frame.window window.array window.offset) window.length)] machine := by
  rw [List.mapM_cons, List.mapM_nil]
  rfl

theorem finishes_host {name : String} {window : ArrayRef} :
    Finishes counters (frame.execute
      (.call (.host name) [.window window.array window.offset window.length])) machine := by
  have read := ends_hostValues frame machine window
  rw [Frame.execute]
  cases failure : machine.failure with
  | some error => exact ⟨machine, ends_callHost_of_failed failure, .refl machine⟩
  | none =>
      have quiet : ∀ after, machine.Quiet after := fun after error failed => by
        rw [failure] at failed
        contradiction
      cases found : frame.host.function? name with
      | none => exact ⟨_, ends_callHost_of_missing failure found, .of_eq rfl (quiet _)⟩
      | some function => exact ⟨_, ends_callHost_of_found failure found read, .of_eq rfl (quiet _)⟩

/-- The test of a loop compares numbers below 2^63 as they are. -/
theorem toInt64_lt_iff {index stop : Nat} (indexSmall : index < 2 ^ 63) (stopSmall : stop < 2 ^ 63) :
    (UInt64.ofNat index).toInt64 < (UInt64.ofNat stop).toInt64 ↔ index < stop := by
  have value : ∀ number : Nat, number < 2 ^ 63 →
      (UInt64.ofNat number).toInt64.toInt = number := fun number small =>
    Int64.toInt_ofNat_of_lt small
  rw [Int64.lt_iff_toInt_lt, value index indexSmall, value stop stopSmall, Int.ofNat_lt]

/-- A loop counts up to its end, if its body keeps the counter.  The induction is on the number of
turns that are left. -/
theorem finishes_whileBelow {counter stop limit index : Nat} {body : Effect Unit}
    (counts : machine.registers[counter]? = some (.index (UInt64.ofNat index)))
    (free : counter ∉ counters.map Prod.fst) (upTo : index ≤ stop) (small : stop < 2 ^ 63)
    (room : stop - index < limit)
    (turn : ∀ between : Machine, between.registers.size = machine.registers.size →
      Finishes ((counter, stop) :: counters) body between) :
    Finishes counters (Frame.whileBelow counter stop body limit) machine := by
  induction limit generalizing machine index with
  | zero => exact absurd room (Nat.not_lt_zero _)
  | succ limit ih =>
      rw [Frame.whileBelow]
      refine .of_ends (ends_readIndex counts) ?_ (.refl machine)
      by_cases below : index < stop
      · rw [if_pos ((toInt64_lt_iff (by omega) small).mpr below)]
        obtain ⟨between, ran, keeps⟩ := turn machine rfl
        have kept : between.registers[counter]? = some (.index (UInt64.ofNat index)) :=
          (keeps.counters counter List.mem_cons_self).trans counts
        have inside : counter < between.registers.size :=
          (Array.getElem?_eq_some_iff.mp kept).1
        refine .of_ends ran ?_ keeps.drop
        refine .of_ends (ends_readIndex kept) ?_ (.refl between)
        refine .of_ends (ends_writeValue _ _ _) ?_ (between.keeps_write _ free)
        refine ih ?_ below (by omega) fun other size => turn other ?_
        · rw [between.registers_write _ inside, if_pos rfl, Nat.succ_eq_add_one, UInt64.ofNat_add]
          rfl
        · rw [size, Machine.size_registers_write,
            keeps.size_registers]
      · rw [if_neg (mt (toInt64_lt_iff (by omega) small).mp below)]
        exact ⟨machine, ends_pure_iff.mpr ⟨rfl, rfl⟩, .refl machine⟩

end Instructions

/-! ## Bodies -/

/-- The arrays of a routine can be addressed. -/
def Addressable (arrays : Array ArrayDeclaration) : Prop :=
  ∀ declaration ∈ arrays, declaration.length * declaration.type.byteSize < 2 ^ 31

instance (arrays : Array ArrayDeclaration) : Decidable (Addressable arrays) :=
  inferInstanceAs (Decidable (∀ declaration ∈ arrays,
    declaration.length * declaration.type.byteSize < 2 ^ 31))

theorem Addressable.length_lt {arrays : Array ArrayDeclaration} (addressable : Addressable arrays)
    {declaration : ArrayDeclaration} (mem : declaration ∈ arrays) : declaration.length < 2 ^ 31 :=
  Nat.lt_of_le_of_lt (Nat.le_mul_of_pos_right _ declaration.type.byteSize_pos)
    (addressable declaration mem)

/-- The calls of a frame run to their end and give back the variables. -/
def Frame.Returns (frame : Frame) (declared : Declarations) : Prop :=
  ∀ name parameters, declared.callees name parameters → ∀ (pointers : List (Option Pointer))
    (before : Machine), ∃ after, Ends (frame.call name pointers) before () after ∧
      after.registers = before.registers ∧ before.Quiet after

/-- The native code of safe code runs to its end.  The induction is on the rules of safe code. -/
theorem finishes_executeBody {declared : Declarations} {counters : Counters}
    {known after : Set ValueId} {code : List Instruction} {frame : Frame} {machine : Machine}
    (safe : declared.Safe counters known code after) (returns : frame.Returns declared)
    (addressable : Addressable declared.arrays)
    (registers : declared.values.size ≤ machine.registers.size) :
    Finishes counters (frame.executeBody code) machine := by
  induction safe generalizing machine with
  | nil => exact ⟨machine, rfl, .refl machine⟩
  | assign _ _ free _ ih =>
      exact (finishes_assign free).bind fun between keeps => ih (keeps.size_registers ▸ registers)
  | store _ _ _ ih =>
      exact finishes_store.bind fun between keeps => ih (keeps.size_registers ▸ registers)
  | @loop counters known _ counter stop body rest counts free ranges _ _ turn ih =>
      obtain ⟨declaration, mem, upTo⟩ := ranges
      have small := addressable.length_lt mem
      have inside : counter < machine.registers.size :=
        Nat.lt_of_lt_of_le (Array.getElem?_eq_some_iff.mp counts).1 registers
      have looped : Finishes counters (frame.execute (.loop counter 0 stop body)) machine := by
        have started := machine.keeps_write (.index (UInt64.ofNat 0)) free
        refine .of_ends (ends_writeValue _ _ _) ?_ started
        refine finishes_whileBelow ?_ free (Nat.zero_le stop) (by omega) ?_ fun between size => turn ?_
        · rw [machine.registers_write _ inside, if_pos rfl]
        · exact Nat.lt_trans (by omega : stop - 0 < 2 ^ 31) (by decide)
        · rw [size, started.size_registers]
          exact registers
      exact looped.bind fun between keeps => ih (keeps.size_registers ▸ registers)
  | @branch counters known _ condition body rest _ _ _ taken ih =>
      have branched : Finishes counters (frame.execute (.branch condition body)) machine := by
        refine .of_ends (ends_readValue machine condition) ?_ (.refl machine)
        split
        · exact taken registers
        · exact ⟨machine, rfl, .refl machine⟩
      exact branched.bind fun between keeps => ih (keeps.size_registers ▸ registers)
  | host _ _ ih =>
      exact finishes_host.bind fun between keeps => ih (keeps.size_registers ▸ registers)
  | @routine counters known _ name parameters windows rest callee _ _ _ ih =>
      obtain ⟨between, ends, same, quiet⟩ := returns name parameters callee
        (frame.pointers (windows.map fun window =>
          .window window.array window.offset window.length)) machine
      have called : Finishes counters (frame.execute (.call (.routine name)
          (windows.map fun window => .window window.array window.offset window.length))) machine :=
        ⟨between, by rwa [Frame.execute], .of_eq same quiet⟩
      exact called.bind fun between keeps => ih (keeps.size_registers ▸ registers)

/-! ## Calls -/

/-- The machine on which the native code of a routine starts. -/
def Machine.enter (machine : Machine) (routine : Routine) : Machine :=
  { machine with
    registers := routine.valueTypes.map fun type => .ofLiteral type.zero
    memory := machine.memory ++ (routine.locals.map (.ofBuffer ·.contents)).toArray }

/-- The machine after a routine, for its caller. -/
def Machine.leave (after before : Machine) : Machine :=
  { after with registers := before.registers, memory := after.memory.shrink before.memory.size }

/-- The frame of a routine. -/
def frameOf (program : Program) (host : Host) (depth : Nat) (routine : Routine)
    (pointers : List (Option Pointer)) (base : Nat) : Frame where
  host := host
  arrays := (parameterBases routine pointers ++ localBases base routine).toArray
  call := call program host depth

/-- A call runs the body of a routine, and what it leaves of it is gone. -/
theorem ends_call {program : Program} {host : Host} {depth : Nat} {name : String} {routine : Routine}
    {pointers : List (Option Pointer)} {before after : Machine}
    (found : program.routine? name = some routine)
    (ran : Ends ((frameOf program host depth routine pointers before.memory.size).executeBody
      routine.body) (before.enter routine) () after) :
    Ends (call program host (depth + 1) name pointers) before () (after.leave before) := by
  rw [call]
  simp only [found]
  exact ends_get.bind (ends_get.bind ((ends_modify _).bind (ran.bind (ends_modify _))))

/-- A call of a safe routine runs to its end. -/
theorem exists_ends_call {program : Program} {host : Host} {depth : Nat} {name : String}
    {routine : Routine} {pointers : List (Option Pointer)} {before : Machine}
    {callees : String → List Parameter → Prop} (found : program.routine? name = some routine)
    (safe : routine.Safe callees) (addressable : Addressable routine.arrays)
    (returns : (frameOf program host depth routine pointers before.memory.size).Returns
      (routine.declarations callees)) :
    ∃ after, Ends (call program host (depth + 1) name pointers) before () after ∧
      after.registers = before.registers ∧ before.Quiet after := by
  have room : (routine.declarations callees).values.size ≤
      (before.enter routine).registers.size := by
    simp [Routine.declarations, Machine.enter]
  obtain ⟨after, ran, keeps⟩ := finishes_executeBody safe.body returns addressable room
  refine ⟨_, ends_call found ran, rfl, ?_⟩
  have entered : before.Quiet (before.enter routine) := .of_eq rfl rfl
  have left : after.Quiet (after.leave before) := .of_eq rfl rfl
  exact (entered.trans keeps.quiet).trans left

end Dataflow.Native
