import Dataflow.Proofs.Native.Tracking

/-!
# Native code agrees with the interpreter

Native code of safe code does what the interpreter does.  Where the interpreter stops at a failed
call of the host, native code runs on, with the failure and the calls that the interpreter reports.
-/

namespace Dataflow.Native

/-! ## Agreement -/

/-- Native code ends as interpreted code does: with a goal that both machines reach, or with the
failure and the calls of the interpreter. -/
def Agrees (counters : Counters) (interpreted : Run Unit) (machine : Dataflow.Machine)
    (effect : Effect Unit) (native : Machine) (goal : Dataflow.Machine → Machine → Prop) : Prop :=
  ∃ after, Ends effect native () after ∧ native.Keeps counters after ∧
    match outcome interpreted machine with
    | (.ok (), later) => goal later after
    | (.error error, later) => after.failure = some error ∧ after.calls = later.calls

section Agreement

variable {counters inner : Counters} {interpreted : Run Unit} {effect : Effect Unit}
  {machine later : Dataflow.Machine} {native after : Machine}
  {goal more : Dataflow.Machine → Machine → Prop}

theorem Agrees.of_succeeds (succeeds : Succeeds interpreted machine () later)
    (ends : Ends effect native () after) (keeps : native.Keeps counters after)
    (reached : goal later after) : Agrees counters interpreted machine effect native goal := by
  refine ⟨after, ends, keeps, ?_⟩
  rw [succeeds]
  exact reached

theorem Machine.Keeps.mono {counters fewer : Counters} {before after : Machine}
    (keeps : before.Keeps counters after) (subset : fewer ⊆ counters) : before.Keeps fewer after :=
  { keeps with
    counters := fun counter mem => keeps.counters counter (List.map_subset Prod.fst subset mem) }

/-- What follows native code has to end in any case, and continues what the interpreter does if that
has not failed. -/
theorem Agrees.bind {next : Unit → Run Unit} {rest : Unit → Effect Unit}
    (first : Agrees inner interpreted machine effect native goal) (subset : counters ⊆ inner)
    (finishes : ∀ between, native.Keeps inner between → Finishes counters (rest ()) between)
    (second : ∀ later between, native.Keeps inner between → goal later between →
      Agrees counters (next ()) later (rest ()) between more) :
    Agrees counters (interpreted >>= next) machine (effect >>= rest) native more := by
  obtain ⟨between, ends, keeps, reached⟩ := first
  unfold Agrees
  rw [outcome_bind]
  rcases done : outcome interpreted machine with ⟨error | ⟨⟩, later⟩
  · rw [done] at reached
    obtain ⟨after, restEnds, restKeeps⟩ := finishes between keeps
    obtain ⟨failure, calls⟩ := restKeeps.quiet error reached.1
    exact ⟨after, ends.bind restEnds, (keeps.mono subset).trans restKeeps, failure,
      calls.trans reached.2⟩
  · rw [done] at reached
    obtain ⟨after, restEnds, restKeeps, last⟩ := second later between keeps reached
    exact ⟨after, ends.bind restEnds, (keeps.mono subset).trans restKeeps, last⟩

theorem Agrees.mono (agrees : Agrees counters interpreted machine effect native goal)
    (implies : ∀ later after, goal later after → more later after) :
    Agrees counters interpreted machine effect native more := by
  obtain ⟨after, ends, keeps, reached⟩ := agrees
  refine ⟨after, ends, keeps, ?_⟩
  rcases done : outcome interpreted machine with ⟨error | ⟨⟩, later⟩
  · rw [done] at reached
    exact reached
  · rw [done] at reached
    exact implies later after reached

/-- What interpreted code reaches on its own can be added to the goal. -/
theorem Agrees.and_behaves {host : Host} {good : Dataflow.Machine → Prop}
    (agrees : Agrees counters interpreted machine effect native goal)
    (behaves : Behaves host interpreted machine good) :
    Agrees counters interpreted machine effect native fun later after =>
      goal later after ∧ good later := by
  obtain ⟨after, ends, keeps, reached⟩ := agrees
  refine ⟨after, ends, keeps, ?_⟩
  unfold Behaves at behaves
  rcases done : outcome interpreted machine with ⟨error | ⟨⟩, later⟩
  · rw [done] at reached
    exact reached
  · rw [done] at reached behaves
    exact ⟨reached, behaves⟩

/-- The interpreter reads something first. -/
theorem agrees_of_succeeds {α : Type} {check : Run α} {value : α} {next : α → Run Unit}
    (first : Succeeds check machine value later)
    (second : Agrees counters (next value) later effect native goal) :
    Agrees counters (check >>= next) machine effect native goal := by
  unfold Agrees
  rw [outcome_bind_of_succeeds first]
  exact second

/-- Native code reads something first. -/
theorem agrees_of_ends {α : Type} {check : Effect α} {value : α} {next : α → Effect Unit}
    (first : Ends check native value after) (keeps : native.Keeps counters after)
    (second : Agrees counters interpreted machine (next value) after goal) :
    Agrees counters interpreted machine (check >>= next) native goal := by
  obtain ⟨last, ends, lastKeeps, reached⟩ := second
  exact ⟨last, first.bind ends, keeps.trans lastKeeps, reached⟩

end Agreement

/-! ## Calls -/

/-- The pointers for views that are passed to parameters. -/
def pointersTo (parameters : List Parameter) (passed : List View) : List (Option Pointer) :=
  List.zipWith (fun parameter view => some (.element view.slot parameter.type view.offset)) parameters
    passed

theorem Frame.Follows.pointers_eq {declared : Declarations} {frame : Frame} {views : Array View}
    {parameters : List Parameter} {windows : List ArrayRef} {passed : List View}
    (follows : frame.Follows declared views)
    (fits : List.Forall₂ (fun (parameter : Parameter) (window : ArrayRef) =>
      parameter.type = window.type ∧ parameter.length = window.length) parameters windows)
    (contains : ∀ window ∈ windows, declared.Contains window)
    (passes : List.Forall₂ (Passes views) windows passed) :
    frame.pointers (windows.map fun window => .window window.array window.offset window.length) =
      pointersTo parameters passed := by
  induction fits generalizing passed with
  | nil =>
      cases passes
      rfl
  | @cons parameter window parameters windows fit _ ih =>
      obtain ⟨view, others, pass, rest, rfl⟩ := List.forall₂_cons_left_iff.mp passes
      obtain ⟨inside, contained⟩ := List.forall_mem_cons.mp contains
      have pointer : frame.window window.array window.offset =
          some (.element view.slot parameter.type view.offset) := by
        rw [(follows.window_eq inside pass).2, fit.1]
      have tail := ih contained rest
      simp only [pointers, List.map_cons, pointersTo, List.zipWith_cons_cons, pointer] at tail ⊢
      rw [tail]

/-- The calls of a frame agree with those of an activation. -/
def CallsAgree (activation : Activation) (frame : Frame) (declared : Declarations) : Prop :=
  ∀ name parameters, declared.callees name parameters → ∀ (passed : List View)
    (machine : Dataflow.Machine) (native : Machine), Mirrors machine native →
    List.Forall₂ (fun parameter view => View.Fits view machine.heap parameter) parameters passed →
    ∀ counters, Agrees counters (activation.call name passed) machine
      (frame.call name (pointersTo parameters passed)) native fun later after =>
        Mirrors later after ∧ after.registers = native.registers

/-! ## Bodies -/

section Bodies

variable {declared : Declarations} {counters : Counters} {known after : Set ValueId}
  {activation : Activation} {frame : Frame} {machine : Dataflow.Machine} {native : Machine}

/-- A machine suits the code that follows, and the native machine tracks it. -/
structure Meets (declared : Declarations) (views : Array View) (counters : Counters)
    (known : Set ValueId) (machine : Dataflow.Machine) (native : Machine) : Prop where
  suits : machine.Suits declared views counters known
  tracks : Tracks declared counters known machine native

/-- A call of the host agrees, unless it panics. -/
theorem agrees_callHost {host : Host} {name : String} {values : List HostValue}
    {arguments : Effect (List HostValue)} (calm : host.Calm) (mirrors : Mirrors machine native)
    (read : Ends arguments native values native) :
    Agrees counters (Run.callHost host name values) machine
      (Effect.callHost host name arguments) native fun later after =>
        later.registers = machine.registers ∧ later.heap = machine.heap ∧ Mirrors later after ∧
          after.registers = native.registers := by
  have quiet : ∀ after, native.Quiet after := fun after error failed => by
    rw [mirrors.failure] at failed
    contradiction
  cases found : host.function? name with
  | none =>
      refine ⟨_, ends_callHost_of_missing mirrors.failure found, .of_eq rfl (quiet _), ?_⟩
      rw [Activation.outcome_callHost, found]
      exact ⟨rfl, mirrors.calls⟩
  | some function =>
      have returns := calm name function found
      have called : Succeeds (Run.callHost host name values) machine ()
          { machine with calls := machine.calls.push ⟨function.label, values⟩ } := by
        rw [Succeeds, Activation.outcome_callHost, found]
        simp [returns]
      refine .of_succeeds called (ends_callHost_of_found mirrors.failure found read)
        (.of_eq rfl (quiet _)) ⟨rfl, rfl, ⟨mirrors.memory, ?_, ?_, mirrors.small⟩, rfl⟩
      · simp only [mirrors.calls]
      · simp only [returns, Bool.false_eq_true, if_false]

/-- A loop of native code counts as the interpreter does.  The induction is on the number of turns
that are left. -/
theorem agrees_forRange {counter stop first count limit : Nat} {body : List Instruction}
    (counts : declared.values[counter]? = some .index) (free : counter ∉ counters.map Prod.fst)
    (small : stop < 2 ^ 63) (total : first + count = stop) (room : count < limit)
    (word : native.registers[counter]? = some (.index (UInt64.ofNat first)))
    (meets : Meets declared activation.views counters known machine native)
    (finishes : ∀ between : Machine, declared.values.size ≤ between.registers.size →
      Finishes ((counter, stop) :: counters) (frame.executeBody body) between)
    (turn : ∀ (machine : Dataflow.Machine) (native : Machine),
      Meets declared activation.views ((counter, stop) :: counters) known machine native →
      Agrees ((counter, stop) :: counters) (activation.executeBody body) machine
        (frame.executeBody body) native
        (Meets declared activation.views ((counter, stop) :: counters) known)) :
    Agrees counters
      (Activation.forRange (fun index => do
        Run.writeValue counter (.index index)
        activation.executeBody body) first count) machine
      (Frame.whileBelow counter stop (frame.executeBody body) limit) native
      (Meets declared activation.views counters known) := by
  induction count generalizing first machine native limit with
  | zero =>
      obtain rfl : first = stop := total
      cases limit with
      | zero => exact absurd room (Nat.lt_irrefl 0)
      | succ limit =>
          rw [Frame.whileBelow]
          refine agrees_of_ends (ends_readIndex word) (.refl native) ?_
          rw [if_neg (mt (toInt64_lt_iff small small).mp (Nat.lt_irrefl first))]
          exact .of_succeeds (succeeds_pure_iff.mpr ⟨rfl, rfl⟩) (ends_pure_iff.mpr ⟨rfl, rfl⟩)
            (.refl native) meets
  | succ count ih =>
      cases limit with
      | zero => exact absurd room (Nat.not_lt_zero _)
      | succ limit =>
          have below : first < stop := by omega
          rw [Frame.whileBelow, Activation.forRange]
          refine agrees_of_ends (ends_readIndex word) (.refl native) ?_
          rw [if_pos ((toInt64_lt_iff (by omega) small).mpr below)]
          have room : counter < machine.registers.size :=
            Nat.lt_of_lt_of_le (Array.getElem?_eq_some_iff.mp counts).1 meets.suits.registers
          have counted : Meets declared activation.views ((counter, stop) :: counters) known
              (machine.write counter (.index first)) native :=
            ⟨meets.suits.count counts free below, meets.tracks.count counts room word⟩
          have turned : Agrees ((counter, stop) :: counters) (do
              Run.writeValue counter (.index first)
              activation.executeBody body) machine (frame.executeBody body) native
              (Meets declared activation.views ((counter, stop) :: counters) known) :=
            agrees_of_succeeds rfl (turn _ _ counted)
          have next : ∀ between : Machine, native.Keeps ((counter, stop) :: counters) between →
              Ends (Effect.readIndex counter) between (UInt64.ofNat first) between ∧
                (between.write counter (.index (UInt64.ofNat first + 1))).registers[counter]? =
                  some (.index (UInt64.ofNat (first + 1))) := by
            intro between keeps
            have kept := (keeps.counters counter List.mem_cons_self).trans word
            have inside := (Array.getElem?_eq_some_iff.mp kept).1
            refine ⟨ends_readIndex kept, ?_⟩
            rw [between.registers_write _ inside, if_pos rfl, UInt64.ofNat_add]
            rfl
          refine turned.bind (List.subset_cons_self _ _) ?_ ?_
          · intro between keeps
            obtain ⟨read, written⟩ := next between keeps
            refine .of_ends read (.of_ends (ends_writeValue _ _ _) ?_ (between.keeps_write _ free))
              (.refl between)
            refine finishes_whileBelow written free below small (by omega) fun other size => ?_
            refine finishes other ?_
            rw [size, between.size_registers_write, keeps.size_registers]
            exact meets.tracks.registers
          · intro later between keeps reached
            obtain ⟨read, written⟩ := next between keeps
            refine agrees_of_ends read (.refl between) ?_
            refine agrees_of_ends (ends_writeValue _ _ _) (between.keeps_write _ free) ?_
            exact ih (by omega) (by omega) written
              ⟨reached.suits.drop, reached.tracks.drop.skip counts free⟩

/-- What native code of a routine needs in order to agree with the interpreter. -/
structure Simulates (declared : Declarations) (activation : Activation) (frame : Frame) : Prop where
  host_eq : frame.host = activation.host
  calm : activation.host.Calm
  follows : frame.Follows declared activation.views
  addressable : Addressable declared.arrays
  answers : activation.Answers declared
  returns : frame.Returns declared
  calls : CallsAgree activation frame declared

/-! ### Instructions -/

theorem agrees_branch {condition : ValueId} {body : List Instruction}
    (knows : declared.Knows known condition .bool)
    (taken : Agrees counters (activation.executeBody body) machine (frame.executeBody body) native
      (Meets declared activation.views counters known))
    (meets : Meets declared activation.views counters known machine native) :
    Agrees counters (activation.execute (.branch condition body)) machine
      (frame.execute (.branch condition body)) native
      (Meets declared activation.views counters known) := by
  obtain ⟨scalar, found, typed⟩ := meets.suits.exists_scalar knows
  rw [Activation.execute, Frame.execute]
  refine agrees_of_succeeds (Activation.succeeds_readValue found) ?_
  refine agrees_of_ends (ends_readValue native condition) (.refl native) ?_
  rw [meets.tracks.word_eq knows found]
  cases scalar with
  | f32 | f64 => cases typed
  | bool trigger =>
      cases trigger with
      | true => exact taken
      | false => exact .of_succeeds rfl rfl (.refl native) meets

namespace Simulates

variable {rest body : List Instruction}

theorem agrees_assign (simulates : Simulates declared activation frame) {target : ValueId}
    {expression : Expression} {type : ScalarType}
    (yields : declared.Yields counters known expression type)
    (declares : declared.values[target]? = some (.scalar type))
    (free : target ∉ counters.map Prod.fst)
    (meets : Meets declared activation.views counters known machine native) :
    Agrees counters (activation.execute (.assign target expression)) machine
      (frame.execute (.assign target expression)) native
      (Meets declared activation.views counters (insert target known)) := by
  obtain ⟨scalar, gives, rfl⟩ := yields.exists_value meets.suits
  have room : target < machine.registers.size :=
    Nat.lt_of_lt_of_le (Array.getElem?_eq_some_iff.mp declares).1 meets.suits.registers
  have evaluated := meets.tracks.ends_evaluate simulates.follows simulates.addressable meets.suits
    yields gives
  exact .of_succeeds gives.succeeds_assign (evaluated.bind (ends_writeValue _ _ _))
    (native.keeps_write _ free)
    ⟨meets.suits.write declares free, meets.tracks.write declares room free⟩

theorem agrees_store (simulates : Simulates declared activation frame) {array : ArrayId}
    {position : Position} {value : ValueId} {type : ScalarType}
    (covers : declared.Covers counters array position type)
    (knows : declared.Knows known value type)
    (meets : Meets declared activation.views counters known machine native) :
    Agrees counters (activation.execute (.store array position value)) machine
      (frame.execute (.store array position value)) native
      (Meets declared activation.views counters known) := by
  obtain ⟨view, buffer, element, scalar, found, scalarType, _, locates, ran⟩ :=
    meets.suits.exists_store covers knows
  have stored := meets.tracks.ends_store simulates.follows simulates.addressable meets.suits covers
    knows locates found scalarType
  have alike := machine.alike_set view.slot (view.offset + element) scalar
  have mirrors : Mirrors
      { machine with heap := machine.heap.modify view.slot (·.set (view.offset + element) scalar) }
      { native with
        memory := memoryOf
          (machine.heap.modify view.slot (·.set (view.offset + element) scalar)) } :=
    { meets.tracks.toMirrors with
      memory := rfl, small := small_of_alike alike meets.tracks.small }
  exact .of_succeeds ran stored (.of_eq rfl (.of_eq rfl rfl))
    ⟨meets.suits.of_alike alike rfl, meets.tracks.of_mirrors mirrors rfl rfl⟩

theorem agrees_loop (simulates : Simulates declared activation frame) {counter stop : Nat}
    (counts : declared.values[counter]? = some .index) (free : counter ∉ counters.map Prod.fst)
    (ranges : ∃ declaration ∈ declared.arrays, stop ≤ declaration.length)
    (inner : declared.Safe ((counter, stop) :: counters) known body known)
    (turn : ∀ {machine : Dataflow.Machine} {native : Machine},
      Meets declared activation.views ((counter, stop) :: counters) known machine native →
      Agrees ((counter, stop) :: counters) (activation.executeBody body) machine
        (frame.executeBody body) native
        (Meets declared activation.views ((counter, stop) :: counters) known))
    (meets : Meets declared activation.views counters known machine native) :
    Agrees counters (activation.execute (.loop counter 0 stop body)) machine
      (frame.execute (.loop counter 0 stop body)) native
      (Meets declared activation.views counters known) := by
  obtain ⟨declaration, mem, upTo⟩ := ranges
  have small := simulates.addressable.length_lt mem
  have bound : stop < 2 ^ 62 := Nat.lt_trans (Nat.lt_of_le_of_lt upTo small) (by decide)
  have inside : counter < native.registers.size :=
    Nat.lt_of_lt_of_le (Array.getElem?_eq_some_iff.mp counts).1 meets.tracks.registers
  have started : Meets declared activation.views counters known machine
      (native.write counter (.index (UInt64.ofNat 0))) :=
    ⟨meets.suits, meets.tracks.skip counts free⟩
  rw [Activation.execute, Frame.execute]
  refine agrees_of_ends (ends_writeValue _ _ _) (native.keeps_write _ free) ?_
  refine agrees_forRange counts free (by omega) (by omega) bound ?_ started
    (fun between room => finishes_executeBody inner simulates.returns simulates.addressable room)
    fun _ _ reached => turn reached
  rw [native.registers_write _ inside, if_pos rfl]

theorem agrees_host (simulates : Simulates declared activation frame) {name : String}
    {window : ArrayRef} (contains : declared.Contains window)
    (meets : Meets declared activation.views counters known machine native) :
    Agrees counters (activation.execute
        (.call (.host name) [.window window.array window.offset window.length])) machine
      (frame.execute (.call (.host name) [.window window.array window.offset window.length])) native
      (Meets declared activation.views counters known) := by
  obtain ⟨passed, buffer, part, passes, stored, typed, room, sliced, read⟩ :=
    meets.suits.exists_hostValue contains
  have handed := meets.tracks.ends_hostValues simulates.follows contains passes stored typed room
    sliced
  rw [Activation.execute, Frame.execute, simulates.host_eq]
  refine agrees_of_succeeds read ?_
  refine (agrees_callHost simulates.calm meets.tracks.toMirrors handed).mono ?_
  rintro later after ⟨registers, heap, mirrors, words⟩
  have alike : machine.Alike later :=
    ⟨congrArg Array.size registers, congrArg Array.size heap,
      fun _ buffer found => ⟨buffer, heap ▸ found, rfl, rfl⟩⟩
  exact ⟨meets.suits.of_alike alike registers, meets.tracks.of_mirrors mirrors registers words⟩

theorem agrees_routine (simulates : Simulates declared activation frame) {name : String}
    {parameters : List Parameter} {windows : List ArrayRef}
    (callee : declared.callees name parameters)
    (fits : List.Forall₂ (fun (parameter : Parameter) (window : ArrayRef) =>
      parameter.type = window.type ∧ parameter.length = window.length) parameters windows)
    (contains : ∀ window ∈ windows, declared.Contains window)
    (meets : Meets declared activation.views counters known machine native) :
    Agrees counters (activation.execute (.call (.routine name)
        (windows.map fun window => .window window.array window.offset window.length))) machine
      (frame.execute (.call (.routine name)
        (windows.map fun window => .window window.array window.offset window.length))) native
      (Meets declared activation.views counters known) := by
  obtain ⟨passed, passes, fitted, read⟩ := meets.suits.exists_windows name fits contains
  rw [Activation.execute, Frame.execute,
    simulates.follows.pointers_eq fits contains passes]
  refine agrees_of_succeeds read ?_
  refine ((simulates.calls name parameters callee passed machine native meets.tracks.toMirrors fitted
    counters).and_behaves (simulates.answers name parameters callee machine passed fitted)).mono ?_
  rintro later after ⟨⟨mirrors, words⟩, alike, registers⟩
  exact ⟨meets.suits.of_alike alike registers, meets.tracks.of_mirrors mirrors registers words⟩

/-- The rest of a body follows its first instruction on both sides. -/
theorem agrees_cons (simulates : Simulates declared activation frame) {instruction : Instruction}
    {between : Set ValueId} (registers : declared.values.size ≤ native.registers.size)
    (next : declared.Safe counters between rest after)
    (first : Agrees counters (activation.execute instruction) machine (frame.execute instruction)
      native (Meets declared activation.views counters between))
    (others : ∀ {later : Dataflow.Machine} {native : Machine},
      Meets declared activation.views counters between later native →
      Agrees counters (activation.executeBody rest) later (frame.executeBody rest) native
        (Meets declared activation.views counters after)) :
    Agrees counters (activation.executeBody (instruction :: rest)) machine
      (frame.executeBody (instruction :: rest)) native
      (Meets declared activation.views counters after) := by
  refine first.bind (List.Subset.refl _) (fun between keeps => ?_)
    fun later between _ reached => others reached
  exact finishes_executeBody next simulates.returns simulates.addressable
    (keeps.size_registers ▸ registers)

/-- The native code of safe code agrees with the interpreter.  The induction is on the rules of
safe code, with one case for each instruction. -/
theorem agrees_executeBody (simulates : Simulates declared activation frame)
    {code : List Instruction} (safe : declared.Safe counters known code after)
    (meets : Meets declared activation.views counters known machine native) :
    Agrees counters (activation.executeBody code) machine (frame.executeBody code) native
      (Meets declared activation.views counters after) := by
  induction safe generalizing machine native with
  | nil subset =>
      exact .of_succeeds rfl rfl (.refl native) ⟨meets.suits.mono subset, meets.tracks.mono subset⟩
  | assign yields declares free next ih =>
      exact simulates.agrees_cons meets.tracks.registers next
        (simulates.agrees_assign yields declares free meets) ih
  | store covers knows next ih =>
      exact simulates.agrees_cons meets.tracks.registers next
        (simulates.agrees_store covers knows meets) ih
  | loop counts free ranges inner next turn ih =>
      exact simulates.agrees_cons meets.tracks.registers next
        (simulates.agrees_loop counts free ranges inner turn meets) ih
  | branch knows _ next taken ih =>
      exact simulates.agrees_cons meets.tracks.registers next
        (agrees_branch knows (taken meets) meets) ih
  | host contains next ih =>
      exact simulates.agrees_cons meets.tracks.registers next
        (simulates.agrees_host contains meets) ih
  | routine callee fits contains next ih =>
      exact simulates.agrees_cons meets.tracks.registers next
        (simulates.agrees_routine callee fits contains meets) ih

end Simulates

end Bodies

/-! ## Routines -/

section Routines

variable {program : Program} {host : Host} {depth limit : Nat} {name : String} {routine : Routine}
  {passed : List View} {machine : Dataflow.Machine} {native : Machine}
  {callees : String → List Parameter → Prop}

/-- The frame of a routine has pointers for its views. -/
theorem follows_frameOf (safe : routine.Safe callees) (length : routine.parameters.length = passed.length)
    (base : Nat) :
    (frameOf program host limit routine (pointersTo routine.parameters passed) base).Follows
      (routine.declarations callees) (passed ++ viewsFrom base routine.locals).toArray := by
  intro array declaration view declared viewed
  simp only [Routine.declarations] at declared
  rw [List.getElem?_toArray] at viewed
  simp only [Frame.array, frameOf, List.getElem?_toArray]
  rcases Nat.lt_or_ge array passed.length with inside | beyond
  · rw [List.getElem?_append_left inside] at viewed
    have parameterAt := List.getElem?_eq_getElem (length ▸ inside : array < routine.parameters.length)
    obtain rfl := Option.some.inj (declared.symm.trans (safe.parameters array _ parameterAt))
    rw [List.getElem?_append_left (by simpa [parameterBases, length] using inside), parameterBases,
      List.getElem?_mapIdx, parameterAt]
    simp only [pointersTo, List.getElem?_zipWith, parameterAt, viewed, Option.map_some,
      Option.join_some, Option.getD_some]
    rfl
  · rw [List.getElem?_append_right beyond, viewsFrom, List.getElem?_mapIdx] at viewed
    have local_ : routine.locals[array - passed.length]? = some declaration := by
      rw [routine.locals_getElem?, length, Nat.add_sub_cancel' beyond, declared]
    rw [local_, Option.map_some, Option.some.injEq] at viewed
    subst viewed
    rw [List.getElem?_append_right (by simpa [parameterBases, length] using beyond), localBases,
      List.getElem?_mapIdx]
    simp [parameterBases, length, local_, Pointer.element]

/-- The machines on which a routine starts meet. -/
theorem meets_enter (safe : routine.Safe callees) (addressable : Addressable routine.arrays)
    (mirrors : Mirrors machine native)
    (fits : List.Forall₂ (fun parameter view => View.Fits view machine.heap parameter)
      routine.parameters passed) :
    Meets (routine.declarations callees)
      (passed ++ viewsFrom machine.heap.size routine.locals).toArray [] ∅ (machine.enter routine)
      (native.enter routine) where
  suits := safe.suits_enter fits
  tracks := {
    memory := by
      simp [Machine.enter, Dataflow.Machine.enter, mirrors.memory, memoryOf, Function.comp_def]
    calls := mirrors.calls
    failure := mirrors.failure
    small := by
      intro buffer mem
      rcases Array.mem_append.mp mem with earlier | new
      · exact mirrors.small buffer earlier
      · obtain ⟨declaration, local_, rfl⟩ := List.mem_map.mp (List.mem_toArray.mp new)
        rw [Buffer.Small, declaration.size_contents, declaration.type_contents]
        exact addressable declaration (Array.mem_toList_iff.mp (List.mem_of_mem_drop local_))
    registers := by simp [Routine.declarations, Machine.enter]
    known := by simp
    counters := by simp }

theorem shrink_memoryOf (heap : Array Buffer) (size : Nat) :
    (memoryOf heap).shrink size = memoryOf (heap.shrink size) := by
  simp [memoryOf]

/-- A call of a safe routine agrees, if its native code has what it needs. -/
theorem agrees_call {counters : Counters} (found : program.routine? name = some routine)
    (safe : routine.Safe callees)
    (simulates : Simulates (routine.declarations callees)
      (program.activation host depth routine passed machine.heap.size)
      (frameOf program host limit routine (pointersTo routine.parameters passed)
        native.memory.size))
    (mirrors : Mirrors machine native)
    (fits : List.Forall₂ (fun parameter view => View.Fits view machine.heap parameter)
      routine.parameters passed) :
    Agrees counters (program.call host (depth + 1) name passed) machine
      (call program host (limit + 1) name (pointersTo routine.parameters passed)) native
      fun later after => Mirrors later after ∧ after.registers = native.registers := by
  have accepts : routine.Accepts machine passed := View.accepts_of_fits fits
  have meets := meets_enter safe simulates.addressable mirrors fits
  obtain ⟨after, ends, keeps, reached⟩ := simulates.agrees_executeBody safe.body meets
  have quiet : native.Quiet (after.leave native) := keeps.quiet
  refine ⟨_, ends_call found ends, .of_eq rfl quiet, ?_⟩
  rw [Program.outcome_call found accepts]
  rcases done : outcome ((program.activation host depth routine passed
    machine.heap.size).executeBody routine.body) (machine.enter routine) with ⟨error | ⟨⟩, later⟩
  · rw [done] at reached
    exact reached
  · rw [done] at reached
    have tracks := reached.tracks
    refine ⟨⟨?_, tracks.calls, tracks.failure, fun buffer mem => tracks.small buffer ?_⟩, rfl⟩
    · simp only [Machine.leave, Dataflow.Machine.leave, tracks.memory, mirrors.size_eq,
        shrink_memoryOf]
    · rw [Dataflow.Machine.leave, Array.shrink_eq_take] at mem
      obtain ⟨slot, bound, rfl⟩ := Array.mem_iff_getElem.mp mem
      simp

end Routines

end Dataflow.Native
