import Dataflow.Proofs.Lowering.Effects
import Dataflow.Proofs.Native.Agreement

/-!
# Compiled models as native code

The native code of a compiled model gives the results of the interpreter, reports its errors and
makes its calls of the host.
-/

namespace Dataflow

/-- The routines of a program have arrays that can be addressed. -/
def Program.Addressable (program : Program) : Prop :=
  ∀ routine ∈ program.routines, Native.Addressable routine.arrays

instance (program : Program) : Decidable program.Addressable :=
  inferInstanceAs (Decidable (∀ routine ∈ program.routines, Native.Addressable routine.arrays))

theorem Program.Addressable.arrays {program : Program} (addressable : program.Addressable)
    {name : String} {routine : Routine} (found : program.routine? name = some routine) :
    Native.Addressable routine.arrays :=
  addressable routine (List.mem_of_find?_eq_some found)

namespace Native

/-! ## Programs -/

section Programs

variable {program : Program} {host : Host} {depth limit : Nat} {name : String} {routine : Routine}

/-- Native code of a routine that calls no others has what it needs. -/
theorem simulates_leaf {passed : List View} {machine : Dataflow.Machine} {native : Machine}
    (calm : host.Calm) (addressable : Addressable routine.arrays)
    (safe : routine.Safe fun _ _ => False) (mirrors : Mirrors machine native)
    (length : routine.parameters.length = passed.length) :
    Simulates (routine.declarations fun _ _ => False)
      (program.activation host depth routine passed machine.heap.size)
      (frameOf program host limit routine (pointersTo routine.parameters passed)
        native.memory.size) where
  host_eq := rfl
  calm := calm
  follows := by
    rw [mirrors.size_eq]
    exact follows_frameOf safe length _
  addressable := addressable
  answers := fun _ _ impossible => impossible.elim
  returns := fun _ _ impossible => impossible.elim
  calls := fun _ _ impossible => impossible.elim

/-- Calls of routines that call no others agree. -/
theorem callsAgree_leaves {declared : Declarations} {activation : Activation} {frame : Frame}
    (callees : declared.callees = program.leaves)
    (interpreted : activation.call = program.call host (depth + 1))
    (native : frame.call = call program host (limit + 1)) (calm : host.Calm)
    (addressable : program.Addressable) : CallsAgree activation frame declared := by
  intro name parameters callee passed machine native' mirrors fits counters
  rw [callees] at callee
  obtain ⟨routine, found, rfl, safe⟩ := callee
  rw [interpreted, native]
  exact agrees_call found safe
    (simulates_leaf calm (addressable.arrays found) safe mirrors fits.length_eq) mirrors fits

/-- Calls of routines that call no others run to their end. -/
theorem returns_leaves {declared : Declarations} {frame : Frame}
    (callees : declared.callees = program.leaves)
    (native : frame.call = call program host (limit + 1)) (addressable : program.Addressable) :
    frame.Returns declared := by
  intro name parameters callee pointers before
  rw [callees] at callee
  obtain ⟨routine, found, rfl, safe⟩ := callee
  rw [native]
  exact exists_ends_call found safe (addressable.arrays found)
    fun _ _ impossible => impossible.elim

/-- Native code of a routine that calls only such routines has what it needs. -/
theorem simulates_entry {passed : List View} {machine : Dataflow.Machine} {native : Machine}
    (calm : host.Calm) (addressable : program.Addressable)
    (found : program.routine? name = some routine) (safe : routine.Safe program.leaves)
    (mirrors : Mirrors machine native) (length : routine.parameters.length = passed.length) :
    Simulates (routine.declarations program.leaves)
      (program.activation host (depth + 1) routine passed machine.heap.size)
      (frameOf program host (limit + 1) routine (pointersTo routine.parameters passed)
        native.memory.size) where
  host_eq := rfl
  calm := calm
  follows := by
    rw [mirrors.size_eq]
    exact follows_frameOf safe length _
  addressable := addressable.arrays found
  answers := Program.answers_leaves
  returns := returns_leaves rfl rfl addressable
  calls := callsAgree_leaves rfl rfl rfl calm addressable

/-- The machines before a run mirror each other. -/
theorem mirrors_start {arguments : List Buffer} (addressable : Addressable routine.arrays)
    (safe : routine.Safe program.leaves) (fits : Matches arguments routine.parameters) :
    Mirrors (.start arguments) (.start arguments) where
  memory := by simp [Machine.start, Dataflow.Machine.start, memoryOf]
  calls := rfl
  failure := rfl
  small := by
    intro buffer mem
    obtain ⟨parameter, parameterMem, typed, sized⟩ :=
      exists_of_mem_left fits (List.mem_toArray.mp mem)
    obtain ⟨index, found⟩ := List.mem_iff_getElem?.mp parameterMem
    have declared := safe.parameters index parameter found
    rw [Buffer.Small, typed, sized]
    exact addressable _ (Array.mem_of_getElem? declared)

/-- The arguments of a run are passed from their first elements on. -/
theorem pointersTo_viewsOf {parameters : List Parameter} {arguments : List Buffer}
    (length : arguments.length = parameters.length) :
    pointersTo parameters (viewsOf arguments) =
      arguments.mapIdx fun slot _ => some (⟨slot, 0⟩ : Pointer) := by
  refine List.ext_getElem (by simp [pointersTo, viewsOf, length]) fun index before after => ?_
  simp [pointersTo, viewsOf, Pointer.element]

/-- The outcome of a run that ends is read off the machine. -/
theorem run_of_ends {arguments : List Buffer} {after : Machine}
    (ends : Ends (call program host Frame.limit name
      (arguments.mapIdx fun slot _ => some (⟨slot, 0⟩ : Pointer))) (.start arguments) () after) :
    run program host name arguments =
      ⟨match after.failure with
        | some error => .error error
        | none => .ok (after.memory.buffers.take arguments.length), after.calls.toList⟩ := by
  have ended : (call program host Frame.limit name
      (arguments.mapIdx fun slot _ => some (⟨slot, 0⟩ : Pointer))).run (.start arguments) =
        (some (), after) :=
    ends
  simp only [run, ended]
  cases after.failure <;> rfl

/-- On buffers that match the parameters of a safe routine, native code does what the interpreter
does. -/
theorem run_eq {arguments : List Buffer} (calm : host.Calm) (addressable : program.Addressable)
    (found : program.routine? name = some routine) (safe : routine.Safe program.leaves)
    (fits : Matches arguments routine.parameters) :
    run program host name arguments = program.run host name arguments := by
  -- Both limits leave room for the entry routine and for one more call.
  obtain ⟨limit, deep⟩ : ∃ limit, Frame.limit = limit + 1 + 1 := ⟨Nat.pow 2 62 - 2, by decide⟩
  obtain ⟨depth, nested⟩ : ∃ depth, maxCallDepth = depth + 1 := ⟨maxCallDepth - 1, by decide⟩
  have mirrors := mirrors_start (addressable.arrays found) safe fits
  have viewed := fits_viewsOf fits
  have simulates : Simulates (routine.declarations program.leaves)
      (program.activation host (depth + 1) routine (viewsOf arguments)
        (Dataflow.Machine.start arguments).heap.size)
      (frameOf program host (limit + 1) routine
        (pointersTo routine.parameters (viewsOf arguments)) (Machine.start arguments).memory.size) :=
    simulates_entry calm addressable found safe mirrors viewed.length_eq
  have agrees : Agrees [] (program.call host (depth + 1 + 1) name (viewsOf arguments))
      (.start arguments)
      (call program host (limit + 1 + 1) name (pointersTo routine.parameters (viewsOf arguments)))
      (.start arguments) fun later after =>
        Mirrors later after ∧ after.registers = (Machine.start arguments).registers :=
    agrees_call found safe simulates mirrors viewed
  obtain ⟨after, ends, _, reached⟩ := agrees
  rw [← nested] at reached
  rw [pointersTo_viewsOf fits.length_eq, ← deep] at ends
  rw [run_of_ends ends, Program.run_eq_call]
  rcases called : outcome (program.call host (maxCallDepth + 1) name (viewsOf arguments))
    (.start arguments) with ⟨error | ⟨⟩, later⟩
  · rw [called] at reached
    simp only [reached.1, reached.2, Except.map]
  · rw [called] at reached
    obtain ⟨ended, _⟩ := reached
    simp only [ended.failure, ended.calls, ended.memory, buffers_memoryOf ended.small, Except.map]

end Programs

end Native

/-! ## Compiled models -/

section Checks

variable {program : Program} {entry : EntryPoint} {externals : List String}
  {inputs : List Buffer} {host : Host}

theorem NativeProgram.compute_of_count (different : inputs.length ≠ entry.inputs.length) :
    (NativeProgram.mk program entry externals).compute inputs host =
      ⟨.error (.argumentCount entry.routine entry.inputs.length inputs.length), []⟩ :=
  if_pos different

theorem NativeProgram.compute_of_misfit {index : Nat} (count : inputs.length = entry.inputs.length)
    (misfit : firstMisfit? entry.inputs inputs = some index) :
    (NativeProgram.mk program entry externals).compute inputs host =
      ⟨.error (.argumentType entry.routine index), []⟩ := by
  rw [firstMisfit?] at misfit
  simp only [compute, count, ne_eq, not_true_eq_false, if_false, misfit]

theorem NativeProgram.compute_of_matches (fits : Matches inputs entry.inputs) :
    (NativeProgram.mk program entry externals).compute inputs host =
      let outcome := Native.run program host entry.routine (inputs ++
        entry.outputs.map fun parameter => Buffer.zeros parameter.type parameter.length)
      { outcome with result := outcome.result.map (·.drop inputs.length) } := by
  have fit := (firstMisfit?_eq_none_iff fits.length_eq).mpr fits
  rw [firstMisfit?] at fit
  simp only [compute, fits.length_eq, ne_eq, not_true_eq_false, if_false, fit]

end Checks

end Dataflow
