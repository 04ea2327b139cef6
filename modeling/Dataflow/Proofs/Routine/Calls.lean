import Dataflow.Proofs.Routine.Layout

/-!
# Calls

A call of a routine runs its body on windows of the caller's arrays, and gives back the
variables of the caller.  A call of the host hands over the values of windows.  The host
serves one call after another, until it does not know a function or a function panics.
-/

namespace Dataflow

/-! ## Calls of the host -/

/-- The same values, as the host sees them. -/
inductive HostValue.Same : HostValue → HostValue → Prop
  | scalar {left right : Scalar} (same : left.Same right) : Same (.scalar left) (.scalar right)
  | array {left right : Buffer} (same : left.Same right) : Same (.array left) (.array right)

/-- Calls of one function with the same values. -/
def HostCall.Same (left right : HostCall) : Prop :=
  left.label = right.label ∧ List.Forall₂ HostValue.Same left.arguments right.arguments

/-- The host serves calls that each hand over one array. -/
def Host.serve (host : Host) : List (String × Buffer) → Except RunError Unit × List HostCall
  | [] => (.ok (), [])
  | (name, values) :: rest =>
      match host.function? name with
      | none => (.error (.unknownHostFunction name), [])
      | some function =>
          let call : HostCall := ⟨function.label, [.array values]⟩
          if function.panics then (.error (.uncaughtPanic name), [call])
          else ((host.serve rest).1, call :: (host.serve rest).2)

theorem Host.serve_append (host : Host) (first rest : List (String × Buffer)) :
    host.serve (first ++ rest) =
      match host.serve first with
      | (.ok (), calls) => ((host.serve rest).1, calls ++ (host.serve rest).2)
      | (.error error, calls) => (.error error, calls) := by
  induction first with
  | nil => rfl
  | cons due first ih =>
      obtain ⟨name, values⟩ := due
      simp only [List.cons_append, serve, ih]
      cases host.function? name with
      | none => rfl
      | some function =>
          by_cases panics : function.panics
          · simp [panics]
          · simp only [panics]
            rcases host.serve first with ⟨_ | ⟨⟩, calls⟩ <;> rfl

namespace Activation

/-- Code makes the calls that are due, as far as the host serves them, and reaches a goal
if it serves all of them. -/
def Delivers (activation : Activation) (code : List Instruction) (due : List (String × Buffer))
    (before : Machine) (goal : Machine → Prop) : Prop :=
  ∃ after recorded,
    outcome (activation.executeBody code) before = ((activation.host.serve due).1, after) ∧
    after.calls.toList = before.calls.toList ++ recorded ∧
    List.Forall₂ HostCall.Same recorded (activation.host.serve due).2 ∧
    ((activation.host.serve due).1 = .ok () → goal after)

variable {activation : Activation} {before after : Machine} {code rest : List Instruction}
  {goal : Machine → Prop}

/-- Code that runs to its end makes no calls. -/
theorem Reaches.delivers {values : Nat} {kept : Nat → Prop}
    (reaches : activation.Reaches code values kept before goal) :
    activation.Delivers code [] before goal := by
  obtain ⟨after, ran, frame, reached⟩ := reaches
  exact ⟨after, [], ran, by simp [frame.calls_eq], .nil, fun _ => reached⟩

theorem Delivers.nil (reached : goal before) : activation.Delivers [] [] before goal :=
  ⟨before, [], rfl, by simp, .nil, fun _ => reached⟩

theorem Delivers.append {more : Machine → Prop} {due later : List (String × Buffer)}
    (first : activation.Delivers code due before goal)
    (second : ∀ between, goal between → activation.Delivers rest later between more) :
    activation.Delivers (code ++ rest) (due ++ later) before more := by
  obtain ⟨between, recorded, ran, calls, same, reached⟩ := first
  rw [Delivers, Host.serve_append]
  rcases served : activation.host.serve due with ⟨error | ⟨⟩, answered⟩
  · rw [served] at ran same
    refine ⟨between, recorded, ?_, calls, same, fun impossible => by simp at impossible⟩
    rw [outcome_executeBody_append, ran]
  · rw [served] at ran same
    obtain ⟨after, others, otherRan, otherCalls, otherSame, done⟩ :=
      second between (reached (by rw [served]))
    refine ⟨after, recorded ++ others, ?_, ?_, List.rel_append same otherSame, done⟩
    · rw [outcome_executeBody_append, ran]
      exact otherRan
    · rw [otherCalls, calls, List.append_assoc]

theorem Delivers.mono {weaker : Machine → Prop} {due : List (String × Buffer)}
    (delivers : activation.Delivers code due before goal)
    (implies : ∀ after, goal after → weaker after) : activation.Delivers code due before weaker := by
  obtain ⟨after, recorded, ran, calls, same, reached⟩ := delivers
  exact ⟨after, recorded, ran, calls, same, fun served => implies after (reached served)⟩

end Activation

/-! ## Windows -/

theorem getElem?_extract_of_lt {α : Type} (elements : Array α) {start stop index : Nat}
    (inside : stop ≤ elements.size) (below : index < stop - start) :
    (elements.extract start stop)[index]? = elements[start + index]? := by
  rw [Array.getElem?_extract, if_pos (by omega)]

/-- A range inside a buffer is a buffer with the elements of the range. -/
theorem Buffer.exists_slice? (buffer : Buffer) {start stop : Nat} (ordered : start ≤ stop)
    (inside : stop ≤ buffer.size) :
    ∃ part, buffer.slice? start stop = some part ∧ part.type = buffer.type ∧
      part.size = stop - start ∧
      ∀ index < stop - start, part.get? index = buffer.get? (start + index) := by
  have range : start ≤ stop ∧ stop ≤ buffer.size := ⟨ordered, inside⟩
  cases buffer with
  | f32 elements =>
      refine ⟨.f32 (elements.extract start stop), if_pos range, rfl, ?_, fun index below => ?_⟩
      · simp only [size] at inside ⊢
        rw [Array.size_extract, Nat.min_eq_left inside]
      · rw [get?, get?, getElem?_extract_of_lt elements inside below]
  | f64 elements =>
      refine ⟨.f64 (elements.extract start stop), if_pos range, rfl, ?_, fun index below => ?_⟩
      · simp only [size] at inside ⊢
        rw [Array.size_extract, Nat.min_eq_left inside]
      · rw [get?, get?, getElem?_extract_of_lt elements inside below]
  | bool elements =>
      refine ⟨.bool (elements.extract start stop), if_pos range, rfl, ?_, fun index below => ?_⟩
      · simp only [size] at inside ⊢
        rw [Array.size_extract, Nat.min_eq_left inside]
      · rw [get?, get?, getElem?_extract_of_lt elements inside below]

/-- The view as which a window of an array is passed on. -/
def Passes (views : Array View) (window : ArrayRef) (passed : View) : Prop :=
  ∃ parent, views[window.array]? = some parent ∧ window.offset + window.length ≤ parent.length ∧
    passed = ⟨parent.slot, parent.offset + window.offset, window.length⟩

section Windows

variable {views : Array View} {machine : Machine} {window : ArrayRef} {passed : View}

/-- A window that has passed its check can be passed on. -/
theorem Builder.Ready.passes {builder : Builder} (ready : builder.Ready views machine)
    (checked : builder.checkArray window = .ok ()) : ∃ passed, Passes views window passed := by
  obtain ⟨slot, length, backed, room⟩ := ready.backed checked
  obtain ⟨view, _, viewed, _, rfl, _⟩ := backed
  exact ⟨_, view, viewed, room, rfl⟩

theorem Passes.length_eq (passes : Passes views window passed) : passed.length = window.length := by
  obtain ⟨parent, _, _, rfl⟩ := passes
  rfl

/-- What a window holds can be read through the view as which it was passed on, and the other way
around. -/
theorem Passes.holds_iff (passes : Passes views window passed) {inner : Array View} {array : ArrayId}
    (viewed : inner[array]? = some passed) {heap : Array Buffer} {readable : Nat → Prop}
    {element : Nat} {value : Scalar} (below : element < window.length) :
    Holds inner heap readable array element value ↔
      Holds views heap readable window.array (window.offset + element) value := by
  obtain ⟨parent, parentViewed, room, rfl⟩ := passes
  constructor
  · rintro ⟨view, buffer, scalar, found, _, read, stored, got, same⟩
    obtain rfl := Option.some.inj (viewed.symm.trans found)
    exact ⟨parent, buffer, scalar, parentViewed, by omega, read, stored,
      by rwa [Nat.add_assoc] at got, same⟩
  · rintro ⟨view, buffer, scalar, found, _, read, stored, got, same⟩
    obtain rfl := Option.some.inj (parentViewed.symm.trans found)
    exact ⟨_, buffer, scalar, viewed, below, read, stored, by rwa [Nat.add_assoc], same⟩

theorem Passes.backed (passes : Passes views window passed) {inner : Array View} {array : ArrayId}
    (viewed : inner[array]? = some passed) {heap : Array Buffer} {slot length : Nat}
    {type : ScalarType} (backed : Backed views heap window.array slot type length) :
    Backed inner heap array slot type window.length := by
  obtain ⟨parent, parentViewed, room, rfl⟩ := passes
  obtain ⟨view, buffer, found, rfl, _, stored, typed, fits⟩ := backed
  obtain rfl := Option.some.inj (parentViewed.symm.trans found)
  exact ⟨_, buffer, viewed, rfl, rfl, stored, typed, by simp only; omega⟩

theorem Passes.succeeds_window (passes : Passes views window passed) :
    Succeeds (Run.window views window.array window.offset window.length) machine passed machine := by
  obtain ⟨parent, viewed, room, rfl⟩ := passes
  have found : Succeeds (Run.view views window.array) machine parent machine := by
    simp [Run.view, viewed]
  rw [Run.window, succeeds_bind_iff]
  exact ⟨parent, machine, found, by simp [room]⟩

/-- A window holds the elements of a buffer. -/
structure ArrayRef.ShowsBuffer (window : ArrayRef) (views : Array View) (heap : Array Buffer)
    (readable : Nat → Prop) (values : Buffer) : Prop where
  type_eq : window.type = values.type
  length_eq : window.length = values.size
  holds : ∀ index scalar, values.get? index = some scalar →
    Holds views heap readable window.array (window.offset + index) scalar

theorem ArrayRef.ShowsBuffer.frame {readable kept : Nat → Prop} {values : Buffer} {number : Nat}
    {later : Machine} (shows : window.ShowsBuffer views machine.heap readable values)
    (frame : machine.Frame number kept later) (keeps : ∀ slot, readable slot → kept slot) :
    window.ShowsBuffer views later.heap readable values :=
  { shows with
    holds := fun index scalar found => (shows.holds index scalar found).frame frame keeps }

theorem ArrayRef.ShowsBuffer.mono {heap : Array Buffer} {readable more : Nat → Prop}
    {values : Buffer} (shows : window.ShowsBuffer views heap readable values)
    (includes : ∀ slot, readable slot → more slot) : window.ShowsBuffer views heap more values :=
  { shows with holds := fun index scalar found => (shows.holds index scalar found).mono includes }

/-- Reading a window gives the values that it holds. -/
theorem Passes.succeeds_readWindow (passes : Passes views window passed) {slot length : Nat}
    (backed : Backed views machine.heap window.array slot window.type length)
    {readable : Nat → Prop} {values : Buffer}
    (shows : window.ShowsBuffer views machine.heap readable values) :
    ∃ read, Succeeds (Run.readWindow passed) machine read machine ∧ read.Same values := by
  obtain ⟨parent, viewed, room, rfl⟩ := passes
  obtain ⟨view, buffer, found, rfl, _, stored, typed, fits⟩ := backed
  obtain rfl := Option.some.inj (viewed.symm.trans found)
  obtain ⟨part, sliced, partType, partSize, elements⟩ := buffer.exists_slice?
    (Nat.le_add_right (parent.offset + window.offset) window.length) (by omega)
  rw [Nat.add_sub_cancel_left] at partSize elements
  refine ⟨part, ?_, Buffer.same_iff_get?.mpr ⟨?_, ?_, ?_⟩⟩
  · simp [Run.readWindow, stored, sliced]
  · rw [partType, typed, shows.type_eq]
  · rw [partSize, shows.length_eq]
  · intro index left right leftFound rightFound
    have below : index < window.length := by
      refine Nat.lt_of_not_le fun beyond => ?_
      rw [shows.length_eq, ← Buffer.get?_eq_none_iff] at beyond
      simp [beyond] at rightFound
    obtain ⟨other, otherBuffer, scalar, otherViewed, _, _, otherStored, got, same⟩ :=
      shows.holds index right rightFound
    obtain rfl := Option.some.inj (viewed.symm.trans otherViewed)
    obtain rfl := Option.some.inj (stored.symm.trans otherStored)
    rw [elements index below, Nat.add_assoc, got] at leftFound
    exact Option.some.inj leftFound ▸ same

end Windows

/-! ## Calls of the host in code -/

namespace Activation

variable {activation : Activation} {before : Machine}

theorem succeeds_windows {callee : String} {index : Nat} {given : List ArrayRef}
    {passed : List View} (passes : List.Forall₂ (Passes activation.views) given passed) :
    Succeeds (activation.windows callee index
      (given.map fun window => .window window.array window.offset window.length)) before passed
      before := by
  induction passes generalizing index with
  | nil => exact succeeds_pure_iff.mpr ⟨rfl, rfl⟩
  | cons first _ ih =>
      rw [List.map_cons, Activation.windows, succeeds_bind_iff]
      refine ⟨_, _, first.succeeds_window, succeeds_bind_iff.mpr ⟨_, _, ih, ?_⟩⟩
      exact succeeds_pure_iff.mpr ⟨rfl, rfl⟩

theorem outcome_callHost (host : Host) (name : String) (arguments : List HostValue)
    (before : Machine) :
    outcome (Run.callHost host name arguments) before =
      match host.function? name with
      | none => (.error (.unknownHostFunction name), before)
      | some function =>
          (if function.panics then .error (.uncaughtPanic name) else .ok (),
            { before with calls := before.calls.push ⟨function.label, arguments⟩ }) := by
  rw [Run.callHost]
  cases host.function? name with
  | none => rfl
  | some function =>
      simp only [outcome_bind, outcome_modify]
      split <;> rfl

/-- A call of the host with a window. -/
theorem delivers_call {name : String} {window : ArrayRef} {passed : View} {slot length : Nat}
    {readable : Nat → Prop} {values : Buffer} (passes : Passes activation.views window passed)
    (backed : Backed activation.views before.heap window.array slot window.type length)
    (shows : window.ShowsBuffer activation.views before.heap readable values) :
    activation.Delivers
      [.call (.host name) [.window window.array window.offset window.length]] [(name, values)] before
      fun after => after.registers = before.registers ∧ after.heap = before.heap := by
  obtain ⟨read, ran, same⟩ := passes.succeeds_readWindow backed shows
  have argument : Succeeds
      (activation.hostValue (.window window.array window.offset window.length)) before (.array read)
      before := by
    rw [hostValue, succeeds_bind_iff]
    exact ⟨_, _, passes.succeeds_window, succeeds_map_iff.mpr ⟨read, ran, rfl⟩⟩
  have arguments : Succeeds
      ([Argument.window window.array window.offset window.length].mapM activation.hostValue) before
      [.array read] before := by
    simp only [List.mapM_cons, List.mapM_nil, succeeds_bind_iff]
    exact ⟨_, _, argument, _, _, rfl, rfl⟩
  have called : outcome (activation.executeBody
      [.call (.host name) [.window window.array window.offset window.length]]) before =
      outcome (Run.callHost activation.host name [.array read]) before := by
    simp only [executeBody, execute]
    rw [outcome_bind, outcome_bind_of_succeeds arguments]
    rcases outcome (Run.callHost activation.host name [.array read]) before with ⟨_ | ⟨⟩, _⟩ <;> rfl
  rw [Delivers, called, outcome_callHost]
  simp only [Host.serve]
  cases activation.host.function? name with
  | none => exact ⟨before, [], rfl, by simp, .nil, fun _ => ⟨rfl, rfl⟩⟩
  | some function =>
      have recorded : HostCall.Same ⟨function.label, [.array read]⟩ ⟨function.label, [.array values]⟩ :=
        ⟨rfl, .cons (.array same) .nil⟩
      refine ⟨{ before with calls := before.calls.push ⟨function.label, [.array read]⟩ },
        [⟨function.label, [.array read]⟩], ?_, Array.toList_push, ?_, fun _ => ⟨rfl, rfl⟩⟩
      · cases panics : function.panics <;> simp [panics]
      · cases panics : function.panics <;> simpa [panics] using recorded

/-- A branch makes the calls of its body when its condition is true. -/
theorem delivers_branch {condition : ValueId} {trigger : Bool} {body : List Instruction}
    {due : List (String × Buffer)} {goal : Machine → Prop}
    (has : before.Has condition (.bool trigger))
    (taken : trigger = true → activation.Delivers body due before goal)
    (skipped : trigger = false → goal before) :
    activation.Delivers [.branch condition body] (if trigger then due else []) before goal := by
  obtain ⟨found, read, same⟩ := has
  cases same
  have entered : outcome (activation.executeBody [.branch condition body]) before =
      if trigger then outcome (activation.executeBody body) before else (.ok (), before) := by
    simp only [executeBody, execute]
    rw [outcome_bind, outcome_bind_of_succeeds (succeeds_readValue read)]
    cases trigger with
    | false => rfl
    | true =>
        simp only [if_true]
        rcases outcome (activation.executeBody body) before with ⟨_ | ⟨⟩, _⟩ <;> rfl
  cases trigger with
  | false => exact ⟨before, [], entered, by simp, .nil, fun _ => skipped rfl⟩
  | true =>
      obtain ⟨after, recorded, ran, rest⟩ := taken rfl
      exact ⟨after, recorded, entered.trans ran, rest⟩

end Activation

/-! ## Calls of routines -/

/-- What the code of a routine refers to during a call. -/
def Program.activation (program : Program) (host : Host) (depth : Nat) (routine : Routine)
    (arguments : List View) (base : Nat) : Activation where
  host
  views := (arguments ++ viewsFrom base routine.locals).toArray
  call := program.call host depth

/-- The machine on which the code of a routine starts. -/
def Machine.enter (machine : Machine) (routine : Routine) : Machine :=
  { machine with
    registers := Array.replicate routine.valueTypes.size none
    heap := machine.heap ++ (routine.locals.map ArrayDeclaration.contents).toArray }

/-- A machine on which code has run, when control is back where a routine was called. -/
def Machine.leave (machine caller : Machine) : Machine :=
  { machine with registers := caller.registers, heap := machine.heap.shrink caller.heap.size }

/-- Windows fit the parameters of a routine. -/
def Routine.Accepts (routine : Routine) (machine : Machine) (arguments : List View) : Prop :=
  List.Forall₂ (fun parameter view => parameter.length = view.length ∧
    (machine.heap[view.slot]?).map Buffer.type = some parameter.type) routine.parameters arguments

theorem Routine.Accepts.succeeds_checkArguments {routine : Routine} {machine : Machine}
    {arguments : List View} (accepts : routine.Accepts machine arguments) :
    Succeeds (checkArguments routine arguments) machine () machine := by
  have none : (routine.parameters.zip arguments).findIdx? (fun pair =>
      !(pair.1.length = pair.2.length &&
        (machine.heap[pair.2.slot]?).map Buffer.type = some pair.1.type)) = none := by
    rw [List.findIdx?_eq_none_iff]
    rintro ⟨parameter, view⟩ mem
    obtain ⟨length, typed⟩ := List.forall₂_iff_zip.mp accepts |>.2 mem
    simp [length, typed]
  simp only [checkArguments, accepts.length_eq, ne_eq, not_true_eq_false, if_false]
  refine succeeds_bind_iff.mpr ⟨machine, machine, rfl, ?_⟩
  simp only [none]
  rfl

/-- A call runs the body of a routine, and what it leaves of it is gone. -/
theorem Program.outcome_call {program : Program} {host : Host} {depth : Nat} {name : String}
    {arguments : List View} {routine : Routine} {before : Machine}
    (found : program.routine? name = some routine) (accepts : routine.Accepts before arguments) :
    outcome (program.call host (depth + 1) name arguments) before =
      ((outcome ((program.activation host depth routine arguments before.heap.size).executeBody
          routine.body) (before.enter routine)).1,
        (outcome ((program.activation host depth routine arguments before.heap.size).executeBody
          routine.body) (before.enter routine)).2.leave before) := by
  rw [Program.call]
  simp only [found]
  rw [outcome_bind_of_succeeds accepts.succeeds_checkArguments,
    outcome_bind_of_succeeds (succeeds_get_iff.mpr ⟨rfl, rfl⟩),
    outcome_bind_of_succeeds (succeeds_get_iff.mpr ⟨rfl, rfl⟩),
    outcome_bind, outcome_modify]
  simp only [outcome_bind, outcome_tryCatch, activation, Machine.enter]
  rcases outcome (Activation.executeBody _ routine.body) _ with ⟨_ | ⟨⟩, after⟩ <;> rfl

/-- A routine without local arrays sees what was passed to it. -/
theorem Program.views_activation {program : Program} {host : Host} {depth base : Nat}
    {routine : Routine} {arguments : List View} (locals : routine.locals = []) :
    (program.activation host depth routine arguments base).views = arguments.toArray := by
  simp [activation, locals, viewsFrom]

section Subroutines

variable {activation : Activation} {program : Program} {host : Host} {depth : Nat} {name : String}
  {routine : Routine} {before : Machine} {given : List ArrayRef} {passed : List View}

/-- A call of a routine without local arrays reaches on the buffers what the code of the routine
reaches. -/
theorem Activation.reaches_call (goal : Array Buffer → Prop) {values number : Nat}
    {kept : Nat → Prop} (calls : activation.call = program.call host (depth + 1))
    (found : program.routine? name = some routine)
    (passes : List.Forall₂ (Passes activation.views) given passed)
    (accepts : routine.Accepts before passed) (locals : routine.locals = [])
    (reaches : (program.activation host depth routine passed before.heap.size).Reaches routine.body
      number kept (before.enter routine) (goal ·.heap)) :
    activation.Reaches
      [.call (.routine name)
        (given.map fun window => .window window.array window.offset window.length)]
      values kept before (goal ·.heap) := by
  obtain ⟨after, ran, frame, reached⟩ := reaches
  have entered : (before.enter routine).heap = before.heap := by simp [Machine.enter, locals]
  have size : after.heap.size = before.heap.size := by rw [frame.size_heap, entered]
  have left : (after.leave before).heap = after.heap := by simp [Machine.leave, ← size]
  have called : outcome (program.call host (depth + 1) name passed) before =
      (.ok (), after.leave before) := by
    rw [Program.outcome_call found accepts, ran]
  refine ⟨after.leave before, runs_singleton_iff.mpr ?_,
    ⟨frame.calls_eq, rfl, fun _ _ => rfl, ?_, ?_, ?_⟩, ?_⟩
  · rw [execute, succeeds_bind_iff, calls]
    exact ⟨passed, before, succeeds_windows passes, called⟩
  · rw [left, size]
  · intro slot keeps
    rw [left, frame.heap slot keeps, entered]
  · intro slot buffer stored
    rw [left]
    exact frame.shapes slot buffer (entered.symm ▸ stored)
  · exact (congrArg goal left).mpr reached

/-- Windows that have passed their checks fit parameters of their types and lengths. -/
theorem Builder.Ready.exists_accepts {builder : Builder} {views : Array View}
    (ready : builder.Ready views before)
    (checked : ∀ window ∈ given, builder.checkArray window = .ok ())
    (fits : List.Forall₂ (fun (parameter : Parameter) (window : ArrayRef) =>
      parameter.type = window.type ∧ parameter.length = window.length) routine.parameters given) :
    ∃ passed, List.Forall₂ (Passes views) given passed ∧ routine.Accepts before passed := by
  generalize parametersEq : routine.parameters = parameters at fits
  have accepted : ∃ passed, List.Forall₂ (Passes views) given passed ∧
      List.Forall₂ (fun parameter view => parameter.length = view.length ∧
        (before.heap[view.slot]?).map Buffer.type = some parameter.type) parameters passed := by
    clear parametersEq
    induction fits with
    | nil => exact ⟨[], .nil, .nil⟩
    | @cons parameter window parameters given fit _ ih =>
        obtain ⟨passed, passes, accepts⟩ :=
          ih fun other mem => checked other (List.mem_cons_of_mem _ mem)
        obtain ⟨view, pass⟩ := ready.passes (checked window List.mem_cons_self)
        refine ⟨view :: passed, .cons pass passes, .cons ⟨?_, ?_⟩ accepts⟩
        · rw [pass.length_eq, fit.2]
        · obtain ⟨slot, length, backed, _⟩ := ready.backed (checked window List.mem_cons_self)
          obtain ⟨parent, parentViewed, _, rfl⟩ := pass
          obtain ⟨found, buffer, viewed, rfl, _, stored, typed, _⟩ := backed
          obtain rfl := Option.some.inj (parentViewed.symm.trans viewed)
          simp [stored, typed, fit.1]
  obtain ⟨passed, passes, accepts⟩ := accepted
  exact ⟨passed, passes, by rwa [Routine.Accepts, parametersEq]⟩

/-- A routine that has no arrays besides its parameters is ready where windows are passed for
them. -/
theorem Builder.Ready.of_passes {caller inner : Builder} {views : Array View} {entered : Machine}
    (ready : caller.Ready views before)
    (checked : ∀ window ∈ given, caller.checkArray window = .ok ())
    (passes : List.Forall₂ (Passes views) given passed)
    (arrays : inner.arrays = (inner.parameters.map fun parameter =>
      ArrayDeclaration.parameter parameter.type parameter.length).toArray)
    (fits : List.Forall₂ (fun (parameter : Parameter) (window : ArrayRef) =>
      parameter.type = window.type ∧ parameter.length = window.length) inner.parameters given)
    (registers : inner.valueTypes.size ≤ entered.registers.size)
    (heap : entered.heap = before.heap) : inner.Ready passed.toArray entered where
  values := registers
  arrays array declaration declared := by
    rw [arrays, List.getElem?_toArray, List.getElem?_map, Option.map_eq_some_iff] at declared
    obtain ⟨parameter, found, rfl⟩ := declared
    obtain ⟨bound, rfl⟩ := List.getElem?_eq_some_iff.mp found
    have givenBound : array < given.length := fits.length_eq ▸ bound
    obtain ⟨typed, length⟩ := fits.get bound givenBound
    have pass := passes.get givenBound (passes.length_eq ▸ givenBound)
    simp only [List.get_eq_getElem] at typed length pass
    obtain ⟨slot, _, backed, _⟩ := ready.backed (checked _ (List.getElem_mem givenBound))
    refine ⟨slot, ?_⟩
    rw [heap]
    simp only [ArrayDeclaration.type, ArrayDeclaration.length, typed, length]
    refine pass.backed ?_ backed
    simp [passes.length_eq ▸ givenBound]

end Subroutines

end Dataflow
