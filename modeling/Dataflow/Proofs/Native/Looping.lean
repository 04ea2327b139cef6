import Dataflow.Proofs.Native.Finishing
import Dataflow.Proofs.Routine.Emission

/-!
# Loops over ranges

The interpreter runs the body of a loop once for each number of its range, whatever the body assigns to
the counter.  Native code keeps the counter in a variable of its own, which it tests and increments, and
compares as a signed number.  It runs the body once for each number of the range if nothing in the body
assigns to the counter and the range lies below 2^63.
-/

namespace Dataflow

/-! ## Turns -/

/-- Turns that are taken one after another, one for each item of a list. -/
inductive Takes {α State : Type} (turn : α → State → State → Prop) : List α → State → State → Prop
  | nil (state : State) : Takes turn [] state state
  | cons {item : α} {rest : List α} {before between after : State} (first : turn item before between)
      (next : Takes turn rest between after) : Takes turn (item :: rest) before after

section Taking

variable {α State : Type} {turn : α → State → State → Prop} {item : α} {rest : List α}
  {before after : State}

theorem takes_nil_iff : Takes turn [] before after ↔ after = before := by
  constructor
  · rintro ⟨⟩
    rfl
  · rintro rfl
    exact .nil after

theorem takes_cons_iff :
    Takes turn (item :: rest) before after ↔
      ∃ between, turn item before between ∧ Takes turn rest between after := by
  constructor
  · rintro (_ | ⟨first, next⟩)
    exact ⟨_, first, next⟩
  · rintro ⟨_, first, next⟩
    exact .cons first next

end Taking

/-! ## The interpreter -/

/-- What the interpreter runs over a range takes one turn for each number, in order.  The induction is
on the number of turns that are left. -/
theorem succeeds_forRange_iff {turn : Nat → Run Unit} {first count : Nat} {before after : Machine} :
    Succeeds (Activation.forRange turn first count) before () after ↔
      Takes (fun index before after => Succeeds (turn index) before () after)
        (List.range' first count) before after := by
  induction count generalizing first before with
  | zero => simp [Activation.forRange, takes_nil_iff]
  | succ count ih =>
      rw [List.range'_succ, takes_cons_iff, Activation.forRange, succeeds_bind_iff]
      constructor
      · rintro ⟨⟨⟩, between, done, rest⟩
        exact ⟨between, done, ih.mp rest⟩
      · rintro ⟨between, done, rest⟩
        exact ⟨(), between, done, ih.mpr rest⟩

/-- The interpreter runs the body of a loop, when the counter has been set to a number. -/
def Activation.Turns (activation : Activation) (counter : ValueId) (body : List Instruction)
    (index : Nat) (before after : Machine) : Prop :=
  Succeeds (activation.executeBody body) (before.write counter (.index index)) () after

/-- A loop takes one turn for each number of its range, in order. -/
theorem Activation.succeeds_loop_iff {activation : Activation} {counter : ValueId} {start stop : Nat}
    {body : List Instruction} {before after : Machine} :
    Succeeds (activation.execute (.loop counter start stop body)) before () after ↔
      Takes (activation.Turns counter body) (List.range' start (stop - start)) before after := by
  have turns : (fun index before after => Succeeds (do
        Run.writeValue counter (.index index)
        activation.executeBody body) before () after) = activation.Turns counter body := by
    funext index before after
    have written : Succeeds (Run.writeValue counter (.index index)) before ()
      (before.write counter (.index index)) := rfl
    rw [Succeeds, outcome_bind_of_succeeds written, Turns, Succeeds]
  rw [execute, succeeds_forRange_iff, turns]

/-! ## Variables that code leaves alone -/

/-- Nothing in some code assigns to a variable, and no loop counts with it. -/
structure Unassigned (value : ValueId) (code : List Instruction) : Prop where
  assigns : ∀ expression, ¬Instruction.Occurs (.assign value expression) code
  counts : ∀ start stop body, ¬Instruction.Occurs (.loop value start stop body) code

theorem Unassigned.of_occurs {value : ValueId} {code part : List Instruction}
    (unassigned : Unassigned value code)
    (occurs : ∀ instruction : Instruction, instruction.Occurs part → instruction.Occurs code) :
    Unassigned value part :=
  ⟨fun expression within => unassigned.assigns expression (occurs _ within),
    fun start stop body within => unassigned.counts start stop body (occurs _ within)⟩

namespace Native

theorem ends_bind_iff_of_ends {α β : Type} {effect : Effect α} {next : α → Effect β} {first : α}
    {value : β} {before between after : Machine} (ends : Ends effect before first between) :
    Ends (effect >>= next) before value after ↔ Ends (next first) between value after := by
  rw [ends_bind_iff]
  constructor
  · rintro ⟨other, middle, same, rest⟩
    obtain ⟨⟨⟩, rfl⟩ := Prod.mk.inj (ends.symm.trans same)
    exact rest
  · exact fun rest => ⟨first, between, ends, rest⟩

/-- Where native code ends, a variable is as it was. -/
def Spares {α : Type} (value : ValueId) (effect : Effect α) : Prop :=
  ∀ before result after, Ends effect before result after →
    after.registers.size = before.registers.size ∧ after.registers[value]? = before.registers[value]?

section Sparing

variable {α β : Type} {value : ValueId}

/-- Native code that only reads. -/
theorem spares_of_reads {effect : Effect α}
    (reads : ∀ machine, ∃ result, Ends effect machine result machine) : Spares value effect := by
  intro before result after ends
  obtain ⟨other, same⟩ := reads before
  obtain rfl : after = before := congrArg Prod.snd (ends.symm.trans same)
  exact ⟨rfl, rfl⟩

theorem Spares.bind {effect : Effect α} {next : α → Effect β} (first : Spares value effect)
    (second : ∀ result, Spares value (next result)) : Spares value (effect >>= next) := by
  intro before result after ends
  obtain ⟨middle, between, one, rest⟩ := ends_bind_iff.mp ends
  obtain ⟨size, same⟩ := first before middle between one
  obtain ⟨restSize, restSame⟩ := second middle between result after rest
  exact ⟨restSize.trans size, restSame.trans same⟩

theorem spares_pure (result : α) : Spares value (pure result) :=
  spares_of_reads fun _ => ⟨result, ends_pure_iff.mpr ⟨rfl, rfl⟩⟩

theorem spares_get : Spares value (get : Effect Machine) :=
  spares_of_reads fun machine => ⟨machine, ends_get⟩

theorem spares_failure : Spares value (failure : Effect α) :=
  fun _ _ _ ends => nomatch congrArg Prod.fst ends

/-- A change of the machine that keeps the variables. -/
theorem spares_modify {change : Machine → Machine}
    (keeps : ∀ machine, (change machine).registers = machine.registers) :
    Spares value (modify change : Effect Unit) := by
  intro before result after ends
  obtain rfl : change before = after := congrArg Prod.snd ends
  rw [keeps]
  exact ⟨rfl, rfl⟩

theorem spares_readValue (source : ValueId) : Spares value (Effect.readValue source) :=
  spares_of_reads fun machine => ⟨_, ends_readValue machine source⟩

theorem spares_readIndex (source : ValueId) : Spares value (Effect.readIndex source) :=
  spares_of_reads fun machine => exists_ends_readIndex machine source

theorem spares_writeValue {target : ValueId} (different : target ≠ value) (word : Word) :
    Spares value (Effect.writeValue target word) := by
  intro before result after ends
  obtain rfl : before.write target word = after := congrArg Prod.snd ends
  exact ⟨before.size_registers_write target word, Array.getElem?_setIfInBounds_ne different⟩

theorem spares_mapM {read : β → Effect α} (each : ∀ item, Spares value (read item)) (items : List β) :
    Spares value (items.mapM read) := by
  induction items with
  | nil => exact spares_pure []
  | cons item items ih =>
      rw [List.mapM_cons]
      exact (each item).bind fun _ => ih.bind fun _ => spares_pure _

theorem spares_hostValue (frame : Frame) (argument : Argument) :
    Spares value (frame.hostValue argument) := by
  cases argument with
  | value source => exact (spares_readValue source).bind fun _ => spares_pure _
  | window array offset length => exact spares_get.bind fun _ => spares_pure _

theorem spares_callHost (host : Host) (name : String) {arguments : Effect (List HostValue)}
    (read : Spares value arguments) : Spares value (Effect.callHost host name arguments) := by
  refine spares_get.bind fun machine => ?_
  split
  · split
    · exact spares_modify fun _ => rfl
    · refine read.bind fun _ => .bind ?_ fun _ => ?_
      · exact spares_modify fun _ => rfl
      · split
        · exact spares_modify fun _ => rfl
        · exact spares_pure ()
  · exact spares_pure ()

/-- A call gives back the variables of its caller. -/
theorem spares_call (program : Program) (host : Host) (depth : Nat) (name : String)
    (arguments : List (Option Pointer)) : Spares value (call program host depth name arguments) := by
  intro before result after ends
  cases depth with
  | zero => exact nomatch congrArg Prod.fst ends
  | succ depth =>
      rw [call] at ends
      split at ends
      · obtain ⟨_, rfl⟩ := ends_pure_iff.mp ends
        exact ⟨rfl, rfl⟩
      · simp only [ends_bind_iff] at ends
        obtain ⟨_, _, first, _, _, second, _, _, _, _, _, _, last⟩ := ends
        obtain ⟨⟨⟩, rfl⟩ := Prod.mk.inj first
        obtain ⟨⟨⟩, rfl⟩ := Prod.mk.inj second
        obtain ⟨_, rfl⟩ := Prod.mk.inj last
        exact ⟨rfl, rfl⟩

/-- A loop spares a variable that is not its counter, if its body does.  The induction is on the number
of turns after which the loop is taken not to end. -/
theorem spares_whileBelow {counter stop : Nat} {body : Effect Unit} (different : counter ≠ value)
    (turn : Spares value body) (limit : Nat) :
    Spares value (Frame.whileBelow counter stop body limit) := by
  induction limit with
  | zero => exact spares_failure
  | succ limit ih =>
      refine (spares_readIndex counter).bind fun index => ?_
      split
      · exact turn.bind fun _ => (spares_readIndex counter).bind fun _ =>
          (spares_writeValue different _).bind fun _ => ih
      · exact spares_pure ()

end Sparing

section Code

variable {frame : Frame} {value : ValueId}

/-- The calls of a frame spare a variable. -/
def Frame.CallsSpare (frame : Frame) (value : ValueId) : Prop :=
  ∀ name pointers, Spares value (frame.call name pointers)

mutual

/-- An instruction spares a variable that nothing in it assigns, with one case for each kind of
instruction. -/
theorem spares_execute (calls : frame.CallsSpare value) : ∀ instruction : Instruction,
    Unassigned value [instruction] → Spares value (frame.execute instruction)
  | .assign target expression, unassigned => by
      rw [Frame.execute]
      have different : target ≠ value := by
        rintro rfl
        exact unassigned.assigns expression .here
      exact (spares_of_reads fun machine => exists_ends_evaluate frame machine expression).bind
        fun _ => spares_writeValue different _
  | .store array position source, _ => by
      rw [Frame.execute]
      exact (spares_readValue source).bind fun _ =>
        (spares_of_reads fun machine => exists_ends_locate frame machine array position).bind
          fun _ => spares_modify fun _ => rfl
  | .loop counter start stop body, unassigned => by
      rw [Frame.execute]
      have different : counter ≠ value := by
        rintro rfl
        exact unassigned.counts start stop body .here
      exact (spares_writeValue different _).bind fun _ => spares_whileBelow different
        (spares_executeBody calls body (unassigned.of_occurs fun _ => .loop)) _
  | .branch condition body, unassigned => by
      rw [Frame.execute]
      refine (spares_readValue condition).bind fun word => ?_
      split
      · exact spares_executeBody calls body (unassigned.of_occurs fun _ => .branch)
      · exact spares_pure ()
  | .call (.routine name) arguments, _ => by
      rw [Frame.execute]
      exact calls name _
  | .call (.host name) arguments, _ => by
      rw [Frame.execute]
      exact spares_callHost _ _ (spares_mapM (spares_hostValue frame) arguments)

theorem spares_executeBody (calls : frame.CallsSpare value) : ∀ body : List Instruction,
    Unassigned value body → Spares value (frame.executeBody body)
  | [], _ => by
      rw [Frame.executeBody]
      exact spares_pure ()
  | instruction :: rest, unassigned => by
      rw [Frame.executeBody]
      exact (spares_execute calls instruction
        (unassigned.of_occurs fun _ occurs => occurs.of_singleton rest)).bind fun _ =>
          spares_executeBody calls rest (unassigned.of_occurs fun _ => .later)

end

end Code

/-! ## Native loops -/

/-- Native code runs the body of a loop, when the counter has been set to a number. -/
def Frame.Turns (frame : Frame) (counter : ValueId) (body : List Instruction) (index : Nat)
    (before after : Machine) : Prop :=
  Ends (frame.executeBody body) (before.write counter (.index (.ofNat index))) () after

section Loops

variable {frame : Frame} {counter : ValueId} {body : List Instruction} {before after : Machine}

theorem Machine.getElem?_write_self {target : ValueId} (inside : target < before.registers.size)
    (word : Word) : (before.write target word).registers[target]? = some word := by
  rw [before.registers_write _ inside, if_pos rfl]

/-- Native code that counts on from a number. -/
theorem ends_increment_iff {index : Nat} {next : Effect Unit}
    (set : before.registers[counter]? = some (.index (.ofNat index))) :
    Ends (do
        Effect.writeValue counter (.index ((← Effect.readIndex counter) + 1))
        next) before () after ↔
      Ends next (before.write counter (.index (.ofNat (index + 1)))) () after := by
  rw [ends_bind_iff_of_ends (ends_readIndex set), ends_bind_iff_of_ends (ends_writeValue _ _ _),
    UInt64.ofNat_add]
  rfl

/-- From a counter that has been set, native code takes the turns that are left of a range, and leaves
the counter at its end.  The induction is on the number of turns after which the loop is taken not to
end. -/
theorem ends_whileBelow_iff (spares : Spares counter (frame.executeBody body))
    {limit index stop : Nat} (inside : counter < before.registers.size) (indexSmall : index < 2 ^ 63)
    (stopSmall : stop < 2 ^ 63) (room : stop - index < limit) :
    Ends (Frame.whileBelow counter stop (frame.executeBody body) limit)
        (before.write counter (.index (.ofNat index))) () after ↔
      ∃ last, Takes (frame.Turns counter body) (List.range' index (stop - index)) before last ∧
        after = last.write counter (.index (.ofNat (max index stop))) := by
  induction limit generalizing before index with
  | zero => exact absurd room (Nat.not_lt_zero _)
  | succ limit ih =>
      have set := Machine.getElem?_write_self inside (.index (.ofNat index))
      rw [Frame.whileBelow, ends_bind_iff_of_ends (ends_readIndex set)]
      by_cases below : index < stop
      · -- the body leaves the counter as it was, and the increment sets it for the turns that are left
        have continued : ∀ between, frame.Turns counter body index before between →
            (Ends (do
              Effect.writeValue counter (.index ((← Effect.readIndex counter) + 1))
              Frame.whileBelow counter stop (frame.executeBody body) limit) between () after ↔
            ∃ last, Takes (frame.Turns counter body) (List.range' (index + 1) (stop - (index + 1)))
                between last ∧ after = last.write counter (.index (.ofNat (max index stop)))) := by
          intro between ran
          obtain ⟨size, kept⟩ := spares _ _ _ ran
          have room : counter < between.registers.size := by
            rwa [size, before.size_registers_write]
          rw [ends_increment_iff (kept.trans set), ih room (by omega) (by omega),
            max_eq_right below, max_eq_right (Nat.le_of_lt below)]
        rw [if_pos ((toInt64_lt_iff indexSmall stopSmall).mpr below), ends_bind_iff,
          show stop - index = stop - (index + 1) + 1 by omega, List.range'_succ]
        simp only [takes_cons_iff]
        constructor
        · rintro ⟨⟨⟩, between, ran, rest⟩
          obtain ⟨last, takes, left⟩ := (continued between ran).mp rest
          exact ⟨last, ⟨between, ran, takes⟩, left⟩
        · rintro ⟨last, ⟨between, ran, takes⟩, left⟩
          exact ⟨(), between, ran, (continued between ran).mpr ⟨last, takes, left⟩⟩
      · rw [if_neg (mt (toInt64_lt_iff indexSmall stopSmall).mp below), ends_pure_iff,
          show stop - index = 0 by omega, max_eq_left (by omega)]
        simp [takes_nil_iff]

/-- A native loop that nothing in its body assigns to takes one turn for each number of its range, in
order, and leaves its counter at the end of the range. -/
theorem Frame.ends_loop_iff (spares : Spares counter (frame.executeBody body)) {start stop : Nat}
    (inside : counter < before.registers.size) (startSmall : start < 2 ^ 63)
    (stopSmall : stop < 2 ^ 63) (room : stop - start < limit) :
    Ends (frame.execute (.loop counter start stop body)) before () after ↔
      ∃ last, Takes (frame.Turns counter body) (List.range' start (stop - start)) before last ∧
        after = last.write counter (.index (.ofNat (max start stop))) := by
  rw [execute, ends_bind_iff_of_ends (ends_writeValue _ _ _)]
  exact ends_whileBelow_iff spares inside startSmall stopSmall room

end Loops

end Native

/-! ## Loops of the emitter -/

/-- Loops count with index variables, and the loops inside them count with others. -/
def Declarations.CountsApart (declared : Declarations) (code : List Instruction) : Prop :=
  ∀ counter start stop body, Instruction.Occurs (.loop counter start stop body) code →
    declared.values[counter]? = some .index ∧ CountsFrom (counter + 1) body

theorem Declarations.law_countsApart : Law CountsApart where
  nil _ _ _ _ _ occurs := nomatch occurs
  append first second counter start stop body occurs :=
    occurs.of_append.elim (first counter start stop body) (second counter start stop body)
  extend counts extended counter start stop body occurs :=
    (counts counter start stop body occurs).imp_left (extended.values _ _)
  assign _ _ _ _ _ _ occurs := nomatch occurs
  store _ _ _ _ _ _ _ occurs := nomatch occurs
  loop counts fresh turn counter start stop body occurs := by
    cases occurs with
    | here => exact ⟨counts, fresh⟩
    | later none => cases none
    | loop occurs => exact turn counter start stop body occurs
  branch _ taken counter start stop body occurs := by
    cases occurs with
    | later none => cases none
    | branch occurs => exact taken counter start stop body occurs
  call _ _ _ _ _ occurs := nomatch occurs

/-- Loops run their range.  For every loop in a routine that clients have made by emitter calls: the
interpreter runs the body exactly once for each number of the range, in order, and sets the counter to
that number before, whatever the body assigns to the counter.  Native code does so too if the body does
not assign to the counter and the range lies below 2^63; then the counter is at the end of the range. -/
theorem Program.Assembled.loops_run_their_range {program : Program} (assembled : program.Assembled)
    {routine : Routine} (mem : routine ∈ program.routines) {counter : ValueId} {start stop : Nat}
    {body : List Instruction}
    (occurs : Instruction.Occurs (.loop counter start stop body) routine.body) :
    (∀ (activation : Activation) (before after : Machine),
      Succeeds (activation.execute (.loop counter start stop body)) before () after ↔
        Takes (activation.Turns counter body) (List.range' start (stop - start)) before after) ∧
      ((∀ expression, ¬Instruction.Occurs (.assign counter expression) body) → start < 2 ^ 63 →
        stop < 2 ^ 63 → stop - start < Native.Frame.limit →
        ∀ (host : Host) (depth : Nat) (pointers : List (Option Native.Pointer)) (base : Nat)
          (before after : Native.Machine), before.registers.size = routine.valueTypes.size →
          (Native.Ends ((Native.frameOf program host depth routine pointers base).execute
              (.loop counter start stop body)) before () after ↔
            ∃ last, Takes ((Native.frameOf program host depth routine pointers base).Turns counter body)
                (List.range' start (stop - start)) before last ∧
              after = last.write counter (.index (.ofNat (max start stop))))) := by
  refine ⟨fun activation before after => activation.succeeds_loop_iff,
    fun unassigned startSmall stopSmall room host depth pointers base before after size => ?_⟩
  obtain ⟨builder, built, rfl⟩ := assembled.exists_built routine mem
  obtain ⟨declared, fresh⟩ := built.obeys Declarations.law_countsApart _ _ _ _ occurs
  have inside : counter < before.registers.size :=
    size ▸ (Array.getElem?_eq_some_iff.mp declared).1
  have alone : Unassigned counter body :=
    ⟨unassigned, fun _ _ _ inner => Nat.lt_irrefl _ (fresh _ _ _ _ inner)⟩
  have calls : (Native.frameOf program host depth builder.finish pointers base).CallsSpare counter :=
    Native.spares_call program host depth
  exact Native.Frame.ends_loop_iff (Native.spares_executeBody calls body alone) inside startSmall
    stopSmall room

/-- A routine that marks the elements of its parameter, and sets the counter of the loop to its last
value in each turn. -/
def impatient : Emit Unit Unit := do
  let mark ← Emit.literal (.scalar (.bool true))
  let last ← Emit.literal (.index 3)
  Emit.loop 0 4 fun counter => do
    Emit.store ⟨0, .bool, 0, 4⟩ (.value counter) mark
    Emit.assign counter last

/-- Where the body assigns to the counter, native code takes fewer turns than the interpreter. -/
theorem exists_shortened_loop :
    ∃ program : Program, program.Assembled ∧
      (program.run ⟨[]⟩ "impatient" [.bool #[false, false, false, false]]).result =
        .ok [.bool #[true, true, true, true]] ∧
      (Native.run program ⟨[]⟩ "impatient" [.bool #[false, false, false, false]]).result =
        .ok [.bool #[true, false, false, false]] := by
  have built : (outcome impatient (.start "impatient" [⟨"marks", .bool, 4⟩], ())).2.1.Built :=
    .emit (.start _ _) (.bind (.literal _) fun _ => .bind (.literal _) fun _ =>
      .loop 0 4 fun _ => .bind (.store _ _ _) fun _ => .assign _ _) ()
  exact ⟨⟨[(outcome impatient (.start "impatient" [⟨"marks", .bool, 4⟩], ())).2.1.finish]⟩,
    .define .empty built rfl, by cbv, by decide +kernel⟩

end Dataflow
