import Dataflow.Proofs.Lowering.Correctness

/-!
# What options leave alone

Options decide how the code of a model is laid out, and not what it computes.  The one exception is a
sum of negative zeros: a loop makes it positive, and code that is written out does not.
-/

namespace Dataflow

/-! ## Runs that are alike -/

section Calls

variable {first second third : HostCall}

theorem HostValue.Same.symm {left right : HostValue} (same : left.Same right) : right.Same left := by
  cases same with
  | scalar same => exact .scalar same.symm
  | array same => exact .array same.symm

theorem HostValue.Same.trans {left middle right : HostValue} (same : left.Same middle)
    (also : middle.Same right) : left.Same right := by
  cases same with
  | scalar same => cases also with | scalar also => exact .scalar (same.trans also)
  | array same => cases also with | array also => exact .array (same.trans also)

theorem HostCall.Same.symm (same : first.Same second) : second.Same first :=
  ⟨same.1.symm, (same.2.imp fun _ _ same => same.symm).flip⟩

theorem HostCall.Same.trans (same : first.Same second) (also : second.Same third) :
    first.Same third :=
  ⟨same.1.trans also.1,
    (forall₂_trans same.2 also.2).imp fun _ _ ⟨_, one, other⟩ => one.trans other⟩

end Calls

/-- Two runs end in the same way, after the same calls and with the same results. -/
structure RunOutcome.Alike (left right : RunOutcome) : Prop where
  result_eq : left.result.map (fun _ => ()) = right.result.map (fun _ => ())
  calls_same : List.Forall₂ HostCall.Same left.calls right.calls
  results_same : ∀ results others, left.result = .ok results → right.result = .ok others →
    List.Forall₂ Buffer.Same results others

theorem RunOutcome.Follows.alike {left right : RunOutcome} {host : Host}
    {due : List (String × Buffer)} {expected : List Buffer} (one : left.Follows host due expected)
    (other : right.Follows host due expected) : left.Alike right where
  result_eq := one.result_eq.trans other.result_eq.symm
  calls_same :=
    (forall₂_trans one.calls_same (other.calls_same.imp fun _ _ same => HostCall.Same.symm same).flip).imp
      fun _ _ ⟨_, same, also⟩ => HostCall.Same.trans same also
  results_same results others finished also :=
    (forall₂_trans (one.results_same results finished)
      ((other.results_same others also).imp fun _ _ same => Buffer.Same.symm same).flip).imp
        fun _ _ ⟨_, same, also⟩ => Buffer.Same.trans same also

/-! ## Options -/

section Options

variable {model : Model} {options others : CompilerOptions} {requests : List Elements}
  {first second : CompiledModel}

/-- Options only change the name of the entry routine. -/
theorem inputs_eq_of_compile (compiles : (model.compile options requests).result = .ok first)
    (also : (model.compile others requests).result = .ok second) :
    second.signature.inputs = first.signature.inputs := by
  have one := (compile_eq_ok_iff.mp compiles).1
  have other := (compile_eq_ok_iff.mp also).1
  simp only [Model.checkedSignature, Model.signature, bind_eq_ok_iff, pure_eq_ok_iff] at one other
  obtain ⟨_, _, inputs, read, _, _, signature⟩ := one
  obtain ⟨_, _, otherInputs, otherRead, _, _, otherSignature⟩ := other
  rw [← signature, ← otherSignature]
  exact Except.ok.inj (otherRead.symm.trans read)

/-- Two compilations of a model for the same outputs run alike, whatever their options are, as long as
no sum meets a group of negative zeros and nothing else. -/
theorem alike_of_compile (reachable : model.Reachable)
    (kinds : ∀ entry ∈ model.entries, entry.node.operator.kind?.isSome)
    (compiles : (model.compile options requests).result = .ok first)
    (also : (model.compile others requests).result = .ok second) {inputs : List Buffer}
    (fits : Matches inputs (first.signature.inputs.map Prod.snd)) :
    ∃ loaded, model.setInputs ((first.signature.inputs.map Prod.fst).zip inputs) = .ok loaded ∧
      (loaded.compute.model.Unambiguous →
        ∀ host : Host, (first.compute inputs host).Alike (second.compute inputs host)) := by
  have standard : model.Standard :=
    fun entry mem => (reachable.sound.made entry mem).standard (kinds entry mem)
  have signatures := inputs_eq_of_compile compiles also
  obtain ⟨loaded, expected, set, computed, _, follows⟩ :=
    follows_of_unambiguous reachable.sound standard compiles fits
  obtain ⟨twin, twinExpected, twinSet, twinComputed, _, twinFollows⟩ :=
    follows_of_unambiguous reachable.sound standard also (signatures ▸ fits)
  rw [signatures] at twinSet
  obtain rfl := Except.ok.inj (set.symm.trans twinSet)
  obtain rfl := Except.ok.inj (computed.symm.trans twinComputed)
  exact ⟨loaded, set, fun unambiguous host =>
    (follows unambiguous host).alike (twinFollows unambiguous host)⟩

/-- A model that adds up nothing but a negative zero. -/
def negated : Model where
  arena := ⟨#[
    some ⟨0, .constant (.f64 #[RealType.f64.negativeZero]), [.f64 #[0]]⟩,
    some ⟨1, .sum .f64 [[⟨0, 0, 0⟩]], [.f64 #[0]]⟩]⟩
  order := [0, 1]
  keys := [(1, 1), (0, 0)]
  nextId := 2

theorem reachable_negated : negated.Reachable := by
  have first : Model.Reachable _ := .add .empty
    (.inl (standard_constant (.f64 #[RealType.f64.negativeZero]))) (rfl : _ = Except.ok (0, _))
  exact first.add (.inl (.sum .f64 [[⟨0, 0, 0⟩]])) (rfl : _ = Except.ok (1, _))

/-- A loop adds the negative zero to zero, and written out it is left as it is. -/
theorem negated_not_alike :
    ∃ looped expanded,
      (negated.compile { unrollThreshold := 0 } [[⟨1, 0, 0⟩]]).result = .ok looped ∧
        (negated.compile { unrollThreshold := 1 } [[⟨1, 0, 0⟩]]).result = .ok expanded ∧
        ¬(looped.compute [] .empty).Alike (expanded.compute [] .empty) := by
  have run : ∀ (options : CompilerOptions) (results : List Buffer),
      ((negated.compile options [[⟨1, 0, 0⟩]]).result.toOption.bind fun compiled =>
        (compiled.compute [] .empty).result.toOption) = some results →
      ∃ compiled, (negated.compile options [[⟨1, 0, 0⟩]]).result = .ok compiled ∧
        (compiled.compute [] .empty).result = .ok results := by
    intro options results ran
    obtain ⟨compiled, compiles, finished⟩ := Option.bind_eq_some_iff.mp ran
    exact ⟨compiled, toOption_eq_some_iff.mp compiles, toOption_eq_some_iff.mp finished⟩
  obtain ⟨looped, compiles, finished⟩ :=
    run { unrollThreshold := 0 } [.ofReals .f64 #[RealType.f64.zero]] (by cbv)
  obtain ⟨expanded, also, alsoFinished⟩ :=
    run { unrollThreshold := 1 } [.ofReals .f64 #[RealType.f64.negativeZero]] (by cbv)
  refine ⟨looped, expanded, compiles, also, fun alike => ?_⟩
  obtain ⟨same, _⟩ :=
    List.forall₂_cons.mp (alike.results_same _ _ finished alsoFinished)
  obtain ⟨zeros, _⟩ := List.forall₂_cons.mp (same_ofReals_iff.mp same)
  exact RealType.f64.zero_not_same_negativeZero zeros

end Options

end Dataflow
