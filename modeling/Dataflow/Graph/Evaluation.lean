import Dataflow.Graph.Node

/-!
# What nodes compute

A standard operator is a function from the values of its input ports to the values
of its output port; an input operator leaves its output as it is.  The rules of a
node that do not fit the values they meet fail, and a failing node keeps what it
had written before.
-/

namespace Dataflow

/-! ## Reading and writing ports -/

/-- The values of an input port. -/
def inputValues (inputs : List Buffer) (port : Nat) : Except NodeError Buffer :=
  match inputs[port]? with
  | some values => .ok values
  | none => .error (.portIndex port)

/-- The values of an input port, which have to be of a type. -/
def typedInput (inputs : List Buffer) (type : ScalarType) (port : Nat) :
    Except NodeError Buffer := do
  let values ← inputValues inputs port
  if values.type = type then return values else throw (.portType "input" type values.type)

/-- The floats of an input port. -/
def realInput (inputs : List Buffer) (type : RealType) (port : Nat) :
    Except NodeError (Array type.Carrier) := do
  let values ← inputValues inputs port
  match values.reals? type with
  | some reals => return reals
  | none => throw (.portType "input" type values.type)

/-- The booleans of an input port. -/
def boolInput (inputs : List Buffer) (port : Nat) : Except NodeError (Array Bool) := do
  let values ← inputValues inputs port
  match values.bools? with
  | some bools => return bools
  | none => throw (.portType "input" .bool values.type)

/-- Replaces the values of an output port by others of the same type and number. -/
def setOutput (outputs : List Buffer) (port : Nat) (values : Buffer) :
    Except NodeError (List Buffer) :=
  match outputs[port]? with
  | none => .error (.portIndex port)
  | some slot =>
      if slot.type ≠ values.type then .error (.portType "output" slot.type values.type)
      else if slot.size ≠ values.size then
        .error (.lengthMismatch "output" slot.size values.size)
      else .ok (outputs.set port values)

/-! ## Standard operators -/

/-- The sum of floats, added from the left to zero. -/
def sumOf (type : RealType) (values : Array type.Carrier) : type.Carrier :=
  values.foldl (· + ·) type.zero

/-- What an operator computes from its inputs.  Nothing is computed for an input
node; custom operators have no value of this kind. -/
def Operator.value (inputs : List Buffer) : Operator → Except NodeError (Option Buffer)
  | .input _ _ => return none
  | .constant values _ => return some values
  | .arithmetic type op _ => do
      let left ← realInput inputs type 0
      let right ← realInput inputs type 1
      return some (.ofReals type (Array.zipWith op.apply left right))
  | .comparison type predicate _ => do
      let left ← realInput inputs type 0
      let right ← realInput inputs type 1
      return some (.bool (Array.zipWith predicate.apply left right))
  | .coordinatewise type op values => do
      let input ← realInput inputs type 0
      return some (.ofReals type (Array.zipWith op.binaryOp.apply values input))
  | .sum type groups => do
      let sums ← (List.range groups).mapM fun group => do
        return sumOf type (← realInput inputs type group)
      return some (.ofReals type sums.toArray)
  | .concatenation type _ => do
      return some (← typedInput inputs type 0)
  | .hamming type _ => do
      let input ← realInput inputs type 0
      let weights := hammingWindow type input.size
      return some (.ofReals type (Array.zipWith (· * ·) input weights))
  | .sink type _ _ _ => do
      let input ← typedInput inputs type 0
      let _ ← boolInput inputs 1
      return some input
  | .custom _ => return none

/-- What a sink hands to its callback: its input, when the trigger is set. -/
def Operator.deliveries (inputs : List Buffer) : Operator → List Notice
  | .sink type name _ true =>
      match inputs with
      | [values, .bool trigger] =>
          if values.type = type ∧ trigger[0]? = some true then [.delivered name values] else []
      | _ => []
  | _ => []

/-! ## Evaluation -/

/-- The outcome of computing a node: its output buffers, what it reported, and
whether it failed. -/
structure Evaluation where
  outputs : List Buffer
  notices : List Notice
  result : Except NodeError Unit

/-- Computes a standard operator. -/
def Operator.evaluateStandard (operator : Operator) (inputs outputs : List Buffer) : Evaluation :=
  let notices := operator.deliveries inputs
  match operator.value inputs with
  | .error error => ⟨outputs, notices, .error error⟩
  | .ok none => ⟨outputs, notices, .ok ()⟩
  | .ok (some values) =>
      match setOutput outputs 0 values with
      | .error error => ⟨outputs, notices, .error error⟩
      | .ok outputs => ⟨outputs, notices, .ok ()⟩

/-- Follows a procedure.  A write that fails leaves the outputs as they are. -/
def Procedure.evaluate : Procedure → List Buffer → Evaluation
  | finish result, outputs => ⟨outputs, [], result⟩
  | write port values next, outputs =>
      match setOutput outputs port values with
      | .ok written => (next (.ok ())).evaluate written
      | .error error => (next (.error error)).evaluate outputs

/-- Takes one step of a custom computation. -/
def ComputeStep.evaluate (step : ComputeStep) (inputs outputs : List Buffer) : Evaluation :=
  let wrote (outcome : Except NodeError (List Buffer)) : Evaluation :=
    match outcome with
    | .ok outputs => ⟨outputs, [], .ok ()⟩
    | .error error => ⟨outputs, [], .error error⟩
  match step with
  | observe port =>
      match inputValues inputs port with
      | .ok values => ⟨outputs, [.observed values], .ok ()⟩
      | .error error => ⟨outputs, [], .error error⟩
  | set port values => wrote (setOutput outputs port values)
  | copy source target type =>
      wrote (do setOutput outputs target (← typedInput inputs type source))
  | perform procedure => (procedure inputs).evaluate outputs

/-- Takes the steps of a custom computation.  The first failure ends it. -/
def evaluateSteps (inputs : List Buffer) : List ComputeStep → List Buffer → Evaluation
  | [], outputs => ⟨outputs, [], .ok ()⟩
  | step :: rest, outputs =>
      let first := step.evaluate inputs outputs
      match first.result with
      | .error _ => first
      | .ok () =>
          let others := evaluateSteps inputs rest first.outputs
          { others with notices := first.notices ++ others.notices }

/-- Computes an operator from the values of its inputs and the output buffers as
they are. -/
def Operator.evaluate (operator : Operator) (inputs outputs : List Buffer) : Evaluation :=
  match operator with
  | .custom scripted => evaluateSteps inputs scripted.behaviour.compute outputs
  | operator => operator.evaluateStandard inputs outputs

end Dataflow
