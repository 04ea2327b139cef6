import Dataflow.Lowering.Site

/-!
# The code of nodes

Each operator emits its code at a site.  Elementwise operators and sums write their
work out for few elements and loop over many; concatenations and sinks emit no code
for their output, which is an alias of their input.
-/

namespace Dataflow

namespace Site

/-! ## Elementwise work -/

/-- Writes out elementwise work from a position on. -/
def expandElementwise (site : Site) (output : ArrayRef)
    (combine : ValueId → ValueId → Lower ValueId) : (position count : Nat) → Lower Unit
  | _, 0 => pure ()
  | position, count + 1 => do
      let left ← site.inputElement 0 position
      let right ← site.inputElement 1 position
      let result ← combine left right
      Emit.store output (.fixed position) result
      site.expandElementwise output combine (position + 1) count

/-- Combines the elements of two inputs one by one into the output. -/
def elementwise (site : Site) (size : Nat) (combine : ValueId → ValueId → Lower ValueId) :
    Lower Unit := do
  let output ← site.outputArray 0
  match ← site.strategy size with
  | .loop => do
      let left ← site.inputArray 0
      let right ← site.inputArray 1
      Emit.loop 0 size fun index => do
        let leftValue ← Emit.load left (.value index)
        let rightValue ← Emit.load right (.value index)
        let result ← combine leftValue rightValue
        Emit.store output (.value index) result
  | .expanded => site.expandElementwise output combine 0 size

/-! ## Sums -/

/-- Adds the elements of an input from a position on to a total. -/
def expandSum (site : Site) (group : Nat) (total : ValueId) : (position count : Nat) → Lower ValueId
  | _, 0 => pure total
  | position, count + 1 => do
      let element ← site.inputElement group position
      let total ← Emit.binary .add total element
      site.expandSum group total (position + 1) count

/-- The sum of an input that is not empty.  A loop needs the input in one array and
adds to zero; written out, the sum starts with the first element. -/
def sumInput (site : Site) (type : RealType) (group size : Nat) : Lower ValueId := do
  let looped ←
    match ← site.strategy size with
    | .loop => site.inputIsContiguous group
    | .expanded => pure false
  if looped then
    let values ← site.inputArray group
    let accumulator ← Emit.literal type.toScalarType.zero
    Emit.loop 0 size fun index => do
      let element ← Emit.load values (.value index)
      let total ← Emit.binary .add accumulator element
      Emit.assign accumulator total
    pure accumulator
  else
    let first ← site.inputElement group 0
    site.expandSum group first 1 (size - 1)

/-- Stores the sums of inputs from a position on. -/
def sums (site : Site) (type : RealType) (output : ArrayRef) : Nat → List InputPort → Lower Unit
  | _, [] => pure ()
  | group, port :: rest => do
      let total ←
        if port.size = 0 then Emit.literal type.toScalarType.zero
        else site.sumInput type group port.size
      Emit.store output (.fixed group) total
      site.sums type output (group + 1) rest

/-! ## Custom code -/

/-- The action of a step that refers to the ports of a node. -/
def portStep (site : Site) : PortStep → Assemble Lowering Unit
  | .inputArray port result => do
      Assemble.bindName result (.array (← Assemble.onClient (site.inputArray port)))
  | .inputElement port element result => do
      Assemble.bindName result (.value (← Assemble.onClient (site.inputElement port element)))
  | .outputArray port result => do
      Assemble.bindName result (.array (← Assemble.onClient (site.outputArray port)))
  | .bindArray port array => do
      let window ← Assemble.arrayNamed array
      Assemble.onClient (site.bindOutputArray port window)
  | .bindAlias port elements => Assemble.onClient (site.bindOutputAlias port elements)
  | .strategy size => do
      Assemble.note (.strategy (← Assemble.onClient (site.strategy size)))
  | .ask port => do
      let contiguous ← Assemble.onClient (site.inputIsContiguous port)
      let input ← Emit.check (site.inputPort port)
      Assemble.note (.inputPort contiguous input.size)
  | .whereabouts port => do
      let bound ← Assemble.onClient (site.outputIsBound port)
      let routine := (← Emit.builder).name
      Assemble.note
        (.site site.node (site.placement = .inline) routine bound site.options.functionName)
  | .fail typeName => Assemble.onClient (site.uncompilable typeName)

/-- The code of a custom node.  Its names are its own. -/
def assemble (site : Site) (code : List (AssemblyStep PortStep)) : Lower Unit :=
  Emit.within
    (fun lowering => ⟨[], lowering.notices, lowering⟩)
    (fun _ state => { state.client with notices := state.notices })
    (assembleBody site.portStep code)

end Site

/-! ## Operators -/

/-- Emits the code of an operator. -/
def Operator.lower (site : Site) : Operator → Lower Unit
  | .input _ _ => do
      if !(← site.outputIsBound 0) then throw (.unboundPort (site.port 0))
  | .constant values _ => do
      let window ← Emit.declareConstant values
      site.bindOutputArray 0 window
  | .arithmetic _ op size => site.elementwise size (Emit.binary op)
  | .comparison _ predicate size => site.elementwise size (Emit.compare predicate)
  | .sum type _ => do
      let output ← site.outputArray 0
      site.sums type output 0 site.inputs
  | .concatenation _ _ => do
      let input ← Emit.check (site.inputPort 0)
      site.bindOutputAlias 0 input.elements
  | .sink _ name _ _ => do
      let trigger ← site.inputElement 1 0
      let values ← site.inputArray 0
      Emit.branch trigger (Emit.call (.host name) [.array values])
      let input ← Emit.check (site.inputPort 0)
      site.bindOutputAlias 0 input.elements
  | .coordinatewise _ _ _ => site.uncompilable site.typeName
  | .hamming _ _ => site.uncompilable site.typeName
  | .custom operator =>
      match operator.behaviour.code with
      | some code => site.assemble code
      | none => site.uncompilable site.typeName

end Dataflow
