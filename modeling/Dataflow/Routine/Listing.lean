import Dataflow.Decimal.Text
import Dataflow.Routine.Basic

/-!
# Listings

The text of a program.  Variables are written `%n`, arrays `@n`, and nested bodies
are indented by four spaces.
-/

namespace Dataflow

open Dataflow.Decimal (Style)

/-- The name of a value type in messages. -/
def ValueType.text : ValueType → String
  | scalar .f32 => "F32"
  | scalar .f64 => "F64"
  | scalar .bool => "Bool"
  | index => "Index"

/-- A literal.  Single precision floats and indices carry a suffix. -/
def Literal.text : Literal → String
  | scalar (.f32 value) => Style.listing.singleText value.value ++ "f32"
  | scalar (.f64 value) => Style.listing.doubleText value.value
  | scalar (.bool value) => if value then "true" else "false"
  | index value => s!"{value}i"

/-- A variable. -/
def valueText (value : ValueId) : String :=
  s!"%{value}"

/-- A position in an array. -/
def Position.text : Position → String
  | fixed position => toString position
  | indexed value offset => if offset = 0 then valueText value else s!"%{value} + {offset}"

/-- The right side of an assignment. -/
def Expression.text : Expression → String
  | literal value => value.text
  | copy source => valueText source
  | load array position => s!"@{array}[" ++ position.text ++ "]"
  | binary op left right => op.name ++ s!" %{left}, %{right}"
  | compare predicate left right => "cmp." ++ predicate.name ++ s!" %{left}, %{right}"

/-- The callee of a call. -/
def Callee.text : Callee → String
  | routine name => name
  | host name => "extern " ++ name

/-- An argument of a call. -/
def Argument.text : Argument → String
  | value source => valueText source
  | window array offset length => s!"@{array}[{offset}..{offset + length}]"

/-- A line at a nesting depth. -/
def line (depth : Nat) (content : String) : String :=
  String.ofList (List.replicate (4 * depth) ' ') ++ content ++ "\n"

mutual

/-- The lines of an instruction at a nesting depth. -/
def Instruction.listing (depth : Nat) : Instruction → String
  | .assign target expression => line depth (valueText target ++ " = " ++ expression.text)
  | .store array position value =>
      line depth (s!"@{array}[" ++ position.text ++ "] = " ++ valueText value)
  | .loop counter start stop body =>
      line depth (s!"for %{counter} in {start}..{stop} " ++ "\x7b") ++
        bodyListing (depth + 1) body ++ line depth "\x7d"
  | .branch condition body =>
      line depth (s!"if %{condition} " ++ "\x7b") ++ bodyListing (depth + 1) body ++
        line depth "\x7d"
  | .call callee arguments =>
      line depth ("call " ++ callee.text ++ "(" ++
        ", ".intercalate (arguments.map Argument.text) ++ ")")

/-- The lines of a body at a nesting depth. -/
def bodyListing (depth : Nat) : List Instruction → String
  | [] => ""
  | instruction :: rest => instruction.listing depth ++ bodyListing depth rest

end

/-- The type of an array. -/
def arrayTypeText (type : ScalarType) (length : Nat) : String :=
  "[" ++ type.name ++ s!"; {length}]"

/-- The line that declares an array.  Parameters stand in the head of the
routine. -/
def ArrayDeclaration.listing (id : ArrayId) : ArrayDeclaration → String
  | parameter _ _ => ""
  | scratch type length => line 1 (s!"let @{id}: " ++ arrayTypeText type length)
  | constant values => line 1 (s!"const @{id}: " ++ arrayTypeText values.type values.size)

/-- The listing of a routine. -/
def Routine.listing (routine : Routine) : String :=
  let parameters := routine.parameters.map fun parameter =>
    parameter.name ++ ": " ++ arrayTypeText parameter.type parameter.length
  let arrays := routine.arrays.toList.mapIdx fun id declaration => declaration.listing id
  line 0 ("fn " ++ routine.name ++ "(" ++ ", ".intercalate parameters ++ ") \x7b") ++
    String.join arrays ++ bodyListing 1 routine.body ++ line 0 "\x7d"

/-- The listing of a program.  An empty line follows each routine. -/
def Program.listing (program : Program) : String :=
  String.join (program.routines.map fun routine => routine.listing ++ "\n")

end Dataflow
