import Dataflow.Scalar.Precision

/-!
# JSON values

A JSON value keeps the members of an object in the order of the text, repeated
keys included, and tells integers from floats.

A text can be well formed and still denote no value: a number out of range, a
string with half of a surrogate pair, or nesting beyond the depth limit.  Such a
part of a text is `malformed`.  It does no harm where a reader skips it, so it is
kept in the tree and refused only where its value is needed.
-/

namespace Dataflow

/-- A number of a JSON text.  An integer is at least `-2 ^ 63` and below
`2 ^ 64`; any other literal is a float.  Only writers use single precision. -/
inductive Json.Number
  | integer (value : Int)
  | double (value : Float)
  | single (value : Float32)
  deriving DecidableEq, Repr, Inhabited

/-- A JSON value. -/
inductive Json
  | null
  | bool (value : Bool)
  | number (value : Json.Number)
  | string (value : String)
  | array (items : List Json)
  | object (members : List (String × Json))
  | malformed
  deriving Repr, Inhabited

namespace Json

/-- A natural number as a JSON integer. -/
def nat (value : Nat) : Json :=
  .number (.integer value)

/-- Associates a value with a key.  A key that is there already keeps its place. -/
def insertMember (members : List (String × Json)) (key : String) (value : Json) :
    List (String × Json) :=
  match members with
  | [] => [(key, value)]
  | (other, old) :: rest =>
      if other = key then (key, value) :: rest
      else (other, old) :: insertMember rest key value

/-- The value of a key. -/
def lookup? (members : List (String × Json)) (key : String) : Option Json :=
  (members.find? (·.1 = key)).map (·.2)

mutual

/-- The value that a tree denotes: nothing in it is malformed, and a repeated key
keeps its first place and its last value. -/
def denoted? : Json → Option Json
  | null => some null
  | bool value => some (bool value)
  | number value => some (number value)
  | string value => some (string value)
  | array items => (denotedItems? items).map array
  | object members => (denotedMembers? members []).map object
  | malformed => none

/-- The values that the items of an array denote. -/
def denotedItems? : List Json → Option (List Json)
  | [] => some []
  | item :: rest => do
      let value ← denoted? item
      let values ← denotedItems? rest
      pure (value :: values)

/-- The members that an object denotes, added to those before. -/
def denotedMembers? : List (String × Json) → List (String × Json) →
    Option (List (String × Json))
  | [], before => some before
  | (key, item) :: rest, before => do
      let value ← denoted? item
      denotedMembers? rest (insertMember before key value)

end

end Json

end Dataflow
