import Dataflow.Decimal.Text
import Dataflow.Json.Basic
import Dataflow.Scalar.Bits

/-!
# Writing JSON

There are two layouts: the compact one has no blanks, the pretty one puts every
item and member on a line of its own and indents by two spaces.  Both write the
same characters for strings and numbers.
-/

namespace Dataflow.Json

open Dataflow.Decimal (Style)

/-- The characters that stand for a character inside a string.  Only quotes,
backslashes and control characters are escaped. -/
def escaped (char : Char) : List Char :=
  match char with
  | '"' => ['\\', '"']
  | '\\' => ['\\', '\\']
  | '\x08' => ['\\', 'b']
  | '\x0c' => ['\\', 'f']
  | '\n' => ['\\', 'n']
  | '\r' => ['\\', 'r']
  | '\t' => ['\\', 't']
  | char =>
      if char.toNat < 0x20 then
        ['\\', 'u', '0', '0', hexDigit (char.toNat / 16), hexDigit (char.toNat % 16)]
      else
        [char]

/-- A string between quotes. -/
def quoted (text : String) : String :=
  String.ofList ('"' :: text.toList.flatMap escaped ++ ['"'])

/-- The text of a number.  Infinities and undefined numbers have no text of their
own and are written as null. -/
def Number.text : Number → String
  | integer value => toString value
  | double value =>
      if value.isFinite then Style.jsonDouble.doubleText value else "null"
  | single value =>
      if value.isFinite then Style.jsonSingle.singleText value else "null"

mutual

/-- The compact text. -/
def compact : Json → String
  | null => "null"
  | bool value => if value then "true" else "false"
  | number value => value.text
  | string value => quoted value
  | array items => "[" ++ ",".intercalate (compactItems items) ++ "]"
  | object members => "\x7b" ++ ",".intercalate (compactMembers members) ++ "\x7d"
  | malformed => "null"

/-- The compact texts of the items of an array. -/
def compactItems : List Json → List String
  | [] => []
  | item :: rest => compact item :: compactItems rest

/-- The compact texts of the members of an object. -/
def compactMembers : List (String × Json) → List String
  | [] => []
  | (key, value) :: rest => (quoted key ++ ":" ++ compact value) :: compactMembers rest

end

/-- A line break and the indentation of a nesting depth. -/
def lineBreak (depth : Nat) : String :=
  String.ofList ('\n' :: List.replicate (2 * depth) ' ')

/-- Lays out the parts of an array or object at a depth.  Without parts the
brackets touch. -/
def block (opening closing : String) (depth : Nat) (parts : List String) : String :=
  if parts.isEmpty then
    opening ++ closing
  else
    opening ++ lineBreak (depth + 1) ++ ("," ++ lineBreak (depth + 1)).intercalate parts ++
      lineBreak depth ++ closing

mutual

/-- The pretty text at a nesting depth. -/
def prettyAt (depth : Nat) : Json → String
  | array items => block "[" "]" depth (prettyItems (depth + 1) items)
  | object members => block "\x7b" "\x7d" depth (prettyMembers (depth + 1) members)
  | null => "null"
  | bool value => if value then "true" else "false"
  | number value => value.text
  | string value => quoted value
  | malformed => "null"

/-- The pretty texts of the items of an array. -/
def prettyItems (depth : Nat) : List Json → List String
  | [] => []
  | item :: rest => prettyAt depth item :: prettyItems depth rest

/-- The pretty texts of the members of an object. -/
def prettyMembers (depth : Nat) : List (String × Json) → List String
  | [] => []
  | (key, value) :: rest =>
      (quoted key ++ ": " ++ prettyAt depth value) :: prettyMembers depth rest

end

/-- The pretty text. -/
def pretty (value : Json) : String :=
  prettyAt 0 value

end Dataflow.Json
