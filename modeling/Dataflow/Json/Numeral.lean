import Dataflow.Decimal.Scaled
import Dataflow.Json.Basic

/-!
# Number literals

The grammar of JSON numbers and the value of a literal.  A literal without point
and exponent is an integer as long as it fits into 64 bits, signed when it is
negative; every other literal is a double.
-/

namespace Dataflow.Json

open Dataflow.Decimal (Scaled)

/-- A number literal, taken apart. -/
structure Numeral where
  negative : Bool
  whole : List Nat
  fraction : Option (List Nat)
  exponent : Option Int
  deriving DecidableEq, Repr

/-- The value of a decimal digit. -/
def digitValue (digit : Char) : Nat :=
  digit.toNat - '0'.toNat

/-- Splits off the leading decimal digits. -/
def spanDigits (text : List Char) : List Nat × List Char :=
  ((text.takeWhile Char.isDigit).map digitValue, text.dropWhile Char.isDigit)

/-- The number that a digit sequence stands for. -/
def ofDigits (digits : List Nat) : Nat :=
  digits.foldl (fun total digit => total * 10 + digit) 0

/-- Reads the part of a literal from its exponent mark on. -/
def readExponent? : List Char → Option (Option Int)
  | [] => some none
  | mark :: rest =>
      if mark = 'e' ∨ mark = 'E' then
        let (negative, rest) :=
          match rest with
          | '-' :: rest => (true, rest)
          | '+' :: rest => (false, rest)
          | rest => (false, rest)
        match spanDigits rest with
        | ([], _) => none
        | (digits, []) =>
            let magnitude : Int := ofDigits digits
            some (some (if negative then -magnitude else magnitude))
        | _ => none
      else
        none

/-- Reads the part of a literal from its point on. -/
def readFraction? : List Char → Option (Option (List Nat) × Option Int)
  | '.' :: rest =>
      match spanDigits rest with
      | ([], _) => none
      | (digits, rest) => (readExponent? rest).map ((some digits, ·))
  | rest => (readExponent? rest).map ((none, ·))

/-- Reads a literal.  Leading zeros are refused. -/
def Numeral.read? (text : List Char) : Option Numeral :=
  let (negative, text) :=
    match text with
    | '-' :: rest => (true, rest)
    | text => (false, text)
  match spanDigits text with
  | ([], _) => none
  | (0 :: _ :: _, _) => none
  | (whole, rest) =>
      (readFraction? rest).map fun (fraction, exponent) => ⟨negative, whole, fraction, exponent⟩

/-- The double of a literal, or nothing when it is out of range. -/
def Numeral.double? (numeral : Numeral) : Option Float :=
  let scaled :=
    Scaled.ofDigits numeral.whole (numeral.fraction.getD []) (numeral.exponent.getD 0)
  scaled.toDouble?.map fun value => if numeral.negative then -value else value

/-- The integer of a literal, or nothing when it has to be a double.  A negative
zero is a double. -/
def Numeral.integer? (numeral : Numeral) : Option Int :=
  match numeral.fraction, numeral.exponent with
  | none, none =>
      let magnitude := ofDigits numeral.whole
      if numeral.negative then
        if 0 < magnitude ∧ magnitude ≤ Nat.pow 2 63 then some (-magnitude) else none
      else
        if magnitude < Nat.pow 2 64 then some magnitude else none
  | _, _ => none

/-- The value of a literal. -/
def Numeral.value? (numeral : Numeral) : Option Json.Number :=
  match numeral.integer? with
  | some value => some (.integer value)
  | none => numeral.double?.map .double

end Dataflow.Json
