import Dataflow.Scalar.Precision

/-!
# Bits of floats as text

The digits of a decimal hide the sign of zero and the last bit; the bits of a float
in hexadecimal hide nothing.  All undefined floats are written as one text, but they
can be read by their bits.
-/

namespace Dataflow

/-- A hexadecimal digit in lower case. -/
def hexDigit (value : Nat) : Char :=
  if value < 10 then Char.ofNat ('0'.toNat + value) else Char.ofNat ('a'.toNat + (value - 10))

/-- The value of a hexadecimal digit in lower case. -/
def hexValue? (char : Char) : Option Nat :=
  if '0' ≤ char ∧ char ≤ '9' then some (char.toNat - '0'.toNat)
  else if 'a' ≤ char ∧ char ≤ 'f' then some (char.toNat - 'a'.toNat + 10)
  else none

/-- The last digits of a number in hexadecimal. -/
def hexDigits (value : Nat) : (count : Nat) → List Char
  | 0 => []
  | count + 1 => hexDigits (value / 16) count ++ [hexDigit (value % 16)]

/-- The number with hexadecimal digits. -/
def ofHexDigits? (digits : List Char) : Option Nat :=
  digits.foldlM (fun value char => return 16 * value + (← hexValue? char)) 0

/-- The text of an undefined float. -/
def undefinedText : String :=
  "nan"

/-- The bits of a double. -/
def doubleBits (double : Double) : String :=
  if double.isNaN then undefinedText else String.ofList (hexDigits double.bits.toNat 16)

/-- The bits of a single precision float. -/
def singleBits (single : Single) : String :=
  if single.isNaN then undefinedText else String.ofList (hexDigits single.bits.toNat 8)

/-- The double with some bits.  The text of the undefined floats stands for the one
that is quiet, without a sign and with no other bits. -/
def doubleOfBits? (text : String) : Option Double :=
  if text = undefinedText then some ⟨0x7ff8000000000000⟩
  else (ofHexDigits? text.toList).map fun bits => ⟨bits.toUInt64⟩

/-- The single precision float with some bits, as for a double. -/
def singleOfBits? (text : String) : Option Single :=
  if text = undefinedText then some ⟨0x7fc00000⟩
  else (ofHexDigits? text.toList).map fun bits => ⟨bits.toUInt32⟩

end Dataflow
