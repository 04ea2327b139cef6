import Dataflow.Decimal.Shortest

/-!
# Float texts

A float is written with its shortest digits.  Where the point goes and how an
exponent looks is a `Style`; the library writes floats in two styles, one for
JSON texts and one for listings of compiled code.
-/

namespace Dataflow.Decimal

open Float.Model (Format UnpackedFloat)
open Float.Model.UnpackedFloat (Sign)

/-- How the digits of a float are laid out.  `positionalFrom` and `positionalTo`
bound the exponent of the leading digit for which no exponent is written. -/
structure Style where
  positionalFrom : Int
  positionalTo : Int
  /-- Whether a positive exponent carries a plus sign. -/
  plusSign : Bool
  /-- Where a float halfway between two shortest decimals goes. -/
  tie : Tie
  deriving Repr

/-- Doubles in JSON: `0.00001` to `1000000000000000.0` have no exponent, which
is otherwise written with its sign. -/
def Style.jsonDouble : Style := ⟨-5, 15, true, .toEven⟩

/-- Single precision floats in JSON. -/
def Style.jsonSingle : Style := ⟨-6, 12, true, .toEven⟩

/-- Floats of either precision in listings: `0.0001` up to, but not including,
`1e16` have no exponent. -/
def Style.listing : Style := ⟨-4, 15, false, .up⟩

/-- An exponent with its sign. -/
def Style.exponentText (style : Style) (exponent : Int) : String :=
  if exponent < 0 then s!"-{exponent.natAbs}"
  else if style.plusSign then s!"+{exponent.natAbs}"
  else toString exponent.natAbs

/-- The text of a positive decimal.  It has digits on both sides of a point, or
an exponent. -/
def Style.render (style : Style) (decimal : Number) : String :=
  let digits := Nat.toDigits 10 decimal.digits
  let leading := decimal.exponent + (digits.length - 1 : Nat)
  if style.positionalFrom ≤ leading ∧ leading ≤ style.positionalTo then
    if leading < 0 then
      let zeros := List.replicate (-leading - 1).toNat '0'
      String.ofList ('0' :: '.' :: zeros ++ digits)
    else if 0 ≤ decimal.exponent then
      let zeros := List.replicate decimal.exponent.toNat '0'
      String.ofList (digits ++ zeros ++ ['.', '0'])
    else
      let whole := (leading + 1).toNat
      String.ofList (digits.take whole ++ '.' :: digits.drop whole)
  else
    let significand :=
      match digits with
      | [] => []
      | [digit] => [digit]
      | digit :: rest => digit :: '.' :: rest
    String.ofList significand ++ "e" ++ style.exponentText leading

/-- The text of a number of the given format that is neither infinite nor
undefined; these two have the texts that listings show. -/
def Style.unpackedText (style : Style) (format : Format) : UnpackedFloat → String
  | .notANumber => "NaN"
  | .infinity .positive => "inf"
  | .infinity .negative => "-inf"
  | .zero .positive => "0.0"
  | .zero .negative => "-0.0"
  | .finite .positive mantissa exponent _ =>
      style.render (shortest style.tie format mantissa exponent)
  | .finite .negative mantissa exponent _ =>
      "-" ++ style.render (shortest style.tie format mantissa exponent)

/-- The text of a double. -/
def Style.doubleText (style : Style) (value : Float) : String :=
  style.unpackedText .binary64 value.toModel.unpack

/-- The text of a single precision float. -/
def Style.singleText (style : Style) (value : Float32) : String :=
  style.unpackedText .binary32 value.toModel.unpack

end Dataflow.Decimal
