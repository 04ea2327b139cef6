/-!
# Floats by their bits

A port carries floats bit by bit.  Numbers, zeros and infinities are the floats of the
standard, but undefined floats come with many bits, and these are carried along: an
undefined result has the bits of the first undefined operand with the quiet bit set,
and one that comes from defined operands is the quiet undefined float with a sign.
-/

namespace Dataflow

/-- A single precision float. -/
structure Single where
  bits : UInt32
  deriving DecidableEq, Repr, Inhabited

namespace Single

/-- The float, whose bits no longer count if it is undefined. -/
def value (single : Single) : Float32 :=
  Float32.ofBits single.bits

/-- A float with its own bits. -/
def ofValue (value : Float32) : Single :=
  ⟨value.toBits⟩

def isNaN (single : Single) : Bool :=
  single.value.isNaN

/-- An undefined float made quiet. -/
def quiet (single : Single) : Single :=
  ⟨single.bits ||| 0x400000⟩

/-- What an operation on defined floats gives where it is undefined. -/
def invalid : Single :=
  ⟨0xffc00000⟩

/-- An operation that carries the bits of undefined floats along. -/
def combine (op : Float32 → Float32 → Float32) (left right : Single) : Single :=
  let result := op left.value right.value
  if !result.isNaN then ofValue result
  else if left.isNaN then left.quiet
  else if right.isNaN then right.quiet
  else invalid

instance : OfNat Single 0 := ⟨⟨0⟩⟩
instance : OfNat Single 1 := ⟨⟨0x3f800000⟩⟩

instance : Add Single := ⟨combine (· + ·)⟩
instance : Sub Single := ⟨combine (· - ·)⟩
instance : Mul Single := ⟨combine (· * ·)⟩
instance : Div Single := ⟨combine (· / ·)⟩

instance : BEq Single := ⟨fun left right => left.value == right.value⟩
instance : LT Single := ⟨fun left right => left.value < right.value⟩
instance : LE Single := ⟨fun left right => left.value ≤ right.value⟩

instance : DecidableLT Single := fun left right =>
  inferInstanceAs (Decidable (left.value < right.value))

instance : DecidableLE Single := fun left right =>
  inferInstanceAs (Decidable (left.value ≤ right.value))

end Single

/-- A double precision float. -/
structure Double where
  bits : UInt64
  deriving DecidableEq, Repr, Inhabited

namespace Double

/-- The float, whose bits no longer count if it is undefined. -/
def value (double : Double) : Float :=
  Float.ofBits double.bits

/-- A float with its own bits. -/
def ofValue (value : Float) : Double :=
  ⟨value.toBits⟩

def isNaN (double : Double) : Bool :=
  double.value.isNaN

/-- An undefined float made quiet. -/
def quiet (double : Double) : Double :=
  ⟨double.bits ||| 0x8000000000000⟩

/-- What an operation on defined floats gives where it is undefined. -/
def invalid : Double :=
  ⟨0xfff8000000000000⟩

/-- An operation that carries the bits of undefined floats along. -/
def combine (op : Float → Float → Float) (left right : Double) : Double :=
  let result := op left.value right.value
  if !result.isNaN then ofValue result
  else if left.isNaN then left.quiet
  else if right.isNaN then right.quiet
  else invalid

instance : OfNat Double 0 := ⟨⟨0⟩⟩
instance : OfNat Double 1 := ⟨⟨0x3ff0000000000000⟩⟩

instance : Add Double := ⟨combine (· + ·)⟩
instance : Sub Double := ⟨combine (· - ·)⟩
instance : Mul Double := ⟨combine (· * ·)⟩
instance : Div Double := ⟨combine (· / ·)⟩

instance : BEq Double := ⟨fun left right => left.value == right.value⟩
instance : LT Double := ⟨fun left right => left.value < right.value⟩
instance : LE Double := ⟨fun left right => left.value ≤ right.value⟩

instance : DecidableLT Double := fun left right =>
  inferInstanceAs (Decidable (left.value < right.value))

instance : DecidableLE Double := fun left right =>
  inferInstanceAs (Decidable (left.value ≤ right.value))

end Double

end Dataflow
