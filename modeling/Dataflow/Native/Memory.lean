import Dataflow.Native.Word

/-!
# Memory of native code

Native code finds an element by the address of its first byte and takes the bytes
there for whatever type it wants.  The memory is a list of regions, one for each
array, which keep words of the type that the array was made with.  An access whose
type and position are those of an element is an access of that element, and any other
goes through the bytes, least significant first.  Beyond the end of a region bytes
read as zero and are not written.
-/

namespace Dataflow.Native

/-! ## Regions -/

/-- The elements of one array, all words of one type. -/
structure Region where
  type : ScalarType
  words : Array Word
  deriving DecidableEq, Repr, Inhabited

namespace Region

/-- The region with the elements of a buffer. -/
def ofBuffer (buffer : Buffer) : Region :=
  ⟨buffer.type, (buffer.toList.map Word.ofScalar).toArray⟩

/-- A byte of a region. -/
def byte (region : Region) (position : Nat) : Nat :=
  let size := region.type.byteSize
  match region.words[position / size]? with
  | some word => word.toBits / Nat.pow 256 (position % size) % 256
  | none => 0

/-- Overwrites a byte of a region. -/
def setByte (region : Region) (position byte : Nat) : Region :=
  let size := region.type.byteSize
  let weight := Nat.pow 256 (position % size)
  let change (word : Word) : Word :=
    let bits := word.toBits
    .ofBits region.type (bits - bits / weight % 256 * weight + byte * weight)
  { region with words := region.words.modify (position / size) change }

/-- Reads a scalar of a type at a byte of a region. -/
def load (region : Region) (type : ScalarType) (position : Nat) : Word :=
  let size := type.byteSize
  if region.type = type ∧ position % size = 0 then
    (region.words[position / size]?).getD (.ofScalar type.zero)
  else
    .ofBits type <|
      (List.range size).foldr (fun offset bits => region.byte (position + offset) + 256 * bits) 0

/-- Writes a word at a byte of a region.  Indices are never written. -/
def store (region : Region) (position : Nat) (word : Word) : Region :=
  match word.scalarType? with
  | none => region
  | some type =>
      let size := type.byteSize
      if region.type = type ∧ position % size = 0 then
        { region with words := region.words.setIfInBounds (position / size) word }
      else
        (List.range size).foldl
          (fun region offset =>
            region.setByte (position + offset) (word.toBits / Nat.pow 256 offset % 256))
          region

end Region

/-! ## Pointers -/

/-- The place of a byte: the number of a region and the distance from its first
byte.  The distance is a machine word, so it wraps around. -/
structure Pointer where
  slot : Nat
  offset : UInt64
  deriving DecidableEq, Repr, Inhabited

/-- The pointer some bytes further on. -/
def Pointer.advance (pointer : Pointer) (bytes : UInt64) : Pointer :=
  { pointer with offset := pointer.offset + bytes }

/-- Distances that are fixed in the code of an access have 32 bits and a sign. -/
def displacement (bytes : Nat) : UInt64 :=
  (Int32.ofNat bytes).toInt64.toUInt64

/-- Regions by their numbers. -/
abbrev Memory := Array Region

namespace Memory

/-- Reads a scalar of a type.  A pointer that is missing finds zero. -/
def load (memory : Memory) (type : ScalarType) (pointer : Option Pointer) : Word :=
  match pointer.bind fun pointer => (memory[pointer.slot]?).map (·, pointer) with
  | some (region, pointer) => region.load type pointer.offset.toNat
  | none => .ofScalar type.zero

/-- Writes a word.  Where the pointer is missing, nothing changes. -/
def store (memory : Memory) (pointer : Option Pointer) (word : Word) : Memory :=
  match pointer with
  | some pointer => memory.modify pointer.slot (·.store pointer.offset.toNat word)
  | none => memory

/-- Scalars of a type that follow one another. -/
def loadMany (memory : Memory) (type : ScalarType) (pointer : Option Pointer) (length : Nat) :
    Buffer :=
  (List.range length).foldl
    (fun values index =>
      let pointer := pointer.map (·.advance (UInt64.ofNat (index * type.byteSize)))
      match (memory.load type pointer).toScalar? with
      | some value => values.set index value
      | none => values)
    (.zeros type length)

/-- The contents of all regions. -/
def buffers (memory : Memory) : List Buffer :=
  memory.toList.mapIdx fun slot region =>
    memory.loadMany region.type (some ⟨slot, 0⟩) region.words.size

end Memory

end Dataflow.Native
