import Dataflow.Native.Memory
import Dataflow.Proofs.Scalar.Sameness

/-!
# Buffers in native memory

The region of a buffer holds the words of its elements.  As long as the buffer has less than 2^31
bytes, native code that goes by the addresses of elements reads and writes these elements.
-/

namespace Dataflow

theorem ScalarType.byteSize_pos (type : ScalarType) : 0 < type.byteSize := by
  cases type <;> decide

/-- The bytes of a buffer can be told apart by distances of 32 bits with a sign. -/
def Buffer.Small (buffer : Buffer) : Prop :=
  buffer.size * buffer.type.byteSize < 2 ^ 31

theorem Buffer.Small.element {buffer : Buffer} (small : buffer.Small) {index : Nat}
    (below : index ≤ buffer.size) : index * buffer.type.byteSize < 2 ^ 31 :=
  Nat.lt_of_le_of_lt (Nat.mul_le_mul_right _ below) small

namespace Native

/-- Short distances are not changed by the form in which accesses hold them. -/
theorem displacement_eq {bytes : Nat} (small : bytes < 2 ^ 31) :
    displacement bytes = UInt64.ofNat bytes := by
  have wide : (Int32.ofNat bytes).toInt64 = Int64.ofNat bytes := by
    apply Int64.toInt_inj.mp
    rw [Int32.toInt_toInt64, Int32.toInt_ofNat_of_lt small, Int64.toInt_ofNat_of_lt (by omega)]
  rw [displacement, wide]
  rfl

/-! ## Regions -/

namespace Region

theorem getElem?_words (buffer : Buffer) (index : Nat) :
    (ofBuffer buffer).words[index]? = (buffer.get? index).map Word.ofScalar := by
  simp [ofBuffer]

theorem size_words (buffer : Buffer) : (ofBuffer buffer).words.size = buffer.size := by
  simp [ofBuffer]

theorem load_ofBuffer (buffer : Buffer) {index : Nat} (below : index < buffer.size) :
    (ofBuffer buffer).load buffer.type (index * buffer.type.byteSize) =
      .ofScalar (buffer.item index) := by
  have size := buffer.type.byteSize_pos
  have aligned : (ofBuffer buffer).type = buffer.type ∧
      index * buffer.type.byteSize % buffer.type.byteSize = 0 := ⟨rfl, Nat.mul_mod_left _ _⟩
  rw [load, if_pos aligned, Nat.mul_div_cancel _ size, getElem?_words, Buffer.get?_eq_item below]
  rfl

theorem scalarType?_ofScalar (scalar : Scalar) :
    (Word.ofScalar scalar).scalarType? = some scalar.type := by
  cases scalar <;> rfl

theorem store_ofBuffer (buffer : Buffer) {index : Nat} {scalar : Scalar}
    (typed : scalar.type = buffer.type) :
    (ofBuffer buffer).store (index * buffer.type.byteSize) (.ofScalar scalar) =
      ofBuffer (buffer.set index scalar) := by
  have size := buffer.type.byteSize_pos
  have aligned : (ofBuffer buffer).type = buffer.type ∧
      index * buffer.type.byteSize % buffer.type.byteSize = 0 := ⟨rfl, Nat.mul_mod_left _ _⟩
  simp only [store, scalarType?_ofScalar, typed, if_pos aligned, Nat.mul_div_cancel _ size]
  have words : (ofBuffer buffer).words.setIfInBounds index (.ofScalar scalar) =
      (ofBuffer (buffer.set index scalar)).words := by
    refine Array.ext_getElem? fun position => ?_
    rw [Array.getElem?_setIfInBounds, getElem?_words, getElem?_words, Buffer.get?_set, size_words]
    by_cases here : index = position
    · subst here
      by_cases below : index < buffer.size
      · simp [Buffer.accepts, typed, below]
      · simp [Buffer.accepts, below, Buffer.get?_eq_none_iff.mpr (Nat.not_lt.mp below)]
    · simp [here, Ne.symm here]
  rw [words]
  simp [ofBuffer]

end Region

/-! ## Pointers -/

/-- The pointer to an element of a region. -/
def Pointer.element (slot : Nat) (type : ScalarType) (index : Nat) : Pointer :=
  ⟨slot, UInt64.ofNat (index * type.byteSize)⟩

theorem Pointer.advance_element (slot : Nat) (type : ScalarType) (index count : Nat) :
    (element slot type index).advance (UInt64.ofNat (count * type.byteSize)) =
      element slot type (index + count) := by
  simp only [element, advance, Nat.add_mul, UInt64.ofNat_add]

/-! ## Memory -/

/-- The memory that holds buffers. -/
def memoryOf (heap : Array Buffer) : Memory :=
  heap.map Region.ofBuffer

section Memory

variable {heap : Array Buffer} {slot index : Nat} {buffer : Buffer}

theorem Pointer.toNat_offset_element (slot : Nat) (small : buffer.Small)
    (below : index ≤ buffer.size) :
    (element slot buffer.type index).offset.toNat = index * buffer.type.byteSize := by
  have bound := small.element below
  exact UInt64.toNat_ofNat_of_lt' (Nat.lt_trans bound (by decide))

theorem load_memoryOf (stored : heap[slot]? = some buffer) (small : buffer.Small)
    (below : index < buffer.size) :
    (memoryOf heap).load buffer.type (some (.element slot buffer.type index)) =
      .ofScalar (buffer.item index) := by
  have region : (memoryOf heap)[slot]? = some (Region.ofBuffer buffer) := by
    simp [memoryOf, stored]
  have distance := Pointer.toNat_offset_element slot small (Nat.le_of_lt below)
  rw [Memory.load, Option.bind_some]
  simp only [Pointer.element] at distance ⊢
  simp only [region, Option.map_some, distance]
  exact Region.load_ofBuffer buffer below

theorem store_memoryOf {scalar : Scalar} (stored : heap[slot]? = some buffer) (small : buffer.Small)
    (below : index < buffer.size) (typed : scalar.type = buffer.type) :
    (memoryOf heap).store (some (.element slot buffer.type index)) (.ofScalar scalar) =
      memoryOf (heap.modify slot (·.set index scalar)) := by
  have distance := Pointer.toNat_offset_element slot small (Nat.le_of_lt below)
  simp only [Memory.store, Pointer.element] at distance ⊢
  refine Array.ext_getElem? fun other => ?_
  simp only [memoryOf, Array.getElem?_modify, Array.getElem?_map, distance]
  split
  · rename_i here
    subst here
    simp only [stored, Option.map_some]
    rw [Region.store_ofBuffer buffer typed]
  · rfl

/-! ## Many elements -/

/-- Elements that are written one after another are there. -/
theorem foldl_set (values : Buffer) (items : Nat → Scalar) {count : Nat}
    (inside : count ≤ values.size) (typed : ∀ index < count, (items index).type = values.type) :
    ((List.range count).foldl (fun (written : Buffer) index => written.set index (items index))
        values).type = values.type ∧
      ((List.range count).foldl (fun (written : Buffer) index => written.set index (items index))
        values).size = values.size ∧
      ∀ index, ((List.range count).foldl
          (fun (written : Buffer) index => written.set index (items index)) values).get? index =
        if index < count then some (items index) else values.get? index := by
  induction count with
  | zero => simp
  | succ count ih =>
      obtain ⟨type, size, elements⟩ :=
        ih (Nat.le_of_succ_le inside) fun index below => typed index (Nat.lt_succ_of_lt below)
      simp only [List.range_succ, List.foldl_append, List.foldl_cons, List.foldl_nil]
      refine ⟨by rw [Buffer.type_set, type], by rw [Buffer.size_set, size], fun index => ?_⟩
      have accepts : Buffer.accepts ((List.range count).foldl
          (fun (written : Buffer) index => written.set index (items index)) values) count
          (items count) = true := by
        simp [Buffer.accepts, type, size, typed count (Nat.lt_succ_self _),
          Nat.lt_of_succ_le inside]
      rw [Buffer.get?_set, elements]
      by_cases here : index = count
      · subst here
        simp [accepts]
      · rw [if_neg fun both => here both.1]
        by_cases below : index < count
        · rw [if_pos below, if_pos (Nat.lt_succ_of_lt below)]
        · rw [if_neg below, if_neg (by omega)]

/-- Reading elements that follow one another gives a part of the buffer. -/
theorem loadMany_memoryOf {start length : Nat} {part : Buffer} (stored : heap[slot]? = some buffer)
    (small : buffer.Small) (inside : start + length ≤ buffer.size) (typed : part.type = buffer.type)
    (size : part.size = length)
    (elements : ∀ index < length, part.get? index = buffer.get? (start + index)) :
    (memoryOf heap).loadMany buffer.type (some (.element slot buffer.type start)) length = part := by
  have loaded : ∀ index ∈ List.range length,
      ((memoryOf heap).load buffer.type ((some (Pointer.element slot buffer.type start)).map
        (·.advance (UInt64.ofNat (index * buffer.type.byteSize))))).toScalar? =
        some (buffer.item (start + index)) := by
    intro index mem
    have below : start + index < buffer.size := by
      have := List.mem_range.mp mem
      omega
    rw [Option.map_some, Pointer.advance_element, load_memoryOf stored small below,
      Word.toScalar?_ofScalar]
  obtain ⟨foldType, foldSize, foldElements⟩ := foldl_set (.zeros buffer.type length)
    (fun index => buffer.item (start + index)) (Nat.le_of_eq (Buffer.size_zeros _ _).symm)
    (fun index below => by
      rw [Buffer.type_zeros]
      exact Buffer.type_item (by omega))
  have same : (memoryOf heap).loadMany buffer.type (some (.element slot buffer.type start)) length =
      (List.range length).foldl
        (fun (written : Buffer) index => written.set index (buffer.item (start + index)))
        (.zeros buffer.type length) := by
    rw [Memory.loadMany]
    refine List.foldl_ext _ _ _ fun written index mem => ?_
    simp only [loaded index mem]
  rw [same]
  refine Buffer.ext_get? (by rw [foldType, Buffer.type_zeros, typed]) fun index => ?_
  rw [foldElements]
  by_cases below : index < length
  · rw [if_pos below, elements index below, Buffer.get?_eq_item (by omega)]
  · rw [if_neg below, Buffer.get?_eq_none_iff.mpr (by simpa using Nat.not_lt.mp below),
      Buffer.get?_eq_none_iff.mpr (size ▸ Nat.not_lt.mp below)]

/-- The buffers of a memory are those that it was made from. -/
theorem buffers_memoryOf (small : ∀ buffer ∈ heap, buffer.Small) :
    (memoryOf heap).buffers = heap.toList := by
  refine List.ext_getElem? fun slot => ?_
  rw [Memory.buffers, List.getElem?_mapIdx, Array.getElem?_toList, Array.getElem?_toList, memoryOf,
    Array.getElem?_map]
  cases stored : heap[slot]? with
  | none => rfl
  | some buffer =>
      simp only [Option.map_some, Region.size_words]
      have start : (⟨slot, 0⟩ : Pointer) = .element slot buffer.type 0 := by
        simp [Pointer.element]
      have whole := loadMany_memoryOf stored (small buffer (Array.mem_of_getElem? stored))
        (Nat.le_of_eq (Nat.zero_add buffer.size)) rfl rfl
        (fun index _ => by rw [Nat.zero_add])
      rw [start]
      exact congrArg some whole

end Memory

end Native

end Dataflow
