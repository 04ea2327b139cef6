import Dataflow.Scalar.Operation
import Dataflow.Scalar.Real.Lemmas

/-!
# Values up to undefined floats

Two floats are the same when they have the same bits or are both undefined.  That is
equality of their values, so arithmetic and comparisons cannot tell the same floats
apart.  Scalars and buffers are the same when their types agree and their floats are the
same.
-/

namespace Dataflow

open Float.Model (Format)
open Float.Model.UnpackedFloat

/-! ## Floats -/

namespace Single

/-- Equal bits, or both undefined. -/
def Same (left right : Single) : Prop :=
  left.bits = right.bits ∨ left.isNaN ∧ right.isNaN

instance (left right : Single) : Decidable (left.Same right) :=
  inferInstanceAs (Decidable (_ ∨ _))

/-- The bits of a defined float are those of its value. -/
theorem toBits_value {single : Single} (defined : ¬single.isNaN) :
    single.value.toBits = single.bits := by
  rw [isNaN_iff, value_eq_nan_iff] at defined
  rw [← UInt32.toBitVec_inj]
  exact (@pack_unpack Format.binary32 single.bits.toBitVec (by decide)).trans (if_neg defined)

theorem same_iff {left right : Single} : left.Same right ↔ left.value = right.value := by
  constructor
  · rintro (bits | ⟨leftUndefined, rightUndefined⟩)
    · simp only [value, bits]
    · rw [isNaN_iff.mp leftUndefined, isNaN_iff.mp rightUndefined]
  · intro value
    by_cases undefined : left.isNaN
    · exact .inr ⟨undefined, isNaN_iff.mpr (value.symm.trans (isNaN_iff.mp undefined))⟩
    · have rightDefined : ¬right.isNaN :=
        fun rightUndefined =>
          undefined (isNaN_iff.mpr (value.trans (isNaN_iff.mp rightUndefined)))
      exact .inl (by rw [← toBits_value undefined, value, toBits_value rightDefined])

end Single

namespace Double

/-- Equal bits, or both undefined. -/
def Same (left right : Double) : Prop :=
  left.bits = right.bits ∨ left.isNaN ∧ right.isNaN

instance (left right : Double) : Decidable (left.Same right) :=
  inferInstanceAs (Decidable (_ ∨ _))

/-- The bits of a defined float are those of its value. -/
theorem toBits_value {double : Double} (defined : ¬double.isNaN) :
    double.value.toBits = double.bits := by
  rw [isNaN_iff, value_eq_nan_iff] at defined
  rw [← UInt64.toBitVec_inj]
  exact (@pack_unpack Format.binary64 double.bits.toBitVec (by decide)).trans (if_neg defined)

theorem same_iff {left right : Double} : left.Same right ↔ left.value = right.value := by
  constructor
  · rintro (bits | ⟨leftUndefined, rightUndefined⟩)
    · simp only [value, bits]
    · rw [isNaN_iff.mp leftUndefined, isNaN_iff.mp rightUndefined]
  · intro value
    by_cases undefined : left.isNaN
    · exact .inr ⟨undefined, isNaN_iff.mpr (value.symm.trans (isNaN_iff.mp undefined))⟩
    · have rightDefined : ¬right.isNaN :=
        fun rightUndefined =>
          undefined (isNaN_iff.mpr (value.trans (isNaN_iff.mp rightUndefined)))
      exact .inl (by rw [← toBits_value undefined, value, toBits_value rightDefined])

end Double

/-! ## Arithmetic -/

/-- The same values of a floating point type. -/
def RealType.Same : (type : RealType) → type.Carrier → type.Carrier → Prop
  | .f32 => Single.Same
  | .f64 => Double.Same

instance : (type : RealType) → (left right : type.Carrier) → Decidable (type.Same left right)
  | .f32, left, right => inferInstanceAs (Decidable (Single.Same left right))
  | .f64, left, right => inferInstanceAs (Decidable (Double.Same left right))

namespace RealType

variable {type : RealType} {first second third : type.Carrier}

@[refl]
theorem Same.refl (value : type.Carrier) : type.Same value value := by
  cases type <;> exact .inl rfl

theorem Same.symm (same : type.Same first second) : type.Same second first := by
  cases type
  · exact Single.same_iff.mpr (Single.same_iff.mp same).symm
  · exact Double.same_iff.mpr (Double.same_iff.mp same).symm

theorem Same.trans (same : type.Same first second) (also : type.Same second third) :
    type.Same first third := by
  cases type
  · exact Single.same_iff.mpr ((Single.same_iff.mp same).trans (Single.same_iff.mp also))
  · exact Double.same_iff.mpr ((Double.same_iff.mp same).trans (Double.same_iff.mp also))

end RealType

/-- Arithmetic gives the same results on the same values. -/
theorem BinaryOp.apply_same (op : BinaryOp) {type : RealType}
    {left left' right right' : type.Carrier} (leftSame : type.Same left left')
    (rightSame : type.Same right right') :
    type.Same (op.apply left right) (op.apply left' right') := by
  cases type
  · rw [RealType.Same, Single.same_iff] at *
    cases op <;> simp only [BinaryOp.apply] <;>
      refine (Single.value_combine _ _ _).trans (Eq.trans ?_ (Single.value_combine _ _ _).symm) <;>
      rw [leftSame, rightSame]
  · rw [RealType.Same, Double.same_iff] at *
    cases op <;> simp only [BinaryOp.apply] <;>
      refine (Double.value_combine _ _ _).trans (Eq.trans ?_ (Double.value_combine _ _ _).symm) <;>
      rw [leftSame, rightSame]

/-- Comparisons give equal results on the same values. -/
theorem Predicate.apply_same (predicate : Predicate) {type : RealType}
    {left left' right right' : type.Carrier} (leftSame : type.Same left left')
    (rightSame : type.Same right right') :
    predicate.apply left right = predicate.apply left' right' := by
  cases type
  · rw [RealType.Same, Single.same_iff] at *
    cases predicate <;> simp only [Predicate.apply, bne] <;>
      simp only [BEq.beq, LT.lt, LE.le, leftSame, rightSame]
  · rw [RealType.Same, Double.same_iff] at *
    cases predicate <;> simp only [Predicate.apply, bne] <;>
      simp only [BEq.beq, LT.lt, LE.le, leftSame, rightSame]

/-! ## Scalars and buffers -/

/-- Scalars of one type with the same value. -/
inductive Scalar.Same : Scalar → Scalar → Prop
  | f32 {left right : Single} (same : left.Same right) : Same (.f32 left) (.f32 right)
  | f64 {left right : Double} (same : left.Same right) : Same (.f64 left) (.f64 right)
  | bool (value : Bool) : Same (.bool value) (.bool value)

namespace Scalar

variable {first second third : Scalar}

@[refl]
theorem Same.refl (scalar : Scalar) : scalar.Same scalar := by
  cases scalar with
  | f32 value => exact .f32 (.inl rfl)
  | f64 value => exact .f64 (.inl rfl)
  | bool value => exact .bool value

theorem Same.symm (same : first.Same second) : second.Same first := by
  cases same with
  | f32 same => exact .f32 (Single.same_iff.mpr (Single.same_iff.mp same).symm)
  | f64 same => exact .f64 (Double.same_iff.mpr (Double.same_iff.mp same).symm)
  | bool value => exact .bool value

theorem Same.trans (same : first.Same second) (also : second.Same third) : first.Same third := by
  cases same with
  | f32 same =>
      cases also with
      | f32 also =>
          exact .f32 (Single.same_iff.mpr ((Single.same_iff.mp same).trans (Single.same_iff.mp also)))
  | f64 same =>
      cases also with
      | f64 also =>
          exact .f64 (Double.same_iff.mpr ((Double.same_iff.mp same).trans (Double.same_iff.mp also)))
  | bool value => exact also

theorem Same.type_eq (same : first.Same second) : first.type = second.type := by
  cases same <;> rfl

theorem same_toScalar_iff {type : RealType} {left right : type.Carrier} :
    (type.toScalar left).Same (type.toScalar right) ↔ type.Same left right := by
  cases type
  · exact ⟨fun | .f32 same => same, .f32⟩
  · exact ⟨fun | .f64 same => same, .f64⟩

end Scalar

/-- Buffers of one type with the same elements. -/
def Buffer.Same (left right : Buffer) : Prop :=
  left.type = right.type ∧ List.Forall₂ Scalar.Same left.toList right.toList

namespace Buffer

variable {first second third : Buffer}

@[refl]
theorem Same.refl (buffer : Buffer) : buffer.Same buffer :=
  ⟨rfl, List.forall₂_same.mpr fun scalar _ => Scalar.Same.refl scalar⟩

theorem Same.symm (same : first.Same second) : second.Same first :=
  ⟨same.1.symm, same.2.flip.imp fun _ _ => Scalar.Same.symm⟩

theorem Same.trans (same : first.Same second) (also : second.Same third) : first.Same third := by
  refine ⟨same.1.trans also.1, ?_⟩
  refine List.forall₂_iff_get.mpr ⟨same.2.length_eq.trans also.2.length_eq, ?_⟩
  intro index before after
  have between : index < second.toList.length := same.2.length_eq ▸ before
  exact (same.2.get before between).trans (also.2.get between after)

@[simp]
theorem length_toList (buffer : Buffer) : buffer.toList.length = buffer.size := by
  cases buffer <;> simp [toList, size]

@[simp]
theorem getElem?_toList (buffer : Buffer) (index : Nat) :
    buffer.toList[index]? = buffer.get? index := by
  cases buffer <;> simp [toList, get?]

theorem lt_size_of_get?_eq_some {buffer : Buffer} {index : Nat} {scalar : Scalar}
    (found : buffer.get? index = some scalar) : index < buffer.size := by
  refine Nat.lt_of_not_le fun beyond => ?_
  simp [get?_eq_none_iff.mpr beyond] at found

theorem type_of_mem_toList {buffer : Buffer} {scalar : Scalar} (mem : scalar ∈ buffer.toList) :
    scalar.type = buffer.type := by
  obtain ⟨index, found⟩ := List.mem_iff_getElem?.mp mem
  exact type_of_get?_eq_some ((getElem?_toList buffer index).symm.trans found)

/-- A buffer is known by its type and its elements. -/
theorem ext_toList {left right : Buffer} (type : left.type = right.type)
    (elements : left.toList = right.toList) : left = right := by
  cases left <;> cases right <;> simp_all [Buffer.type, toList] <;>
    exact Array.toList_inj.mp
      ((List.map_injective_iff.mpr fun _ _ equal => by simpa using equal) elements)

theorem ext_get? {left right : Buffer} (type : left.type = right.type)
    (elements : ∀ index, left.get? index = right.get? index) : left = right := by
  refine ext_toList type (List.ext_getElem? fun index => ?_)
  simpa using elements index

theorem Same.size_eq (same : first.Same second) : first.size = second.size := by
  simpa using same.2.length_eq

theorem same_iff_get? :
    first.Same second ↔ first.type = second.type ∧ first.size = second.size ∧
      ∀ index left right, first.get? index = some left → second.get? index = some right →
        left.Same right := by
  rw [Same, List.forall₂_iff_get]
  simp only [length_toList, ← getElem?_toList]
  refine and_congr_right fun _ => and_congr_right fun _ => ?_
  constructor
  · intro pointwise index left right leftFound rightFound
    obtain ⟨leftBound, rfl⟩ := List.getElem?_eq_some_iff.mp leftFound
    obtain ⟨rightBound, rfl⟩ := List.getElem?_eq_some_iff.mp rightFound
    exact pointwise index (by simpa using leftBound) (by simpa using rightBound)
  · intro pointwise index leftBound rightBound
    exact pointwise index _ _ (List.getElem?_eq_getElem _) (List.getElem?_eq_getElem _)

end Buffer

/-! ## Elements of buffers -/

/-- The element of a buffer at a position. -/
def Buffer.item (buffer : Buffer) (index : Nat) : Scalar :=
  (buffer.get? index).getD (.bool false)

theorem Buffer.item_of_get?_eq_some {buffer : Buffer} {index : Nat} {scalar : Scalar}
    (found : buffer.get? index = some scalar) : buffer.item index = scalar := by
  rw [item, found, Option.getD_some]

theorem Buffer.get?_eq_item {buffer : Buffer} {index : Nat} (below : index < buffer.size) :
    buffer.get? index = some (buffer.item index) := by
  cases found : buffer.get? index with
  | none => exact absurd below (Nat.not_lt.mpr (Buffer.get?_eq_none_iff.mp found))
  | some scalar => rw [item_of_get?_eq_some found]

theorem Buffer.type_item {buffer : Buffer} {index : Nat} (below : index < buffer.size) :
    (buffer.item index).type = buffer.type :=
  Buffer.type_of_get?_eq_some (Buffer.get?_eq_item below)

end Dataflow
