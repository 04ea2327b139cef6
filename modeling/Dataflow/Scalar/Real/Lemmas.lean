import Mathlib
import Dataflow.Scalar.Real

/-!
# Arithmetic on floats by their bits

The bits of undefined floats never matter to values: every float has bits
(`Single.value_ofValue`), and the value of a result is the result on the values
(`Single.value_combine`), in either precision.
-/

namespace Dataflow

open Float.Model (Format)
open Float.Model.UnpackedFloat

/-! ## Undefined floats by their bits -/

/-- Setting further bits keeps an undefined float undefined. -/
theorem isNaNBits_or {format : Format} {bits : BitVec format.numBits}
    (undefined : isNaNBits bits) (others : BitVec format.numBits) :
    isNaNBits (bits ||| others) := by
  simp only [isNaNBits, decide_eq_true_eq, unpackExponent_def, unpackMantissa_def,
    BitVec.extractLsb'_or, BitVec.neg_one_eq_allOnes] at *
  obtain ⟨exponent, mantissa⟩ := undefined
  rw [exponent, BitVec.allOnes_or]
  exact ⟨rfl, fun zero => mantissa (BitVec.or_eq_zero_iff.mp zero).1⟩

/-- Bits unpack to the undefined float exactly where they say so. -/
theorem pack_unpack_eq_packedNaN_iff {format : Format} {bits : BitVec format.numBits}
    (wide : 2 ≤ format.exponentBits) :
    pack format (unpack format bits) = packedNaN format ↔ isNaNBits bits := by
  rw [pack_unpack bits wide]
  constructor
  · intro packed
    by_contra defined
    rw [if_neg defined] at packed
    exact defined (packed ▸ isNaNBits_packedNaN)
  · intro undefined
    rw [if_pos undefined]

namespace Single

theorem value_eq_nan_iff {single : Single} :
    single.value = Float32.nan ↔ @isNaNBits Format.binary32 single.bits.toBitVec := by
  rw [← Float32.toBits_inj, ← UInt32.toBitVec_inj]
  exact @pack_unpack_eq_packedNaN_iff Format.binary32 single.bits.toBitVec (by decide)

theorem isNaN_iff {single : Single} : single.isNaN ↔ single.value = Float32.nan := by
  rw [isNaN, Float32.isNaN_eq_decide_eq_nan, decide_eq_true_eq]

theorem value_quiet {single : Single} (undefined : single.isNaN) :
    single.quiet.value = Float32.nan := by
  rw [isNaN_iff, value_eq_nan_iff] at undefined
  exact value_eq_nan_iff.mpr (isNaNBits_or undefined _)

theorem value_invalid : invalid.value = Float32.nan :=
  rfl

@[simp]
theorem value_ofValue (value : Float32) : (ofValue value).value = value :=
  Float32.ofBits_toBits value

/-- The value of a result is the result on the values. -/
@[simp]
theorem value_combine (op : Float32 → Float32 → Float32) (left right : Single) :
    (combine op left right).value = op left.value right.value := by
  by_cases undefined : op left.value right.value = Float32.nan
  · simp only [combine, undefined, Float32.isNaN_eq_decide_eq_nan, decide_true, Bool.not_true,
      Bool.false_eq_true, ↓reduceIte]
    split_ifs with leftUndefined rightUndefined
    · exact value_quiet leftUndefined
    · exact value_quiet rightUndefined
    · exact value_invalid
  · simp [combine, undefined]

end Single

namespace Double

theorem value_eq_nan_iff {double : Double} :
    double.value = Float.nan ↔ @isNaNBits Format.binary64 double.bits.toBitVec := by
  rw [← Float.toBits_inj, ← UInt64.toBitVec_inj]
  exact @pack_unpack_eq_packedNaN_iff Format.binary64 double.bits.toBitVec (by decide)

theorem isNaN_iff {double : Double} : double.isNaN ↔ double.value = Float.nan := by
  rw [isNaN, Float.isNaN_eq_decide_eq_nan, decide_eq_true_eq]

theorem value_quiet {double : Double} (undefined : double.isNaN) :
    double.quiet.value = Float.nan := by
  rw [isNaN_iff, value_eq_nan_iff] at undefined
  exact value_eq_nan_iff.mpr (isNaNBits_or undefined _)

theorem value_invalid : invalid.value = Float.nan :=
  rfl

@[simp]
theorem value_ofValue (value : Float) : (ofValue value).value = value :=
  Float.ofBits_toBits value

/-- The value of a result is the result on the values. -/
@[simp]
theorem value_combine (op : Float → Float → Float) (left right : Double) :
    (combine op left right).value = op left.value right.value := by
  by_cases undefined : op left.value right.value = Float.nan
  · simp only [combine, undefined, Float.isNaN_eq_decide_eq_nan, decide_true, Bool.not_true,
      Bool.false_eq_true, ↓reduceIte]
    split_ifs with leftUndefined rightUndefined
    · exact value_quiet leftUndefined
    · exact value_quiet rightUndefined
    · exact value_invalid
  · simp [combine, undefined]

end Double

end Dataflow
