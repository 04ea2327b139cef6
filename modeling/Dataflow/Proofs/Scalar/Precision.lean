import Mathlib
import Dataflow.Scalar.Precision
import Dataflow.Scalar.Real.Lemmas

/-!
# Precision

Widening loses nothing: narrowing what was widened gives the float back.  An unpacked float is in
canonical form for a format when its exponent is the one that rounding aims at.  Rounding moves
bits between significand and exponent until it is, and no bit is lost on the way to the wider
format and back.
-/

namespace Dataflow

open Float.Model (Format UnpackedFloat totalExponent)
open Float.Model.UnpackedFloat

section Rounding

variable {format : Format} {sign : Sign} {mantissa : Nat} {exponent : Int}

/-! ## Moving bits -/

theorem log2_shiftLeft (positive : 0 < mantissa) (shift : Nat) :
    (mantissa <<< shift).log2 = mantissa.log2 + shift := by
  have bounds := (Nat.log2_eq_iff (Nat.ne_of_gt positive)).mp rfl
  rw [Nat.shiftLeft_eq]
  apply (Nat.log2_eq_iff (Nat.ne_of_gt (by positivity))).mpr
  constructor
  · rw [pow_add]
    exact Nat.mul_le_mul_right _ bounds.1
  · rw [Nat.add_right_comm, pow_add]
    exact Nat.mul_lt_mul_of_pos_right bounds.2 (by positivity)

/-- Moving bits from the exponent to the significand keeps the place of the first bit. -/
theorem totalExponent_shiftLeft (positive : 0 < mantissa) (exponent : Int) (shift : Nat) :
    totalExponent (mantissa <<< shift) (exponent - shift) = totalExponent mantissa exponent := by
  simp only [totalExponent, log2_shiftLeft positive]
  omega

/-- Zeros at the end of a significand are shifted out without a trace.  The induction is on the
number of zeros that go; `kept` of them stay. -/
theorem extended_shiftRight (mantissa kept shift : Nat) :
    (⟨mantissa <<< (kept + shift), false, false⟩ : ExtendedMantissa) >>> shift =
      ⟨mantissa <<< kept, false, false⟩ := by
  induction shift generalizing kept with
  | zero => rfl
  | succ shift ih =>
      have last : (⟨mantissa <<< (kept + 1), false, false⟩ : ExtendedMantissa).shiftRightOne =
          ⟨mantissa <<< kept, false, false⟩ := by
        simp [ExtendedMantissa.shiftRightOne, Nat.shiftLeft_succ]
      have others := ih (kept + 1)
      rw [Nat.add_right_comm, Nat.add_assoc] at others
      change ((⟨_, false, false⟩ : ExtendedMantissa) >>> shift).shiftRightOne = _
      rw [others, last]

/-! ## Canonical form -/

/-- The exponent is the one that rounding aims at. -/
def Canonical (format : Format) (mantissa : Nat) (exponent : Int) : Prop :=
  format.targetExponent (totalExponent mantissa exponent) = exponent

/-- Significand and exponent of a float in canonical form stay as they are. -/
theorem Canonical.shiftToTargetExponent (canonical : Canonical format mantissa exponent) :
    shiftToTargetExponent format mantissa exponent .exact =
      (⟨mantissa, false, false⟩, exponent) := by
  unfold UnpackedFloat.shiftToTargetExponent
  rw [canonical]
  simp only [shiftToExponent, Int.sub_self, Int.toNat_zero, Nat.cast_zero, Int.add_zero]
  rfl

/-- Rounding undoes a shift of a float in canonical form. -/
theorem Canonical.roundWithAccuracy (canonical : Canonical format mantissa exponent)
    (positive : 0 < mantissa) (sign : Sign) (shift : Nat) :
    roundWithAccuracy format sign (mantissa <<< shift) (exponent - shift) .exact =
      .finite sign mantissa exponent positive := by
  have first : UnpackedFloat.shiftToTargetExponent format (mantissa <<< shift) (exponent - shift)
      .exact = (⟨mantissa, false, false⟩, exponent) := by
    unfold UnpackedFloat.shiftToTargetExponent
    rw [totalExponent_shiftLeft positive, canonical]
    have amount : (exponent - (exponent - shift)).toNat = shift := by omega
    have zeros := extended_shiftRight mantissa 0 shift
    rw [Nat.zero_add] at zeros
    simp only [shiftToExponent, amount, ExtendedMantissa.ofMantissaAndAccuracy, zeros,
      Int.sub_add_cancel]
    rfl
  unfold UnpackedFloat.roundWithAccuracy
  simp only [first]
  have rounded : (⟨mantissa, false, false⟩ : ExtendedMantissa).roundedMantissa = mantissa := rfl
  simp only [rounded, canonical.shiftToTargetExponent, Nat.ne_of_gt positive, dite_false]

/-- A float whose exponent is not below the one that rounding aims at keeps its value. -/
theorem round_eq (positive : 0 < mantissa) (sign : Sign) {shift : Nat}
    (canonical : Canonical format (mantissa <<< shift) (exponent - shift)) :
    round format sign mantissa exponent =
      .finite sign (mantissa <<< shift) (exponent - shift)
        (by rw [Nat.shiftLeft_eq]; positivity) := by
  have target : format.targetExponent (totalExponent mantissa exponent) = exponent - shift := by
    rw [← totalExponent_shiftLeft positive exponent shift]
    exact canonical
  have amount : (exponent - (exponent - shift)).toNat = shift := by omega
  unfold UnpackedFloat.round
  simp only [target, decreaseExponent, amount]
  have rounded := canonical.roundWithAccuracy (by rw [Nat.shiftLeft_eq]; positivity) sign 0
  simpa using rounded

/-- Rounding a shifted float brings it to canonical form. -/
theorem Canonical.round_shiftLeft (canonical : Canonical format mantissa exponent)
    (positive : 0 < mantissa) (sign : Sign) (shift : Nat) :
    round format sign (mantissa <<< shift) (exponent - shift) =
      .finite sign mantissa exponent positive := by
  have amount : (exponent - shift - exponent).toNat = 0 := by omega
  unfold UnpackedFloat.round
  rw [totalExponent_shiftLeft positive, canonical]
  simp only [decreaseExponent, amount, Nat.shiftLeft_zero, Nat.cast_zero, Int.sub_zero]
  exact canonical.roundWithAccuracy positive sign shift

end Rounding

/-! ## Bits -/

section Bits

variable {sign : Sign} {mantissa : Nat} {exponent : Int}

/-- The first bit of a normal significand is not stored. -/
theorem toNat_normal {width : Nat} (stored : BitVec width) :
    (1#1 ++ stored).toNat = 2 ^ width + stored.toNat := by
  have split := Nat.two_pow_add_eq_or_of_lt stored.isLt 1
  rw [Nat.mul_one] at split
  rw [BitVec.toNat_append, split]
  simp [Nat.one_shiftLeft]

theorem log2_normal {width : Nat} (stored : BitVec width) : (1#1 ++ stored).toNat.log2 = width := by
  rw [toNat_normal, Nat.log2_eq_iff (by positivity), Nat.pow_succ]
  have bound := stored.isLt
  omega

/-- The bits of a float unpack to canonical form. -/
theorem canonical_of_unpack {format : Format} {bits : BitVec format.numBits}
    {positive : 0 < mantissa} (several : 1 < format.exponentBits)
    (unpacked : unpack format bits = .finite sign mantissa exponent positive) :
    Canonical format mantissa exponent ∧ format.minExponent ≤ exponent ∧
      exponent + format.mantissaBits ≤ 2 ^ (format.exponentBits - 1) ∧
      mantissa.log2 < format.mantissaBits := by
  have power : 2 ^ format.exponentBits = 2 * 2 ^ (format.exponentBits - 1) := by
    rw [← pow_succ', Nat.sub_add_cancel format.he]
  have some_power : 2 ^ 1 ≤ 2 ^ (format.exponentBits - 1) :=
    Nat.pow_le_pow_right (by decide) (by omega)
  have least : format.minExponent =
      3 - (2 ^ (format.exponentBits - 1) : Nat) - (1 + format.mantissaBitsWithoutImplicit : Nat) := by
    simp [Format.minExponent, Format.mantissaBits]
  have most : (2 : Int) ^ (format.exponentBits - 1) = (2 ^ (format.exponentBits - 1) : Nat) := by
    push_cast
    rfl
  unfold UnpackedFloat.unpack at unpacked
  extract_lets mantissaVec exponentVec biased signVec ownSign at unpacked
  have start : biased = exponentVec.toNat -
      ((2 ^ (format.exponentBits - 1) - 1 : Nat) + format.mantissaBitsWithoutImplicit : Int) := rfl
  simp only [Canonical, Format.targetExponent, totalExponent, Format.mantissaBits, least, most]
  generalize 2 ^ (format.exponentBits - 1) = half at *
  split_ifs at unpacked with special undefined subnormal zero
  · simp only [UnpackedFloat.finite.injEq] at unpacked
    obtain ⟨-, rfl, rfl⟩ := unpacked
    have small : mantissaVec.toNat.log2 < format.mantissaBitsWithoutImplicit :=
      (Nat.log2_lt (Nat.ne_of_gt positive)).mpr mantissaVec.isLt
    have none : exponentVec.toNat = 0 := by simp [subnormal]
    refine ⟨?_, ?_, ?_, ?_⟩ <;> omega
  · simp only [UnpackedFloat.finite.injEq] at unpacked
    obtain ⟨-, rfl, rfl⟩ := unpacked
    have normal : (1#1 ++ mantissaVec).toNat.log2 = format.mantissaBitsWithoutImplicit :=
      log2_normal mantissaVec
    have low : exponentVec.toNat ≠ 0 := fun none => subnormal (BitVec.eq_of_toNat_eq none)
    have bound : exponentVec.toNat < 2 * half := power ▸ exponentVec.isLt
    have high : exponentVec.toNat + 1 ≠ 2 * half := by
      intro all
      apply special
      apply BitVec.eq_of_toNat_eq
      rw [BitVec.toNat_neg, BitVec.toNat_ofNat, power]
      have one : 1 % (2 * half) = 1 := Nat.mod_eq_of_lt (by omega)
      rw [one, Nat.mod_eq_of_lt (by omega)]
      omega
    simp only [normal]
    refine ⟨?_, ?_, ?_, ?_⟩ <;> omega

/-- A normal double is unpacked as it was packed. -/
theorem unpack_pack (normal : mantissa.log2 = 52) (low : -1074 ≤ exponent) (high : exponent ≤ 971)
    (positive : 0 < mantissa) :
    unpack .binary64 (pack .binary64 (.finite sign mantissa exponent positive)) =
      .finite sign mantissa exponent positive := by
  obtain ⟨biased, exponentEq⟩ : ∃ biased : Nat, exponent + 1075 = biased :=
    ⟨_, (Int.toNat_of_nonneg (by omega)).symm⟩
  have range : 1 ≤ biased ∧ biased ≤ 2046 := by omega
  have bounds := (Nat.log2_eq_iff (Nat.ne_of_gt positive)).mp normal
  have special : BitVec.ofNat 11 biased ≠ -1#_ := by
    intro all
    have := congrArg BitVec.toNat all
    simp at this
    omega
  have subnormal : BitVec.ofNat 11 biased ≠ 0#_ := by
    intro none
    have := congrArg BitVec.toNat none
    simp at this
    omega
  have packed : pack .binary64 (.finite sign mantissa exponent positive) =
      packComponents .binary64 sign (BitVec.ofNat 11 biased) (BitVec.ofNat 52 mantissa) := by
    have stored : (exponent + (Format.binary64.exponentBias : Nat) + (52 : Nat)).toNat = biased := by
      have bias : Format.binary64.exponentBias = 1023 := rfl
      omega
    unfold UnpackedFloat.pack
    simp only [stored, normal]
    rw [if_neg, if_pos]
    · rfl
    · omega
  have whole : (1#1 ++ BitVec.ofNat 52 mantissa).toNat = mantissa := by
    rw [toNat_normal, BitVec.toNat_ofNat]
    omega
  have stored : ((BitVec.ofNat 11 biased).toNat : Int) - (1023 + 52) = exponent := by
    rw [BitVec.toNat_ofNat]
    omega
  rw [packed]
  unfold UnpackedFloat.unpack
  simp only [unpackExponent_packComponents, unpackMantissa_packComponents,
    unpackSign_packComponents, Sign.ofBitVec_toBitVec, special, subnormal, if_false, whole]
  simp only [UnpackedFloat.finite.injEq, true_and]
  exact stored

end Bits

/-! ## Widening -/

/-- A float is taken apart before it is widened. -/
theorem unpack_widen (value : Float32) : (widen value).toModel.unpack =
    unpack .binary64 (pack .binary64 (roundInto .binary64 value.toModel.unpack)) :=
  rfl

/-- A double has room for 53 bits, so the significand of a widened float ends with zeros. -/
theorem exists_unpack_widened {bits : BitVec Format.binary32.numBits} {sign : Sign} {mantissa : Nat}
    {exponent : Int} {positive : 0 < mantissa}
    (unpacked : unpack .binary32 bits = .finite sign mantissa exponent positive) :
    ∃ zeros : Nat, ∃ widePositive : 0 < mantissa <<< zeros,
      unpack .binary64 (pack .binary64 (roundInto .binary64 (unpack .binary32 bits))) =
        .finite sign (mantissa <<< zeros) (exponent - zeros) widePositive := by
  obtain ⟨canonical, low, high, short⟩ := canonical_of_unpack (by decide) unpacked
  have least : Format.binary32.minExponent = -149 := rfl
  have places : Format.binary32.mantissaBits = 24 := rfl
  have most : (2 : Int) ^ (Format.binary32.exponentBits - 1) = 128 := rfl
  let zeros := 52 - mantissa.log2
  have normal : (mantissa <<< zeros).log2 = 52 := by
    rw [log2_shiftLeft positive]
    omega
  have double : Canonical .binary64 (mantissa <<< zeros) (exponent - zeros) := by
    simp only [Canonical, Format.targetExponent, totalExponent, Format.mantissaBits,
      Format.minExponent, normal]
    omega
  refine ⟨zeros, Nat.shiftLeft_pos_iff.mpr positive, ?_⟩
  rw [unpacked, roundInto, round_eq positive sign double]
  exact unpack_pack normal (by omega) (by omega) _

/-- A single precision float is rounded into a double and back. -/
theorem round_widened (bits : BitVec Format.binary32.numBits) :
    roundInto .binary32 (unpack .binary64 (pack .binary64
      (roundInto .binary64 (unpack .binary32 bits)))) = unpack .binary32 bits := by
  cases unpacked : unpack .binary32 bits with
  | infinity sign => cases sign <;> rfl
  | notANumber => rfl
  | zero sign => cases sign <;> rfl
  | finite sign mantissa exponent positive =>
      obtain ⟨canonical, -⟩ := canonical_of_unpack (by decide) unpacked
      obtain ⟨zeros, widePositive, widened⟩ := exists_unpack_widened unpacked
      rw [← unpacked, widened]
      exact (canonical.round_shiftLeft positive sign zeros).trans unpacked.symm

/-- A double is narrowed to the float that it is rounded to. -/
theorem narrow_eq {double : Float} {value : Float32}
    (rounded : roundInto .binary32 double.toModel.unpack = value.toModel.unpack) :
    narrow double = value := by
  have bits : (narrow double).toBits = value.toBits := by
    rw [← UInt32.toBitVec_inj]
    exact (congrArg (pack .binary32) rounded).trans (pack_unpack_of_valid value.toModel.valid)
  exact Float32.toBits_inj.mp bits

/-- Narrowing what was widened gives the float back. -/
@[simp]
theorem narrow_widen (value : Float32) : narrow (widen value) = value :=
  narrow_eq (round_widened value.toBits.toBitVec)

end Dataflow
