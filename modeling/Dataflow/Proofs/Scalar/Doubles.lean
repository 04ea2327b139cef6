import Dataflow.Proofs.Scalar.Rounding

/-!
# Arithmetic on positive doubles

Products and quotients of doubles, and doubles of integers, are exact results that are rounded once.
While they stay in the normal range, the relative error is at most half of a unit in the last place.
-/

namespace Dataflow

open Float.Model (Format UnpackedFloat totalExponent)
open Float.Model.UnpackedFloat

/-! ## Relative errors -/

/-- A number is near a value, up to a part of the value. -/
def Close (part near value : ℚ) : Prop :=
  |near - value| ≤ part * value

section Errors

variable {part other total near next value scale : ℚ}

theorem Close.bounds (close : Close part near value) :
    (1 - part) * value ≤ near ∧ near ≤ (1 + part) * value := by
  obtain ⟨low, high⟩ := abs_le.mp close
  constructor <;> linarith

theorem close_of_bounds (low : (1 - part) * value ≤ near) (high : near ≤ (1 + part) * value) :
    Close part near value :=
  abs_le.mpr ⟨by linarith, by linarith⟩

theorem close_refl (value : ℚ) : Close 0 value value := by
  simp [Close]

theorem Close.mono (close : Close part near value) (nonneg : 0 ≤ value) (more : part ≤ total) :
    Close total near value :=
  close.trans (mul_le_mul_of_nonneg_right more nonneg)

theorem Close.pos (close : Close part near value) (positive : 0 < value) (small : part < 1) :
    0 < near :=
  (mul_pos (by linarith) positive).trans_le close.bounds.1

/-- Errors add up, and a little more. -/
theorem Close.trans (close : Close part near value) (again : Close other next near)
    (nonneg : 0 ≤ value) (otherNonneg : 0 ≤ other) (grows : (1 + part) * (1 + other) ≤ 1 + total) :
    Close total next value := by
  have least := mul_le_mul_of_nonneg_left close.bounds.2 otherNonneg
  have sum := mul_le_mul_of_nonneg_right grows nonneg
  calc |next - value| ≤ |next - near| + |near - value| := abs_sub_le _ _ _
    _ ≤ other * near + part * value := add_le_add again close
    _ ≤ total * value := by linarith

/-- The error of a product. -/
theorem Close.mul (close : Close part near value) (also : Close other next scale)
    (nonneg : 0 ≤ value) (scaleNonneg : 0 ≤ scale) (partNonneg : 0 ≤ part)
    (otherNonneg : 0 ≤ other) (small : part ≤ 1) (otherSmall : other ≤ 1)
    (grows : (1 + part) * (1 + other) ≤ 1 + total) : Close total (near * next) (value * scale) := by
  obtain ⟨low, high⟩ := close.bounds
  obtain ⟨nextLow, nextHigh⟩ := also.bounds
  have size : 0 ≤ value * scale := mul_nonneg nonneg scaleNonneg
  have nearNonneg : 0 ≤ near := (mul_nonneg (by linarith) nonneg).trans low
  apply close_of_bounds
  · have product := mul_le_mul low nextLow (mul_nonneg (by linarith) scaleNonneg) nearNonneg
    have shrinks : 1 - total ≤ (1 - part) * (1 - other) := by nlinarith
    calc (1 - total) * (value * scale) ≤ (1 - part) * (1 - other) * (value * scale) :=
          mul_le_mul_of_nonneg_right shrinks size
      _ = (1 - part) * value * ((1 - other) * scale) := by ring
      _ ≤ near * next := product
  · have product := mul_le_mul high nextHigh
      ((mul_nonneg (by linarith) scaleNonneg).trans nextLow) (mul_nonneg (by linarith) nonneg)
    calc near * next ≤ (1 + part) * value * ((1 + other) * scale) := product
      _ = (1 + part) * (1 + other) * (value * scale) := by ring
      _ ≤ (1 + total) * (value * scale) := mul_le_mul_of_nonneg_right grows size

/-- The error of a quotient. -/
theorem Close.div (close : Close part near value) (also : Close other next scale)
    (nonneg : 0 ≤ value) (scalePositive : 0 < scale) (partNonneg : 0 ≤ part)
    (otherNonneg : 0 ≤ other) (otherSmall : other < 1) (totalSmall : total ≤ 1)
    (grows : 1 + part ≤ (1 + total) * (1 - other)) : Close total (near / next) (value / scale) := by
  obtain ⟨low, high⟩ := close.bounds
  obtain ⟨nextLow, nextHigh⟩ := also.bounds
  have nextPositive : 0 < next := also.pos scalePositive otherSmall
  have totalNonneg : 0 ≤ total := by nlinarith
  apply close_of_bounds
  · have shrinks : (1 - total) * (1 + other) ≤ 1 - part := by nlinarith
    rw [← mul_div_assoc, div_le_div_iff₀ scalePositive nextPositive]
    calc (1 - total) * value * next ≤ (1 - total) * value * ((1 + other) * scale) :=
          mul_le_mul_of_nonneg_left nextHigh (mul_nonneg (by linarith) nonneg)
      _ = (1 - total) * (1 + other) * (value * scale) := by ring
      _ ≤ (1 - part) * (value * scale) :=
          mul_le_mul_of_nonneg_right shrinks (mul_nonneg nonneg scalePositive.le)
      _ = (1 - part) * value * scale := by ring
      _ ≤ near * scale := mul_le_mul_of_nonneg_right low scalePositive.le
  · rw [← mul_div_assoc, div_le_div_iff₀ nextPositive scalePositive]
    calc near * scale ≤ (1 + part) * value * scale := mul_le_mul_of_nonneg_right high scalePositive.le
      _ = (1 + part) * (value * scale) := by ring
      _ ≤ (1 + total) * (1 - other) * (value * scale) :=
          mul_le_mul_of_nonneg_right grows (mul_nonneg nonneg scalePositive.le)
      _ = (1 + total) * value * ((1 - other) * scale) := by ring
      _ ≤ (1 + total) * value * next :=
          mul_le_mul_of_nonneg_left nextLow (mul_nonneg (by linarith) nonneg)

end Errors

/-! ## Doubles -/

section Doubles

variable {first second : Float} {left right value : ℚ}

/-- A positive normal double has a value. -/
def Measures (double : Float) (value : ℚ) : Prop :=
  ∃ mantissa exponent, ∃ positive : 0 < mantissa,
    double.toModel.unpack = .finite .positive mantissa exponent positive ∧
      mantissa.log2 = 52 ∧ -1074 ≤ exponent ∧ exponent ≤ 971 ∧
      value = mantissa * 2 ^ exponent

/-- A double with a value is not zero. -/
theorem Measures.ne_zero (measures : Measures first value) : (first == 0) = false := by
  obtain ⟨mantissa, exponent, positive, unpacked, -⟩ := measures
  change UnpackedFloat.beq first.toModel.unpack _ = false
  rw [unpacked]
  rfl

/-- A double is a positive number that was rounded once. -/
def RoundedFrom (double : Float) (value : ℚ) : Prop :=
  ∃ mantissa exponent accuracy,
    double.toModel = .pack (roundWithAccuracy .binary64 .positive mantissa exponent accuracy) ∧
      0 < mantissa ∧ exponent ≤ Format.binary64.targetExponent (totalExponent mantissa exponent) ∧
      Shows (.ofMantissaAndAccuracy mantissa accuracy) (value / 2 ^ exponent)

/-- A rounded number in the normal range is measured up to half of a unit in the last place. -/
theorem RoundedFrom.exists_measures (rounded : RoundedFrom first value)
    (normal : (2 : ℚ) ^ (-1022 : Int) ≤ value) (small : value < 2 ^ 1024 - 2 ^ 970) :
    ∃ near, Measures first near ∧ Close (1 / 2 ^ 53) near value := by
  obtain ⟨mantissa, exponent, accuracy, eq, positive, below, shows⟩ := rounded
  have size : Format.binary64.mantissaBits = 52 + 1 := rfl
  obtain ⟨whole, target, wholePositive, result, log, least, unit, low, error⟩ :=
    exists_roundWithAccuracy size shows positive below normal .positive
  have unitBound : unit ≤ 971 := by
    have less : (2 : ℚ) ^ (unit + (52 : Nat)) < 2 ^ (1024 : Int) :=
      low.trans_lt (small.trans (sub_lt_self _ (by positivity)))
    have := (zpow_lt_zpow_iff_right₀ one_lt_two).mp less
    omega
  have half : (2 : ℚ) ^ unit / 2 ≤ 2 ^ 970 := by
    have mono : (2 : ℚ) ^ unit ≤ 2 ^ ((970 : Int) + 1) := zpow_le_zpow_right₀ one_le_two unitBound
    rw [zpow_add_one₀ two_ne_zero] at mono
    rw [div_le_iff₀ two_pos]
    exact mono
  have high : target ≤ 971 := by
    by_contra large
    have power : (2 : ℚ) ^ 972 ≤ 2 ^ target := by
      rw [← zpow_natCast]
      exact zpow_le_zpow_right₀ one_le_two (by omega)
    have significand : (2 : ℚ) ^ 52 ≤ whole := by
      exact_mod_cast (Nat.le_log2 (Nat.ne_of_gt wholePositive)).mp log.ge
    have product : (2 : ℚ) ^ 52 * 2 ^ 972 ≤ whole * 2 ^ target :=
      mul_le_mul significand power (by positivity) (by positivity)
    have split : (2 : ℚ) ^ 1024 = 2 ^ 52 * 2 ^ 972 := pow_add 2 52 972
    have bound : (whole : ℚ) * 2 ^ target < 2 ^ 1024 :=
      calc (whole : ℚ) * 2 ^ target ≤ value + 2 ^ unit / 2 :=
          sub_le_iff_le_add'.mp (abs_le.mp error).2
        _ ≤ value + 2 ^ 970 := add_le_add_right half value
        _ < 2 ^ 1024 := lt_sub_iff_add_lt.mp small
    exact absurd (split.trans_le product) bound.not_ge
  refine ⟨whole * 2 ^ target, ⟨whole, target, wholePositive, ?_, log, least, high, rfl⟩, ?_⟩
  · rw [eq, result]
    exact unpack_pack log least high wholePositive
  · refine error.trans ?_
    rw [zpow_add₀ two_ne_zero, zpow_natCast] at low
    rw [one_div_mul_eq_div, div_le_div_iff₀ two_pos (by positivity)]
    calc (2 : ℚ) ^ unit * 2 ^ 53 = 2 ^ unit * 2 ^ 52 * 2 := by ring
      _ ≤ value * 2 := mul_le_mul_of_nonneg_right low two_pos.le

/-- Packing undoes unpacking. -/
@[simp]
theorem pack_unpack_toModel (double : Float) :
    Float.Model.pack double.toModel.unpack = double.toModel := by
  have bits : (Float.ofModel (.pack double.toModel.unpack)).toBits = double.toBits :=
    UInt64.toBitVec_inj.mp (pack_unpack_of_valid double.toModel.valid)
  exact congrArg Float.toModel (Float.toBits_inj.mp bits)

/-- A double is what it is unpacked to. -/
theorem eq_of_unpack (same : first.toModel.unpack = second.toModel.unpack) : first = second := by
  apply congrArg Float.ofModel
  rw [← pack_unpack_toModel, same, pack_unpack_toModel]

/-- A finite double is zero or positive, with a sign. -/
theorem zero_or_positive_of_isFinite (finite : first.isFinite = true) :
    (∃ sign, first.toModel.unpack = .zero sign) ∨
      ∃ sign mantissa exponent, ∃ positive : 0 < mantissa,
        first.toModel.unpack = .finite sign mantissa exponent positive := by
  unfold Float.isFinite Float.Model.isFinite at finite
  cases unpacked : first.toModel.unpack with
  | infinity => simp [unpacked, UnpackedFloat.isFinite] at finite
  | notANumber => simp [unpacked, UnpackedFloat.isFinite] at finite
  | zero sign => exact .inl ⟨sign, rfl⟩
  | finite sign mantissa exponent positive => exact .inr ⟨sign, mantissa, exponent, positive, rfl⟩

/-- A rounded number is the double that it is rounded to. -/
theorem RoundedFrom.eq_of_roundsTo (rounded : RoundedFrom first value) {mantissa : Nat}
    {exponent : Int} {positive : 0 < mantissa}
    (unpacked : second.toModel.unpack = .finite .positive mantissa exponent positive)
    (canonical : Canonical .binary64 mantissa exponent)
    (rounds : RoundsTo .binary64 mantissa exponent value) : first = second := by
  obtain ⟨moved, lower, accuracy, eq, movedPositive, below, shows⟩ := rounded
  have result := rounds.roundWithAccuracy_eq canonical positive shows movedPositive below .positive
  apply congrArg Float.ofModel
  rw [eq, result, ← unpacked, pack_unpack_toModel]

/-- A significand of full length is not shortened. -/
theorem le_targetExponent {mantissa : Nat} (large : 2 ^ 52 ≤ mantissa) (exponent : Int) :
    exponent ≤ Format.binary64.targetExponent (totalExponent mantissa exponent) := by
  have positive : mantissa ≠ 0 := by
    rintro rfl
    simp at large
  have log := (Nat.le_log2 positive).mpr large
  simp only [Format.targetExponent, totalExponent, Format.mantissaBits, Format.minExponent]
  omega

/-- A product is rounded once. -/
theorem Measures.mul (measuresLeft : Measures first left) (measuresRight : Measures second right) :
    RoundedFrom (first * second) (left * right) := by
  obtain ⟨mantissa, exponent, positive, unpacked, log, -, -, rfl⟩ := measuresLeft
  obtain ⟨other, otherExponent, otherPositive, otherUnpacked, otherLog, -, -, rfl⟩ := measuresRight
  have large := (Nat.le_log2 (Nat.ne_of_gt positive)).mp log.ge
  refine ⟨mantissa * other, exponent + otherExponent, .exact, ?_, by positivity,
    le_targetExponent (large.trans (Nat.le_mul_of_pos_right _ otherPositive)) _, ?_⟩
  · change Float.Model.pack (UnpackedFloat.mul .binary64 first.toModel.unpack second.toModel.unpack) =
      _
    rw [unpacked, otherUnpacked]
    rfl
  · have product : (mantissa : ℚ) * 2 ^ exponent * (other * 2 ^ otherExponent) =
        (mantissa * other : Nat) * 2 ^ (exponent + otherExponent) := by
      rw [zpow_add₀ two_ne_zero]
      push_cast
      ring
    rw [product]
    exact shows_exact _ _

/-- A quotient that is not too small is rounded once.  It has all places, unless that takes an exponent
below the smallest one. -/
theorem Measures.div (measuresLeft : Measures first left) (measuresRight : Measures second right)
    (large : (2 : ℚ) ^ (-1074 : Int) ≤ left / right) :
    RoundedFrom (first / second) (left / right) := by
  obtain ⟨mantissa, exponent, positive, unpacked, log, -, -, rfl⟩ := measuresLeft
  obtain ⟨other, otherExponent, otherPositive, otherUnpacked, otherLog, -, -, rfl⟩ := measuresRight
  obtain ⟨low, -⟩ := (Nat.log2_eq_iff (Nat.ne_of_gt positive)).mp log
  obtain ⟨-, high⟩ := (Nat.log2_eq_iff (Nat.ne_of_gt otherPositive)).mp otherLog
  let target := min (exponent - otherExponent)
    (Format.binary64.targetExponent (totalExponent mantissa exponent - totalExponent other otherExponent))
  let shift := (exponent - otherExponent - target).toNat
  let quotient := mantissa <<< shift / other
  have aims : target = min (exponent - otherExponent) (max (exponent - otherExponent - 53) (-1074)) := by
    simp only [target, Format.targetExponent, totalExponent, log, otherLog, Format.mantissaBits,
      Format.minExponent]
    omega
  have amount : (shift : Int) = exponent - otherExponent - target := Int.toNat_of_nonneg (by omega)
  have scaled : (mantissa : ℚ) * 2 ^ exponent / (other * 2 ^ otherExponent) / 2 ^ target =
      (mantissa <<< shift : Nat) / other := by
    have split : exponent = shift + otherExponent + target := by omega
    rw [Nat.shiftLeft_eq, split, zpow_add₀ two_ne_zero, zpow_add₀ two_ne_zero, zpow_natCast]
    push_cast
    field_simp
  have shows := shows_fraction (mantissa <<< shift) otherPositive
  have full : -1074 < target → 2 ^ 52 ≤ quotient := by
    intro above
    have places : 53 ≤ shift := by omega
    rw [Nat.le_div_iff_mul_le otherPositive, Nat.shiftLeft_eq]
    exact Nat.mul_le_mul low (high.le.trans (Nat.pow_le_pow_right two_pos places))
  have some_bit : 0 < quotient := by
    by_cases above : -1074 < target
    · exact (full above).trans_lt' (by positivity)
    · have unit : (0 : ℚ) < 2 ^ target := by positivity
      have least : (2 : ℚ) ^ target ≤ 2 ^ (-1074 : Int) :=
        zpow_le_zpow_right₀ one_le_two (by omega)
      have one : (1 : ℚ) ≤ (mantissa <<< shift : Nat) / other := by
        rw [← scaled, one_le_div unit]
        exact least.trans large
      rw [one_le_div (by exact_mod_cast otherPositive)] at one
      exact Nat.div_pos (by exact_mod_cast one) otherPositive
  refine ⟨quotient, target, accuracyOfFraction (mantissa <<< shift % other) other, ?_, some_bit, ?_,
    scaled ▸ shows⟩
  · change Float.Model.pack (UnpackedFloat.div .binary64 first.toModel.unpack second.toModel.unpack) =
      _
    rw [unpacked, otherUnpacked]
    rfl
  · by_cases above : -1074 < target
    · exact le_targetExponent (full above) target
    · simp only [Format.targetExponent, Format.mantissaBits, Format.minExponent]
      omega

/-! ## Integers -/

/-- A float is rounded to itself. -/
theorem roundsTo_self (format : Format) (whole : Nat) (target : Int) :
    RoundsTo format whole target (whole * 2 ^ target) := by
  have scaled : (whole : ℚ) * 2 ^ target / 2 ^ target = whole :=
    mul_div_cancel_right₀ _ (by positivity)
  constructor
  · rw [scaled]
    exact (Shows.exact whole).nearest
  · intro _ _
    rw [scaled]
    exact sub_le_self _ (by norm_num)

/-- What is nearer to a float than a quarter of a gap is rounded to it. -/
theorem roundsTo_of_close {format : Format} {whole : Nat} {target : Int} {part near : ℚ}
    (small : part * whole ≤ 1 / 4) (close : Close part near (whole * 2 ^ target)) :
    RoundsTo format whole target near := by
  have unit : (0 : ℚ) < 2 ^ target := by positivity
  have bound : |near / 2 ^ target - whole| ≤ 1 / 4 := by
    have quotient : near / 2 ^ target - whole = (near - whole * 2 ^ target) / 2 ^ target := by
      field_simp
    rw [quotient, abs_div, abs_of_pos unit, div_le_iff₀ unit]
    refine le_trans close ?_
    rw [← mul_assoc]
    exact mul_le_mul_of_nonneg_right small unit.le
  rw [abs_le] at bound
  constructor
  · constructor
    · linarith
    · linarith
    · rintro (tie | tie) <;> linarith
  · intro _ _
    linarith

/-- A number that is a double is measured without an error. -/
theorem RoundedFrom.measures {whole : Nat} {target : Int}
    (rounded : RoundedFrom first (whole * 2 ^ target)) (log : whole.log2 = 52)
    (least : -1074 ≤ target) (most : target ≤ 971) : Measures first (whole * 2 ^ target) := by
  obtain ⟨mantissa, exponent, accuracy, eq, positive, below, shows⟩ := rounded
  have wholePositive : 0 < whole := by
    rw [Nat.pos_iff_ne_zero]
    rintro rfl
    simp at log
  have canonical : Canonical .binary64 whole target := by
    simp only [Canonical, Format.targetExponent, totalExponent, log, Format.mantissaBits,
      Format.minExponent]
    omega
  refine ⟨whole, target, wholePositive, ?_, log, least, most, rfl⟩
  rw [eq, (roundsTo_self .binary64 whole target).roundWithAccuracy_eq canonical wholePositive shows
    positive below]
  exact unpack_pack log least most wholePositive

/-- The double of an integer is rounded once. -/
theorem roundedFrom_toFloat {whole : UInt64} (positive : 0 < whole.toNat) :
    RoundedFrom whole.toFloat whole.toNat := by
  obtain ⟨moved, lower, eq, movedPositive, below, same⟩ :=
    exists_round_eq .binary64 positive .positive 0
  refine ⟨moved, lower, .exact, ?_, movedPositive, below, ?_⟩
  · have order : compare (whole.toNat : Int) 0 = .gt := compare_gt_iff_gt.mpr (by omega)
    change Float.Model.pack (UnpackedFloat.normalize .binary64 whole.toNat 0 .positive) = _
    rw [UnpackedFloat.normalize, order, ← eq]
    rfl
  · rw [zpow_zero, mul_one] at same
    exact same ▸ shows_exact moved lower

/-- An integer of at most 53 bits is a double. -/
theorem measures_toFloat {whole : UInt64} (positive : 0 < whole.toNat)
    (small : whole.toNat < 2 ^ 53) : Measures whole.toFloat whole.toNat := by
  have places : whole.toNat.log2 < 53 := (Nat.log2_lt (Nat.ne_of_gt positive)).mpr small
  let shift := 52 - whole.toNat.log2
  have same : (whole.toNat : ℚ) = (whole.toNat <<< shift : Nat) * 2 ^ (-(shift : Int)) := by
    rw [Nat.shiftLeft_eq, zpow_neg, zpow_natCast]
    push_cast
    field_simp
  have rounded := roundedFrom_toFloat positive
  rw [same] at rounded ⊢
  apply rounded.measures
  · rw [log2_shiftLeft positive]
    omega
  · omega
  · omega

end Doubles

end Dataflow
