import Dataflow.Decimal.Scaled
import Dataflow.Proofs.Scalar.Doubles

/-!
# Errors of a scaling

A significand and a power of ten are both rounded to doubles before the one is multiplied with the
other or divided by it.  Each of the three roundings changes the result by at most half of a unit in
the last place, and small significands and powers are not changed at all.
-/

namespace Dataflow.Decimal

open Float.Model (Format UnpackedFloat totalExponent)
open Float.Model.UnpackedFloat

/-! ## Powers of ten -/

/-- Whether the double of a power of ten is the power of ten. -/
def IsExactPower (exponent : Nat) : Bool :=
  match (powerOfTen exponent).toModel.unpack with
  | .finite .positive mantissa binary _ =>
      mantissa.log2 = 52 ∧ -1074 ≤ binary ∧ binary ≤ 971 ∧
        mantissa * 2 ^ binary.toNat = 10 ^ exponent * 2 ^ (-binary).toNat
  | _ => false

/-- Powers of ten up to the twenty-second are doubles. -/
theorem measures_powerOfTen {exponent : Nat} (small : exponent ≤ 22) :
    Measures (powerOfTen exponent) (10 ^ exponent) := by
  have all : ∀ exponent ≤ 22, IsExactPower exponent = true := by decide +kernel
  have own := all exponent small
  unfold IsExactPower at own
  split at own
  · rename_i mantissa binary positive unpacked
    simp only [decide_eq_true_eq] at own
    obtain ⟨log, least, most, same⟩ := own
    refine ⟨mantissa, binary, positive, unpacked, log, least, most, ?_⟩
    have cast : (mantissa : ℚ) * 2 ^ binary.toNat = 10 ^ exponent * 2 ^ (-binary).toNat := by
      exact_mod_cast same
    have power : (2 : ℚ) ^ (-binary).toNat ≠ 0 := by positivity
    apply mul_right_cancel₀ power
    rw [mul_assoc, zpow_mul_pow_toNat two_ne_zero, cast]
  · simp at own

/-- A larger power of ten is rounded once. -/
theorem roundedFrom_powerOfTen {exponent : Nat} (large : 22 < exponent) (bound : exponent ≤ 2048) :
    RoundedFrom (powerOfTen exponent) (10 ^ exponent) := by
  have size : (2 : Nat) ^ 52 ≤ 1 <<< 53 * 10 ^ exponent := by
    have power := Nat.one_le_pow exponent 10 (by decide)
    rw [Nat.shiftLeft_eq]
    omega
  refine ⟨1 <<< 53 * 10 ^ exponent, -53, .exact, ?_, by positivity, le_targetExponent size _, ?_⟩
  · have beyond : ¬((1 : Nat) < 2 ^ 53 ∧ exponent ≤ 22) := by omega
    have scientific : powerOfTen exponent =
        ⟨.pack (UnpackedFloat.ofScientific .binary64 1 exponent)⟩ := by
      rw [powerOfTen, Float.ofScientific, dif_neg beyond]
      rfl
    have high : ¬(exponent : Int) > 2 ^ Format.binary64.exponentBits := by
      have limit : (2 : Int) ^ Format.binary64.exponentBits = 2048 := rfl
      omega
    have low : ¬(exponent : Int) < -(2 ^ Format.binary64.exponentBits + (Nat.log2 1 : Int)) := by
      have limit : (2 : Int) ^ Format.binary64.exponentBits = 2048 := rfl
      omega
    rw [scientific, UnpackedFloat.ofScientific]
    simp only [one_ne_zero, dite_false, high, low, if_false, Int.natCast_nonneg, if_true,
      Int.toNat_natCast]
    rfl
  · have same : (10 : ℚ) ^ exponent = (1 <<< 53 * 10 ^ exponent : Nat) * 2 ^ (-53 : Int) := by
      rw [Nat.shiftLeft_eq]
      push_cast
      ring
    rw [same]
    exact shows_exact _ _

/-- The largest power of ten for scaling is in the range of doubles, the next one is not, and two of
them divide every significand out of the normal range. -/
theorem maxScale_bounds : 10 ^ maxScale ≤ 3 * 2 ^ 1022 ∧ 2 ^ 1024 ≤ 10 ^ (maxScale + 1) ∧
    significandBound * 2 ^ 1021 < 10 ^ (maxScale + maxScale) := by
  decide +kernel

/-- Three quarters of the next power of two are in the range of doubles. -/
theorem lt_of_le_three_mul {value : ℚ} (small : value ≤ 3 * 2 ^ 1022) :
    value < 2 ^ 1024 - 2 ^ 970 := by
  have limit : (2 : ℚ) ^ 1024 = 2 ^ 2 * 2 ^ 1022 := pow_add 2 2 1022
  have less : (2 : ℚ) ^ 970 < 2 ^ 1022 := pow_lt_pow_right₀ one_lt_two (by decide)
  rw [limit]
  -- The powers are too large to be evaluated.
  generalize (2 : ℚ) ^ 1022 = large at *
  generalize (2 : ℚ) ^ 970 = unit at *
  linarith

/-- Small powers of two are in the range of doubles. -/
theorem lt_of_le_two_pow {value : ℚ} {exponent : Nat} (small : value ≤ 2 ^ exponent)
    (bound : exponent ≤ 1022) : value < 2 ^ 1024 - 2 ^ 970 := by
  apply lt_of_le_three_mul
  have power : (2 : ℚ) ^ exponent ≤ 2 ^ 1022 := pow_le_pow_right₀ one_le_two bound
  exact small.trans (power.trans (le_mul_of_one_le_left (by positivity) (by norm_num)))

/-- The powers of ten for scaling are in the range of doubles. -/
theorem ten_pow_lt {exponent : Nat} (bound : exponent ≤ maxScale) :
    (10 : ℚ) ^ exponent < 2 ^ 1024 - 2 ^ 970 := by
  apply lt_of_le_three_mul
  exact_mod_cast (Nat.pow_le_pow_right (by decide) bound).trans maxScale_bounds.1

theorem exists_measures_powerOfTen {exponent : Nat} (bound : exponent ≤ maxScale) :
    ∃ near, Measures (powerOfTen exponent) near ∧ Close (1 / 2 ^ 53) near (10 ^ exponent) := by
  by_cases small : exponent ≤ 22
  · exact ⟨_, measures_powerOfTen small, (close_refl _).mono (by positivity) (by positivity)⟩
  · have one : (1 : ℚ) ≤ 10 ^ exponent := one_le_pow₀ (by norm_num)
    have rounded : RoundedFrom (powerOfTen exponent) (10 ^ exponent) :=
      roundedFrom_powerOfTen (by omega) (bound.trans (by decide))
    exact rounded.exists_measures (one.trans' (zpow_le_one_of_nonpos₀ one_le_two (by decide)))
      (ten_pow_lt bound)

theorem exists_measures_toFloat {whole : UInt64} (positive : 0 < whole.toNat) :
    ∃ near, Measures whole.toFloat near ∧ Close (1 / 2 ^ 53) near whole.toNat := by
  have one : (1 : ℚ) ≤ whole.toNat := by exact_mod_cast positive
  apply (roundedFrom_toFloat positive).exists_measures
  · exact one.trans' (zpow_le_one_of_nonpos₀ one_le_two (by decide))
  · have word : (whole.toNat : ℚ) ≤ 2 ^ 64 := by exact_mod_cast whole.toNat_lt.le
    exact lt_of_le_two_pow word (by decide)

/-! ## Scalings -/

section Scaling

variable {double : Float} {near amount : ℚ} {exponent : Nat}

/-- Dividing once by a power of ten. -/
theorem exists_measures_divided (total final : ℚ) (measures : Measures double near) {part : ℚ}
    (close : Close part near amount) (bound : exponent ≤ maxScale) (positive : 0 < amount)
    (partNonneg : 0 ≤ part) (totalSmall : total ≤ 1)
    (normal : (2 : ℚ) ^ (-1022 : Int) ≤ (1 - total) * (amount / 10 ^ exponent))
    (small : (1 + total) * (amount / 10 ^ exponent) < 2 ^ 1024 - 2 ^ 970)
    (grows : 1 + part ≤ (1 + total) * (1 - 1 / 2 ^ 53))
    (ends : (1 + total) * (1 + 1 / 2 ^ 53) ≤ 1 + final) :
    ∃ next, Measures (double / powerOfTen exponent) next ∧
      Close final next (amount / 10 ^ exponent) := by
  obtain ⟨power, measuresPower, closePower⟩ := exists_measures_powerOfTen bound
  have quotient : Close total (near / power) (amount / 10 ^ exponent) :=
    close.div closePower positive.le (by positivity) partNonneg (by positivity)
      (by norm_num) totalSmall grows
  obtain ⟨low, high⟩ := quotient.bounds
  have rounded := measures.div measuresPower (low.trans' (normal.trans'
    (zpow_le_zpow_right₀ one_le_two (by decide))))
  obtain ⟨next, measuresNext, closeNext⟩ :=
    rounded.exists_measures (normal.trans low) (high.trans_lt small)
  exact ⟨next, measuresNext, quotient.trans closeNext (by positivity) (by positivity) ends⟩

/-- The number that a scaled significand stands for. -/
def Scaled.value (scaled : Scaled) : ℚ :=
  scaled.significand * 10 ^ scaled.exponent

variable {scaled : Scaled}

/-- A significand as a double. -/
theorem Scaled.exists_measures_significand (positive : 0 < scaled.significand)
    (fits : scaled.significand < significandBound) :
    ∃ near, Measures scaled.significand.toUInt64.toFloat near ∧
      Close (1 / 2 ^ 53) near scaled.significand := by
  have word : scaled.significand.toUInt64.toNat = scaled.significand :=
    Nat.mod_eq_of_lt fits
  have some_digit : 0 < scaled.significand.toUInt64.toNat := by omega
  have measures := exists_measures_toFloat some_digit
  rwa [word] at measures

/-- A number that is scaled up. -/
theorem Scaled.value_of_nonneg (up : 0 ≤ scaled.exponent) :
    scaled.value = scaled.significand * 10 ^ scaled.exponent.natAbs := by
  have exponent : scaled.exponent = (scaled.exponent.natAbs : Int) := by omega
  rw [Scaled.value, ← zpow_natCast, ← exponent]

/-- A number that is scaled down. -/
theorem Scaled.value_of_neg (down : scaled.exponent < 0) :
    scaled.value = scaled.significand / 10 ^ scaled.exponent.natAbs := by
  have exponent : scaled.exponent = -(scaled.exponent.natAbs : Int) := by omega
  rw [Scaled.value, div_eq_mul_inv, ← zpow_natCast, ← zpow_neg, ← exponent]

theorem one_le_mul_pow {significand : Nat} (positive : 0 < significand) (exponent : Nat) :
    (1 : ℚ) ≤ significand * 10 ^ exponent := by
  exact_mod_cast Nat.mul_pos positive (Nat.pow_pos (by decide))

/-- Scaling up multiplies once, if the product is in range. -/
theorem Scaled.toDouble?_up (up : 0 ≤ scaled.exponent) (bound : scaled.exponent.natAbs ≤ maxScale)
    (measures : Measures
      (scaled.significand.toUInt64.toFloat * powerOfTen scaled.exponent.natAbs) near) :
    scaled.toDouble? =
      some (scaled.significand.toUInt64.toFloat * powerOfTen scaled.exponent.natAbs) := by
  have finite : (scaled.significand.toUInt64.toFloat *
      powerOfTen scaled.exponent.natAbs).isInf = false := by
    obtain ⟨mantissa, exponent, some_bit, unpacked, -⟩ := measures
    unfold Float.isInf Float.Model.isInf
    rw [unpacked]
    rfl
  have sign : ¬scaled.exponent < 0 := by omega
  simp only [Scaled.toDouble?, sign, if_false, bound, if_true, finite, Bool.false_eq_true]

/-- A number in the range of doubles needs no larger power of ten. -/
theorem le_maxScale {significand count : Nat} (positive : 0 < significand)
    (small : (significand : ℚ) * 10 ^ count < 2 ^ 1024) : count ≤ maxScale := by
  by_contra large
  have least : (10 : Nat) ^ (maxScale + 1) ≤ 10 ^ count :=
    Nat.pow_le_pow_right (by decide) (by omega)
  have product : 10 ^ count ≤ significand * 10 ^ count := Nat.le_mul_of_pos_left _ positive
  have cast : (2 : ℚ) ^ 1024 ≤ significand * 10 ^ count := by
    exact_mod_cast maxScale_bounds.2.1.trans (least.trans product)
  exact absurd cast small.not_ge

/-- Scaling up keeps a number in the range of doubles near to it. -/
theorem Scaled.exists_toDouble?_up (positive : 0 < scaled.significand)
    (fits : scaled.significand < significandBound) (up : 0 ≤ scaled.exponent)
    (small : (1 + 5 / 2 ^ 54) * scaled.value < 2 ^ 1024 - 2 ^ 970) :
    ∃ double near, scaled.toDouble? = some double ∧ Measures double near ∧
      Close (4 / 2 ^ 53) near scaled.value := by
  rw [value_of_nonneg up] at small ⊢
  have product := one_le_mul_pow positive scaled.exponent.natAbs
  have bound : scaled.exponent.natAbs ≤ maxScale := by
    apply le_maxScale positive
    have less : (2 : ℚ) ^ 1024 - 2 ^ 970 < 2 ^ 1024 := sub_lt_self _ (by positivity)
    exact (le_mul_of_one_le_left (by positivity) (by norm_num)).trans_lt (small.trans less)
  obtain ⟨first, measuresFirst, closeFirst⟩ := exists_measures_significand positive fits
  obtain ⟨second, measuresSecond, closeSecond⟩ := exists_measures_powerOfTen bound
  have close : Close (5 / 2 ^ 54) (first * second)
      (scaled.significand * 10 ^ scaled.exponent.natAbs) :=
    closeFirst.mul closeSecond (by positivity) (by positivity) (by positivity) (by positivity)
      (by norm_num) (by norm_num) (by norm_num)
  obtain ⟨low, high⟩ := close.bounds
  have least : (2 : ℚ) ^ (-1022 : Int) ≤ first * second := by
    have half : (2 : ℚ) ^ (-1022 : Int) ≤ 2 ^ (-1 : Int) := zpow_le_zpow_right₀ one_le_two (by decide)
    rw [zpow_neg_one] at half
    linarith
  obtain ⟨near, measures, closeNear⟩ :=
    (measuresFirst.mul measuresSecond).exists_measures least (high.trans_lt small)
  exact ⟨_, near, toDouble?_up up bound measures, measures,
    close.trans closeNear (by positivity) (by positivity) (by norm_num)⟩

/-- A power of ten that is no double is divided out in two steps. -/
theorem scaleDown_twice {rest : Nat} (nonzero : (double == 0) = false) (some_rest : 0 < rest)
    (bound : rest ≤ maxScale) :
    scaleDown double (maxScale + rest) = double / powerOfTen maxScale / powerOfTen rest := by
  have large : ¬maxScale + rest ≤ maxScale := by omega
  rw [scaleDown, if_neg large, nonzero, Nat.add_sub_cancel_left, scaleDown, if_pos bound]
  rfl

/-- Two steps are enough for numbers in the normal range. -/
theorem le_of_normal {significand count : Nat} (positive : 0 < significand)
    (fits : significand < significandBound)
    (normal : (2 : ℚ) ^ (-1021 : Int) ≤ significand / 10 ^ count) : count ≤ maxScale + maxScale := by
  have some_digit : (0 : ℚ) < significand := by exact_mod_cast positive
  by_contra large
  have power : (10 : Nat) ^ (maxScale + maxScale) ≤ 10 ^ count :=
    Nat.pow_le_pow_right (by decide) (by omega)
  have cast : (10 : ℚ) ^ count ≤ significand * 2 ^ 1021 := by
    have inverse : (2 : ℚ) ^ (-1021 : Int) = (2 ^ 1021)⁻¹ := zpow_neg 2 1021
    rw [inverse, inv_le_comm₀ (by positivity) (by positivity), inv_div, div_le_iff₀ some_digit,
      mul_comm] at normal
    exact normal
  have natural : 10 ^ count ≤ significand * 2 ^ 1021 := by exact_mod_cast cast
  have product : significand * 2 ^ 1021 ≤ significandBound * 2 ^ 1021 :=
    Nat.mul_le_mul_right _ fits.le
  exact absurd (power.trans (natural.trans product)) maxScale_bounds.2.2.not_ge

/-- Quotients of significands are in the range of doubles. -/
theorem quotient_lt {significand : Nat} (fits : significand < significandBound) {part : ℚ}
    (small : part ≤ 1) (exponent : Nat) :
    (1 + part) * ((significand : ℚ) / 10 ^ exponent) < 2 ^ 1024 - 2 ^ 970 := by
  have word : (significand : ℚ) ≤ 2 ^ 64 := by exact_mod_cast fits.le
  have smaller : (significand : ℚ) / 10 ^ exponent ≤ significand :=
    div_le_self (Nat.cast_nonneg _) (one_le_pow₀ (by norm_num))
  have quotient : (0 : ℚ) ≤ significand / 10 ^ exponent := by positivity
  have twice : (1 + part) * ((significand : ℚ) / 10 ^ exponent) ≤ 2 ^ 65 := by
    calc (1 + part) * ((significand : ℚ) / 10 ^ exponent)
        ≤ 2 * (significand / 10 ^ exponent) := mul_le_mul_of_nonneg_right (by linarith) quotient
      _ ≤ 2 * 2 ^ 64 := by linarith
      _ = 2 ^ 65 := by norm_num
  exact lt_of_le_two_pow twice (by decide)

/-- Dividing a significand in one or two steps. -/
theorem exists_measures_scaleDown {significand count : Nat} (positive : 0 < significand)
    (fits : significand < significandBound) (measures : Measures double near)
    (close : Close (1 / 2 ^ 53) near significand)
    (normal : (2 : ℚ) ^ (-1021 : Int) ≤ significand / 10 ^ count) :
    ∃ next, Measures (scaleDown double count) next ∧
      Close (7 / 2 ^ 53) next (significand / 10 ^ count) := by
  have some_digit : (0 : ℚ) < significand := by exact_mod_cast positive
  have least : (0 : ℚ) < 2 ^ (-1022 : Int) := by positivity
  have double_normal : (2 : ℚ) ^ (-1021 : Int) = 2 * 2 ^ (-1022 : Int) := by
    rw [← zpow_one_add₀ two_ne_zero]
    rfl
  by_cases single : count ≤ maxScale
  · rw [scaleDown, if_pos single]
    exact exists_measures_divided (5 / 2 ^ 54) (7 / 2 ^ 53) measures close single some_digit
      (by positivity) (by norm_num) (by linarith) (quotient_lt fits (by norm_num) count)
      (by norm_num) (by norm_num)
  · obtain ⟨rest, rfl⟩ : ∃ rest, count = maxScale + rest := ⟨count - maxScale, by omega⟩
    have split : (significand : ℚ) / 10 ^ maxScale / 10 ^ rest =
        significand / 10 ^ (maxScale + rest) := by
      rw [div_div, ← pow_add]
    have shorter : (significand : ℚ) / 10 ^ (maxScale + rest) ≤ significand / 10 ^ maxScale := by
      rw [← split]
      exact div_le_self (by positivity) (one_le_pow₀ (by norm_num))
    have bound := le_of_normal positive fits normal
    obtain ⟨middle, measuresMiddle, closeMiddle⟩ := exists_measures_divided (5 / 2 ^ 54) (4 / 2 ^ 53)
      measures close (le_refl maxScale) some_digit (by positivity) (by norm_num) (by linarith)
      (quotient_lt fits (by norm_num) maxScale) (by norm_num) (by norm_num)
    rw [scaleDown_twice measures.ne_zero (by omega) (by omega), ← split]
    exact exists_measures_divided (11 / 2 ^ 54) (7 / 2 ^ 53) measuresMiddle closeMiddle (by omega)
      (by positivity) (by positivity) (by norm_num) (by rw [split]; linarith)
      (by rw [split]; exact quotient_lt fits (by norm_num) _) (by norm_num) (by norm_num)

/-- Scaling down keeps a number in the normal range near to it. -/
theorem Scaled.exists_toDouble?_down (positive : 0 < scaled.significand)
    (fits : scaled.significand < significandBound) (down : scaled.exponent < 0)
    (normal : (2 : ℚ) ^ (-1021 : Int) ≤ scaled.value) :
    ∃ double near, scaled.toDouble? = some double ∧ Measures double near ∧
      Close (7 / 2 ^ 53) near scaled.value := by
  rw [value_of_neg down] at normal ⊢
  obtain ⟨first, measures, close⟩ := exists_measures_significand positive fits
  obtain ⟨near, scaledMeasures, scaledClose⟩ :=
    exists_measures_scaleDown positive fits measures close normal
  exact ⟨_, near, if_pos down, scaledMeasures, scaledClose⟩

/-- Scaling is a single rounding when the significand and the power of ten are doubles. -/
theorem Scaled.exists_toDouble?_exact (positive : 0 < scaled.significand)
    (short : scaled.significand < 2 ^ 53) (small : scaled.exponent.natAbs ≤ 22) :
    ∃ double, scaled.toDouble? = some double ∧ RoundedFrom double scaled.value := by
  have word : scaled.significand.toUInt64.toNat = scaled.significand :=
    Nat.mod_eq_of_lt (short.trans (by decide))
  have significand : Measures scaled.significand.toUInt64.toFloat scaled.significand := by
    have some_digit : 0 < scaled.significand.toUInt64.toNat := by omega
    have measures := measures_toFloat some_digit (by omega)
    rwa [word] at measures
  have power := measures_powerOfTen small
  have bound : scaled.exponent.natAbs ≤ maxScale := small.trans (by decide)
  have one : (1 : ℚ) ≤ scaled.significand := by exact_mod_cast positive
  have most : (scaled.significand : ℚ) < 2 ^ 53 := by exact_mod_cast short
  have range : (10 : ℚ) ^ scaled.exponent.natAbs ≤ 10 ^ 22 := pow_le_pow_right₀ (by norm_num) small
  rcases lt_or_ge scaled.exponent 0 with down | up
  · have large : (2 : ℚ) ^ (-1074 : Int) ≤ scaled.significand / 10 ^ scaled.exponent.natAbs := by
      rw [le_div_iff₀ (by positivity)]
      calc (2 : ℚ) ^ (-1074 : Int) * 10 ^ scaled.exponent.natAbs
          ≤ 2 ^ (-80 : Int) * 10 ^ 22 :=
            mul_le_mul (zpow_le_zpow_right₀ one_le_two (by decide)) range (by positivity)
              (by positivity)
        _ ≤ scaled.significand := one.trans' (by norm_num)
    refine ⟨_, ?_, value_of_neg down ▸ significand.div power large⟩
    rw [Scaled.toDouble?, if_pos down, scaleDown, if_pos bound]
  · have rounded := significand.mul power
    have normal : (2 : ℚ) ^ (-1022 : Int) ≤
        scaled.significand * 10 ^ scaled.exponent.natAbs :=
      (zpow_le_one_of_nonpos₀ one_le_two (by decide)).trans (one_le_mul_pow positive _)
    have product : (scaled.significand : ℚ) * 10 ^ scaled.exponent.natAbs ≤ 2 ^ 128 :=
      (mul_le_mul most.le range (by positivity) (by positivity)).trans (by norm_num)
    obtain ⟨near, measures, -⟩ :=
      rounded.exists_measures normal (lt_of_le_two_pow product (by decide))
    exact ⟨_, toDouble?_up up bound measures, value_of_nonneg up ▸ rounded⟩

end Scaling

end Dataflow.Decimal
