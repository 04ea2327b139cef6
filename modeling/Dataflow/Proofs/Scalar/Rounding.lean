import Dataflow.Proofs.Scalar.Precision

/-!
# Rounding to the nearest number

A significand with a round bit and a sticky bit stands for a rational number up to what rounding
needs to know of it.  Shifting and rounding such significands gives the nearest number of a format,
and of two numbers that are equally near the one with the even significand.
-/

namespace Dataflow

open Float.Model (Format UnpackedFloat totalExponent)
open Float.Model.UnpackedFloat

/-- A power with an exponent of either sign is a power with a divisor. -/
theorem zpow_mul_pow_toNat {base : ℚ} (nonzero : base ≠ 0) (exponent : Int) :
    base ^ exponent * base ^ (-exponent).toNat = base ^ exponent.toNat := by
  rw [← zpow_natCast, ← zpow_natCast, ← zpow_add₀ nonzero]
  congr 1
  omega

/-! ## Round and sticky bits -/

/-- The numbers that a significand stands for, in units of its last place. -/
inductive Shows : ExtendedMantissa → ℚ → Prop
  | exact (mantissa : Nat) : Shows ⟨mantissa, false, false⟩ mantissa
  | low {mantissa : Nat} {value : ℚ} (above : mantissa < value) (below : value < mantissa + 1 / 2) :
      Shows ⟨mantissa, false, true⟩ value
  | half (mantissa : Nat) : Shows ⟨mantissa, true, false⟩ (mantissa + 1 / 2)
  | high {mantissa : Nat} {value : ℚ} (above : mantissa + 1 / 2 < value)
      (below : value < mantissa + 1) : Shows ⟨mantissa, true, true⟩ value

/-- A whole number nearest to a value, and even if there are two. -/
structure Nearest (whole : Nat) (value : ℚ) : Prop where
  above : value ≤ whole + 1 / 2
  below : whole - 1 / 2 ≤ value
  even : value = whole + 1 / 2 ∨ value = whole - 1 / 2 → Even whole

section Significands

variable {extended : ExtendedMantissa} {value : ℚ}

/-- Only one number is nearest. -/
theorem Nearest.unique {first second : Nat} (left : Nearest first value)
    (right : Nearest second value) : first = second := by
  wlog ordered : first ≤ second generalizing first second
  · exact (this right left (by omega)).symm
  by_contra different
  have next : first + 1 ≤ second := by omega
  have bound : (first : ℚ) + 1 ≤ second := by exact_mod_cast next
  have upper := left.above
  have lower := right.below
  have middle : value = first + 1 / 2 := by linarith
  have other : value = second - 1 / 2 := by linarith
  have successor : second = first + 1 := by
    have sum : (second : ℚ) = first + 1 := by linarith
    exact_mod_cast sum
  have evenFirst := left.even (.inl middle)
  have evenSecond := right.even (.inr other)
  rw [successor, Nat.even_add_one] at evenSecond
  exact evenSecond evenFirst

/-- The nearest number is not below a whole bound. -/
theorem Nearest.le_of_le {whole bound : Nat} (nearest : Nearest whole value) (low : bound ≤ value) :
    bound ≤ whole := by
  have less : (bound : ℚ) < whole + 1 := by linarith [nearest.above]
  have cast : bound < whole + 1 := by exact_mod_cast less
  omega

/-- The nearest number is not above a whole bound. -/
theorem Nearest.le_of_lt {whole bound : Nat} (nearest : Nearest whole value) (high : value < bound) :
    whole ≤ bound := by
  have less : (whole : ℚ) < bound + 1 := by linarith [nearest.below]
  have cast : whole < bound + 1 := by exact_mod_cast less
  omega

/-- The error of rounding to multiples of a unit. -/
theorem Nearest.abs_sub_le {whole : Nat} {unit : Int} (nearest : Nearest whole (value / 2 ^ unit)) :
    |whole * 2 ^ unit - value| ≤ 2 ^ unit / 2 := by
  have pace : (0 : ℚ) < 2 ^ unit := by positivity
  have above := nearest.above
  have under := nearest.below
  have gap : |(whole : ℚ) - value / 2 ^ unit| ≤ 1 / 2 := abs_le.mpr ⟨by linarith, by linarith⟩
  calc |(whole : ℚ) * 2 ^ unit - value|
      = |(whole : ℚ) - value / 2 ^ unit| * 2 ^ unit := by
        rw [← abs_of_pos pace, ← abs_mul, abs_of_pos pace, sub_mul, div_mul_cancel₀ _ pace.ne']
    _ ≤ 1 / 2 * 2 ^ unit := mul_le_mul_of_nonneg_right gap pace.le
    _ = 2 ^ unit / 2 := by ring

/-- The bits say which whole number is nearest. -/
theorem Shows.nearest (shows : Shows extended value) : Nearest extended.roundedMantissa value := by
  cases shows with
  | exact mantissa =>
      change Nearest mantissa mantissa
      constructor
      · linarith
      · linarith
      · rintro (tie | tie) <;> linarith
  | @low mantissa value above below =>
      change Nearest mantissa value
      constructor
      · linarith
      · linarith
      · rintro (tie | tie) <;> linarith
  | half mantissa =>
      change Nearest (mantissa + mantissa % 2) _
      rcases Nat.even_or_odd mantissa with even | odd
      · rw [Nat.even_iff.mp even, Nat.add_zero]
        exact ⟨le_refl _, by linarith, fun _ => even⟩
      · rw [Nat.odd_iff.mp odd]
        constructor
        · push_cast
          linarith
        · push_cast
          linarith
        · exact fun _ => odd.add_one
  | @high mantissa value above below =>
      change Nearest (mantissa + 1) value
      constructor
      · push_cast
        linarith
      · push_cast
        linarith
      · push_cast
        rintro (tie | tie) <;> linarith

/-- A shift halves the value.  The bit that leaves the significand becomes the round bit. -/
theorem Shows.shiftRightOne (shows : Shows extended value) :
    Shows extended.shiftRightOne (value / 2) := by
  obtain ⟨half, parity⟩ := Nat.even_or_odd' extended.mantissa
  rcases parity with even | odd
  · have quotient : extended.mantissa / 2 = half := by omega
    have bit : (extended.mantissa % 2 != 0) = false := by simp [even]
    rw [ExtendedMantissa.shiftRightOne, quotient, bit]
    cases shows with
    | exact mantissa =>
        obtain rfl : mantissa = 2 * half := even
        have same : ((2 * half : Nat) : ℚ) / 2 = half := by
          push_cast
          ring
        rw [same]
        exact .exact half
    | low above below =>
        simp only at even
        subst even
        push_cast at above below
        exact .low (by linarith) (by linarith)
    | half mantissa =>
        obtain rfl : mantissa = 2 * half := even
        push_cast
        exact .low (by linarith) (by linarith)
    | high above below =>
        simp only at even
        subst even
        push_cast at above below
        exact .low (by linarith) (by linarith)
  · have quotient : extended.mantissa / 2 = half := by omega
    have bit : (extended.mantissa % 2 != 0) = true := by simp [odd]
    rw [ExtendedMantissa.shiftRightOne, quotient, bit]
    cases shows with
    | exact mantissa =>
        obtain rfl : mantissa = 2 * half + 1 := odd
        have same : ((2 * half + 1 : Nat) : ℚ) / 2 = half + 1 / 2 := by
          push_cast
          ring
        rw [same]
        exact .half half
    | low above below =>
        simp only at odd
        subst odd
        push_cast at above below
        exact .high (by linarith) (by linarith)
    | half mantissa =>
        obtain rfl : mantissa = 2 * half + 1 := odd
        push_cast
        exact .high (by linarith) (by linarith)
    | high above below =>
        simp only at odd
        subst odd
        push_cast at above below
        exact .high (by linarith) (by linarith)

theorem Shows.shiftRight (shows : Shows extended value) (shift : Nat) :
    Shows (extended >>> shift) (value / 2 ^ shift) := by
  induction shift with
  | zero =>
      rw [pow_zero, div_one]
      exact shows
  | succ shift ih =>
      rw [pow_succ, ← div_div]
      exact ih.shiftRightOne

theorem Shows.bounds (shows : Shows extended value) :
    (extended.mantissa : ℚ) ≤ value ∧ value < extended.mantissa + 1 := by
  cases shows with
  | exact mantissa => exact ⟨le_refl _, by simp⟩
  | low above below => exact ⟨by linarith, by linarith⟩
  | half mantissa => exact ⟨by simp, by linarith⟩
  | high above below => exact ⟨by linarith, by linarith⟩

/-- A fraction shows in its quotient and the remainder. -/
theorem shows_fraction (numerator : Nat) {denominator : Nat} (positive : 0 < denominator) :
    Shows (.ofMantissaAndAccuracy (numerator / denominator)
      (accuracyOfFraction (numerator % denominator) denominator)) (numerator / denominator) := by
  have bound := Nat.mod_lt numerator positive
  have whole : ((numerator / denominator : Nat) : ℚ) * denominator + (numerator % denominator : Nat) =
      numerator := by
    exact_mod_cast Nat.div_add_mod' numerator denominator
  have split : (numerator : ℚ) / denominator =
      (numerator / denominator : Nat) + (numerator % denominator : Nat) / (denominator : ℚ) := by
    rw [← whole]
    field_simp
  have positiveCast : (0 : ℚ) < denominator := by exact_mod_cast positive
  rw [split]
  generalize numerator / denominator = quotient
  generalize numerator % denominator = remainder at bound
  unfold accuracyOfFraction
  split_ifs with zero
  · rw [zero, Nat.cast_zero, zero_div, add_zero]
    exact .exact quotient
  · have some_remainder : (0 : ℚ) < remainder := by exact_mod_cast Nat.pos_of_ne_zero zero
    have small : (remainder : ℚ) / denominator < 1 := by
      rw [div_lt_one positiveCast]
      exact_mod_cast bound
    have large : (0 : ℚ) < remainder / denominator := div_pos some_remainder positiveCast
    rcases lt_trichotomy (2 * remainder) denominator with less | same | more
    · rw [compare_lt_iff_lt.mpr less]
      have cast : (2 * remainder : ℚ) < denominator := by exact_mod_cast less
      have below : (remainder : ℚ) / denominator < 1 / 2 := by
        rw [div_lt_div_iff₀ positiveCast two_pos]
        linarith
      exact .low (by linarith) (by linarith)
    · rw [compare_eq_iff_eq.mpr same]
      have cast : (2 * remainder : ℚ) = denominator := by exact_mod_cast same
      have middle : (remainder : ℚ) / denominator = 1 / 2 := by
        rw [div_eq_div_iff positiveCast.ne' two_ne_zero]
        linarith
      rw [middle]
      exact .half quotient
    · rw [compare_gt_iff_gt.mpr more]
      have cast : (denominator : ℚ) < 2 * remainder := by exact_mod_cast more
      have above : 1 / 2 < (remainder : ℚ) / denominator := by
        rw [div_lt_div_iff₀ two_pos positiveCast]
        linarith
      exact .high (by linarith) (by linarith)

end Significands

/-! ## Rounding to a target exponent -/

section Targets

variable {format : Format} {mantissa whole : Nat} {exponent target : Int} {accuracy : Accuracy}
  {value : ℚ}

@[simp]
theorem mantissa_ofMantissaAndAccuracy (mantissa : Nat) (accuracy : Accuracy) :
    (ExtendedMantissa.ofMantissaAndAccuracy mantissa accuracy).mantissa = mantissa := by
  rcases accuracy with _ | order
  · rfl
  · cases order <;> rfl

/-- The total exponent says between which powers of two a number lies. -/
theorem bounds_totalExponent (positive : 0 < mantissa)
    (shows : Shows (.ofMantissaAndAccuracy mantissa accuracy) (value / 2 ^ exponent)) :
    (2 : ℚ) ^ (totalExponent mantissa exponent - 1) ≤ value ∧
      value < 2 ^ totalExponent mantissa exponent := by
  obtain ⟨low, high⟩ := shows.bounds
  rw [mantissa_ofMantissaAndAccuracy] at low high
  obtain ⟨least, most⟩ := (Nat.log2_eq_iff (Nat.ne_of_gt positive)).mp rfl
  have unit : (0 : ℚ) < 2 ^ exponent := by positivity
  have leastCast : (2 : ℚ) ^ mantissa.log2 ≤ mantissa := by exact_mod_cast least
  have mostCast : (mantissa : ℚ) + 1 ≤ 2 ^ (mantissa.log2 + 1) := by exact_mod_cast most
  constructor
  · have split : totalExponent mantissa exponent - 1 = mantissa.log2 + exponent := by
      rw [totalExponent]
      ring
    rw [split, zpow_add₀ two_ne_zero, zpow_natCast, ← le_div_iff₀ unit]
    exact leastCast.trans low
  · have split : totalExponent mantissa exponent = (mantissa.log2 + 1 : Nat) + exponent := by
      rw [totalExponent]
      push_cast
      ring
    rw [split, zpow_add₀ two_ne_zero, zpow_natCast, ← div_lt_iff₀ unit]
    exact high.trans_le mostCast

/-- The first shift brings the number to the target exponent, where it is rounded to the nearest
significand. -/
theorem exists_shiftToTargetExponent
    (shows : Shows (.ofMantissaAndAccuracy mantissa accuracy) (value / 2 ^ exponent))
    (aims : format.targetExponent (totalExponent mantissa exponent) = target)
    (below : exponent ≤ target) :
    ∃ extended, shiftToTargetExponent format mantissa exponent accuracy = (extended, target) ∧
      Nearest extended.roundedMantissa (value / 2 ^ target) := by
  obtain ⟨shift, amount⟩ := Int.le.dest below
  have count : (target - exponent).toNat = shift := by omega
  refine ⟨ExtendedMantissa.ofMantissaAndAccuracy mantissa accuracy >>> shift, ?_, ?_⟩
  · simp only [UnpackedFloat.shiftToTargetExponent, aims, shiftToExponent, count, amount]
  · have shifted := shows.shiftRight shift
    rw [div_div, ← zpow_natCast, ← zpow_add₀ two_ne_zero, amount] at shifted
    exact shifted.nearest

/-- Rounding to a significand in canonical form. -/
theorem roundWithAccuracy_eq
    (shows : Shows (.ofMantissaAndAccuracy mantissa accuracy) (value / 2 ^ exponent))
    (aims : format.targetExponent (totalExponent mantissa exponent) = target)
    (below : exponent ≤ target) (nearest : Nearest whole (value / 2 ^ target))
    (canonical : Canonical format whole target) (positive : 0 < whole) (sign : Sign) :
    roundWithAccuracy format sign mantissa exponent accuracy =
      .finite sign whole target positive := by
  obtain ⟨extended, shifted, own⟩ := exists_shiftToTargetExponent shows aims below
  have rounded := own.unique nearest
  unfold UnpackedFloat.roundWithAccuracy
  simp only [shifted, rounded, canonical.shiftToTargetExponent, Nat.ne_of_gt positive, dite_false]

/-- Rounding up to the next power of two. -/
theorem roundWithAccuracy_carry {places : Nat} (size : format.mantissaBits = places + 1)
    (shows : Shows (.ofMantissaAndAccuracy mantissa accuracy) (value / 2 ^ exponent))
    (aims : format.targetExponent (totalExponent mantissa exponent) = target)
    (below : exponent ≤ target) (nearest : Nearest (2 ^ (places + 1)) (value / 2 ^ target))
    (least : format.minExponent ≤ target) (sign : Sign) :
    roundWithAccuracy format sign mantissa exponent accuracy =
      .finite sign (2 ^ places) (target + 1) (by positivity) := by
  obtain ⟨extended, shifted, own⟩ := exists_shiftToTargetExponent shows aims below
  have rounded := own.unique nearest
  have again : shiftToTargetExponent format (2 ^ (places + 1)) target .exact =
      (⟨2 ^ places, false, false⟩, target + 1) := by
    have aims : format.targetExponent (totalExponent (2 ^ (places + 1)) target) = target + 1 := by
      simp only [Format.targetExponent, totalExponent, Nat.log2_two_pow, size]
      omega
    have count : (target + 1 - target).toNat = 1 := by omega
    have half : (⟨2 ^ (places + 1), false, false⟩ : ExtendedMantissa) >>> 1 =
        ⟨2 ^ places, false, false⟩ := by
      have zeros := extended_shiftRight 1 places 1
      simpa [Nat.shiftLeft_eq] using zeros
    simp only [UnpackedFloat.shiftToTargetExponent, aims, shiftToExponent, count,
      ExtendedMantissa.ofMantissaAndAccuracy, half, Nat.cast_one]
  unfold UnpackedFloat.roundWithAccuracy
  simp only [shifted, rounded, again, Nat.pow_eq_zero, OfNat.ofNat_ne_zero, false_and, dite_false]

/-- The numbers that are rounded to a positive float.  Below a power of two the gap between floats is
half as wide. -/
structure RoundsTo (format : Format) (whole : Nat) (target : Int) (value : ℚ) : Prop where
  nearest : Nearest whole (value / 2 ^ target)
  narrow : whole = 2 ^ (format.mantissaBits - 1) → format.minExponent < target →
    whole - 1 / 4 ≤ value / 2 ^ target

/-- Rounding aims at the exponent of the float that a number is rounded to, unless the number lies
below a power of two. -/
theorem RoundsTo.targetExponent_cases {places : Nat} (rounds : RoundsTo format whole target value)
    (size : format.mantissaBits = places + 1) (some_place : 1 ≤ places)
    (canonical : Canonical format whole target) (positive : 0 < whole) {total : Int}
    (least : (2 : ℚ) ^ (total - 1) ≤ value) (most : value < 2 ^ total) :
    format.targetExponent total = target ∨
      format.targetExponent total = target - 1 ∧ format.minExponent < target ∧
        whole = 2 ^ places ∧ value / 2 ^ target < whole := by
  have aims : format.targetExponent total = max (total - (places + 1 : Nat)) format.minExponent := by
    rw [Format.targetExponent, size]
  have own : max ((whole.log2 : Int) + 1 + target - (places + 1 : Nat)) format.minExponent =
      target := by
    rw [← size]
    exact canonical
  have unit : (0 : ℚ) < 2 ^ target := by positivity
  have above := rounds.nearest.above
  have under := rounds.nearest.below
  obtain ⟨low, high⟩ := (Nat.log2_eq_iff (Nat.ne_of_gt positive)).mp (rfl : whole.log2 = whole.log2)
  have before : ∀ count : Nat, (2 : ℚ) ^ count ≤ value / 2 ^ target → count + target < total := by
    intro count large
    have less : (2 : ℚ) ^ (count + target) < 2 ^ total := by
      rw [zpow_add₀ two_ne_zero, zpow_natCast]
      exact ((le_div_iff₀ unit).mp large).trans_lt most
    exact (zpow_lt_zpow_iff_right₀ one_lt_two).mp less
  have after : ∀ count : Nat, value / 2 ^ target < 2 ^ count → total ≤ count + target := by
    intro count small
    have less : (2 : ℚ) ^ (total - 1) < 2 ^ (count + target) := by
      rw [zpow_add₀ two_ne_zero, zpow_natCast]
      exact least.trans_lt ((div_lt_iff₀ unit).mp small)
    have := (zpow_lt_zpow_iff_right₀ one_lt_two).mp less
    omega
  have fits : (whole : ℚ) + 1 ≤ 2 ^ (places + 1) := by
    have short : whole.log2 + 1 ≤ places + 1 := by omega
    exact_mod_cast Nat.succ_le_of_lt (high.trans_le (Nat.pow_le_pow_right two_pos short))
  have top := after (places + 1) (by linarith)
  by_cases smallest : target = format.minExponent
  · exact .inl (by omega)
  · have full : whole.log2 = places := by omega
    rw [full] at low
    have lowCast : (2 : ℚ) ^ places ≤ whole := by exact_mod_cast low
    by_cases inside : (2 : ℚ) ^ places ≤ value / 2 ^ target
    · have large := before places inside
      exact .inl (by omega)
    · rw [not_le] at inside
      have power : whole = 2 ^ places := by
        have less : (whole : ℚ) < 2 ^ places + 1 := by linarith
        have bound : whole < 2 ^ places + 1 := by exact_mod_cast less
        omega
      have exact_power : (whole : ℚ) = 2 ^ places := by exact_mod_cast power
      have quarter := rounds.narrow (by rw [size, Nat.add_sub_cancel]; exact power) (by omega)
      obtain ⟨fewer, split⟩ : ∃ fewer, places = fewer + 1 := ⟨places - 1, by omega⟩
      have half : (2 : ℚ) ^ places = 2 * 2 ^ fewer := by rw [split, pow_succ, mul_comm]
      have one : (1 : ℚ) ≤ 2 ^ fewer := one_le_pow₀ one_le_two
      have large := before fewer (by linarith)
      have small := after places inside
      exact .inr ⟨by omega, by omega, power, by rw [exact_power]; exact inside⟩

/-- Rounding gives the float that a number is rounded to. -/
theorem RoundsTo.roundWithAccuracy_eq (rounds : RoundsTo format whole target value)
    (canonical : Canonical format whole target) (positive : 0 < whole)
    (shows : Shows (.ofMantissaAndAccuracy mantissa accuracy) (value / 2 ^ exponent))
    (some_bit : 0 < mantissa)
    (below : exponent ≤ format.targetExponent (totalExponent mantissa exponent)) (sign : Sign) :
    roundWithAccuracy format sign mantissa exponent accuracy =
      .finite sign whole target positive := by
  have stored := format.hm
  have size : format.mantissaBits = format.mantissaBitsWithoutImplicit + 1 := Nat.add_comm _ _
  obtain ⟨least, most⟩ := bounds_totalExponent some_bit shows
  rcases rounds.targetExponent_cases size stored canonical positive least most with
    aims | ⟨aims, above, power, small⟩
  · exact Dataflow.roundWithAccuracy_eq shows aims (aims ▸ below) rounds.nearest canonical positive
      sign
  · have quarter := rounds.narrow (by rw [size, Nat.add_sub_cancel]; exact power) above
    have double : value / 2 ^ (target - 1) = 2 * (value / 2 ^ target) := by
      rw [zpow_sub_one₀ two_ne_zero]
      field_simp
    have exact_power : (whole : ℚ) = 2 ^ format.mantissaBitsWithoutImplicit := by
      exact_mod_cast power
    have nearest : Nearest (2 ^ (format.mantissaBitsWithoutImplicit + 1)) (value / 2 ^ (target - 1)) := by
      rw [double]
      constructor
      · push_cast
        rw [pow_succ, ← exact_power]
        linarith
      · push_cast
        rw [pow_succ, ← exact_power]
        linarith
      · exact fun _ => (Nat.even_pow.mpr ⟨even_two, by omega⟩)
    have carried := roundWithAccuracy_carry size shows aims (aims ▸ below) nearest (by omega) sign
    rw [carried]
    simp only [power, Int.sub_add_cancel]

/-- A number that is not too small is rounded to a float with all its places.  The error is at most
half of a unit in the last place. -/
theorem exists_roundWithAccuracy {places : Nat} (size : format.mantissaBits = places + 1)
    (shows : Shows (.ofMantissaAndAccuracy mantissa accuracy) (value / 2 ^ exponent))
    (some_bit : 0 < mantissa)
    (below : exponent ≤ format.targetExponent (totalExponent mantissa exponent))
    (normal : (2 : ℚ) ^ (format.minExponent + places) ≤ value) (sign : Sign) :
    ∃ whole target, ∃ positive : 0 < whole,
      roundWithAccuracy format sign mantissa exponent accuracy =
        .finite sign whole target positive ∧
      whole.log2 = places ∧ format.minExponent ≤ target ∧
      ∃ unit : Int, (2 : ℚ) ^ (unit + places) ≤ value ∧
        |whole * 2 ^ target - value| ≤ 2 ^ unit / 2 := by
  obtain ⟨least, most⟩ := bounds_totalExponent some_bit shows
  have total : format.minExponent + places < totalExponent mantissa exponent :=
    (zpow_lt_zpow_iff_right₀ one_lt_two).mp (normal.trans_lt most)
  obtain ⟨unit, isUnit⟩ : ∃ unit, unit + places = totalExponent mantissa exponent - 1 :=
    ⟨totalExponent mantissa exponent - 1 - places, by ring⟩
  have aims : format.targetExponent (totalExponent mantissa exponent) = unit := by
    rw [Format.targetExponent, size]
    push_cast
    omega
  rw [← isUnit] at least
  have next : totalExponent mantissa exponent = (places + 1 : Nat) + unit := by
    push_cast
    omega
  have pace : (0 : ℚ) < 2 ^ unit := by positivity
  have low : (2 : ℚ) ^ places ≤ value / 2 ^ unit := by
    rw [le_div_iff₀ pace, ← zpow_natCast, ← zpow_add₀ two_ne_zero, Int.add_comm]
    exact least
  have high : value / 2 ^ unit < 2 ^ (places + 1) := by
    rw [div_lt_iff₀ pace, ← zpow_natCast, ← zpow_add₀ two_ne_zero, ← next]
    exact most
  obtain ⟨extended, -, nearest⟩ := exists_shiftToTargetExponent shows aims (aims ▸ below)
  generalize extended.roundedMantissa = whole at nearest
  have large : 2 ^ places ≤ whole := nearest.le_of_le (by exact_mod_cast low)
  have small : whole ≤ 2 ^ (places + 1) := nearest.le_of_lt (by exact_mod_cast high)
  have positive : 0 < whole := (by positivity : 0 < 2 ^ places).trans_le large
  by_cases carry : whole = 2 ^ (places + 1)
  · subst carry
    refine ⟨2 ^ places, unit + 1, by positivity,
      roundWithAccuracy_carry size shows aims (aims ▸ below) nearest (by omega) sign,
      Nat.log2_two_pow, by omega, unit, least, ?_⟩
    have same : ((2 ^ places : Nat) : ℚ) * 2 ^ (unit + 1) = (2 ^ (places + 1) : Nat) * 2 ^ unit := by
      push_cast
      rw [pow_succ, zpow_add_one₀ two_ne_zero]
      ring
    rw [same]
    exact nearest.abs_sub_le
  · have log : whole.log2 = places :=
      (Nat.log2_eq_iff (Nat.ne_of_gt positive)).mpr ⟨large, by omega⟩
    have canonical : Canonical format whole unit := by
      simp only [Canonical, Format.targetExponent, totalExponent, size, log]
      omega
    exact ⟨whole, unit, positive, roundWithAccuracy_eq shows aims (aims ▸ below) nearest canonical
      positive sign, log, by omega, unit, least, nearest.abs_sub_le⟩

/-- A number with a significand shows in it. -/
theorem shows_exact (mantissa : Nat) (exponent : Int) :
    Shows (.ofMantissaAndAccuracy mantissa .exact) (mantissa * 2 ^ exponent / 2 ^ exponent) := by
  rw [mul_div_cancel_right₀ _ (by positivity)]
  exact .exact mantissa

/-- Before a number is rounded its exponent is made small enough. -/
theorem exists_round_eq (format : Format) (positive : 0 < mantissa) (sign : Sign) (exponent : Int) :
    ∃ moved lower, round format sign mantissa exponent =
        roundWithAccuracy format sign moved lower .exact ∧ 0 < moved ∧
      lower ≤ format.targetExponent (totalExponent moved lower) ∧
      (moved : ℚ) * 2 ^ lower = mantissa * 2 ^ exponent := by
  let shift := (exponent - format.targetExponent (totalExponent mantissa exponent)).toNat
  refine ⟨mantissa <<< shift, exponent - shift, rfl, Nat.shiftLeft_pos_iff.mpr positive, ?_, ?_⟩
  · rw [totalExponent_shiftLeft positive]
    omega
  · rw [Nat.shiftLeft_eq, Nat.cast_mul, Nat.cast_pow, Nat.cast_ofNat, zpow_sub₀ two_ne_zero,
      zpow_natCast]
    field_simp

theorem RoundsTo.round_eq {sign : Sign} (rounds : RoundsTo format whole target (mantissa * 2 ^ exponent))
    (canonical : Canonical format whole target) (positive : 0 < whole) (some_bit : 0 < mantissa) :
    round format sign mantissa exponent = .finite sign whole target positive := by
  obtain ⟨moved, lower, eq, movedPositive, below, same⟩ :=
    exists_round_eq format some_bit sign exponent
  rw [eq]
  exact rounds.roundWithAccuracy_eq canonical positive (same ▸ shows_exact moved lower)
    movedPositive below sign

end Targets

end Dataflow
