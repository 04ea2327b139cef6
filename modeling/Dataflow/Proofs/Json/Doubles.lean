import Dataflow.Proofs.Decimal.Scaling
import Dataflow.Proofs.Json.RoundTrip

/-!
# Doubles that went through texts

A double is written with the shortest digits that are rounded to it, but reading these takes three
roundings.  So a double is read as one that is near to it and has its sign, and as itself if both the
digits and the power of ten that scales them are doubles.
-/

namespace Dataflow

open Decimal (Scaled Stands significandBound shortest shortest_spec shortest_pos denotes_unpackedText)
open Float.Model (Format UnpackedFloat totalExponent)
open Float.Model.UnpackedFloat

namespace Json

/-! ## Literals in short -/

/-- Digits that fit are all taken. -/
theorem takeDigits_eq {significand : Nat} {digits : List Nat}
    (fits : significand * 10 ^ digits.length + ofDigits digits < significandBound) :
    Decimal.takeDigits significand digits =
      (significand * 10 ^ digits.length + ofDigits digits, digits.length) := by
  induction digits generalizing significand with
  | nil => simp [Decimal.takeDigits, ofDigits]
  | cons digit rest ih =>
      have next : significand * 10 ^ (digit :: rest).length + ofDigits (digit :: rest) =
          (significand * 10 + digit) * 10 ^ rest.length + ofDigits rest := by
        rw [← List.singleton_append, ofDigits_append, ofDigits_singleton, List.singleton_append,
          List.length_cons, pow_succ]
        ring
      rw [next] at fits ⊢
      have least : significand * 10 + digit < significandBound :=
        (Nat.le_add_right_of_le (Nat.le_mul_of_pos_right _ (by positivity))).trans_lt fits
      simp only [Decimal.takeDigits, least, if_true, ih fits, List.length_cons]

namespace Numeral

variable {numeral : Numeral}

/-- The significand of a literal with the exponent that scales it. -/
def scaled (numeral : Numeral) : Scaled :=
  ⟨numeral.significand, numeral.scale⟩

theorem value_scaled (numeral : Numeral) : numeral.scaled.value = numeral.magnitude :=
  rfl

/-- A literal of a short significand is scaled and gets a sign. -/
theorem double?_eq (fits : numeral.significand < significandBound) :
    numeral.double? = numeral.scaled.toDouble?.map fun value =>
      if numeral.negative then -value else value := by
  have split : numeral.significand = ofDigits numeral.whole *
      10 ^ (numeral.fraction.getD []).length + ofDigits (numeral.fraction.getD []) :=
    ofDigits_append _ _
  have whole : Decimal.takeDigits 0 numeral.whole =
      (ofDigits numeral.whole, numeral.whole.length) := by
    have first : 0 * 10 ^ numeral.whole.length + ofDigits numeral.whole < significandBound := by
      rw [Nat.zero_mul, Nat.zero_add]
      refine lt_of_le_of_lt ?_ fits
      rw [split]
      exact Nat.le_add_right_of_le (Nat.le_mul_of_pos_right _ (by positivity))
    have taken := takeDigits_eq first
    rwa [Nat.zero_mul, Nat.zero_add] at taken
  have digits : Scaled.ofDigits numeral.whole (numeral.fraction.getD [])
      (numeral.exponent.getD 0) = numeral.scaled := by
    simp only [Scaled.ofDigits, whole, takeDigits_eq (split ▸ fits), ← split, scaled, scale,
      Nat.sub_self, Nat.cast_zero, Int.add_zero]
  rw [double?, digits]

end Numeral

/-! ## Signs -/

section Doubles

variable {sign : Sign} {double : Float} {mantissa : Nat} {exponent : Int} {positive : 0 < mantissa}
  {numeral : Numeral}

/-- A positive double with a sign. -/
def withSign (sign : Sign) (double : Float) : Float :=
  if sign == .negative then -double else double

/-- A sign is put in front of a normal double. -/
theorem unpack_withSign (unpacked : double.toModel.unpack = .finite .positive mantissa exponent positive)
    (log : mantissa.log2 = 52) (low : -1074 ≤ exponent) (high : exponent ≤ 971) (sign : Sign) :
    (withSign sign double).toModel.unpack = .finite sign mantissa exponent positive := by
  cases sign with
  | positive => exact unpacked
  | negative =>
      change (Float.Model.pack double.toModel.unpack.neg).unpack = _
      rw [unpacked]
      exact unpack_pack log low high positive

/-! ## Texts -/

/-- A literal in a text of a double. -/
structure Tells (numeral : Numeral) (sign : Sign) (mantissa : Nat) (exponent : Int) : Prop where
  negative : numeral.negative = (sign == .negative)
  notInteger : numeral.integer? = none
  some_digit : 0 < numeral.significand
  fits : numeral.significand < significandBound
  rounds : RoundsTo .binary64 mantissa exponent numeral.magnitude

/-- The text of a double is a literal, whose digits are rounded to the double. -/
theorem exists_tells (unpacked : double.toModel.unpack = .finite sign mantissa exponent positive) :
    ∃ numeral, Numeral.read? (Number.double double).text.toList = some numeral ∧
      Tells numeral sign mantissa exponent := by
  obtain ⟨-, least, most, short⟩ := canonical_of_unpack (by decide) unpacked
  have minimum : Format.binary64.minExponent = -1074 := rfl
  have places : Format.binary64.mantissaBits = 53 := rfl
  have maximum : (2 : Int) ^ (Format.binary64.exponentBits - 1) = 1024 := rfl
  let style := Decimal.Style.jsonDouble
  let decimal := shortest style.tie .binary64 mantissa exponent
  obtain ⟨numeral, read, stands⟩ : Decimal.Denotes
      (style.unpackedText .binary64 (.finite sign mantissa exponent positive)).toList _ _ decimal :=
    denotes_unpackedText style positive
  obtain ⟨rounds, few⟩ : RoundsTo .binary64 mantissa exponent decimal.value ∧ _ :=
    shortest_spec style.tie .binary64 positive (by omega) (by omega) (by omega)
  have some_value : 0 < numeral.magnitude := by
    rw [stands.magnitude, Decimal.Number.value]
    have some_digit : 0 < decimal.digits := shortest_pos style.tie positive
    positivity
  refine ⟨numeral, ?_, stands.sign, stands.notInteger, ?_, ?_, stands.magnitude ▸ rounds⟩
  · have finite : double.isFinite = true := by
      unfold Float.isFinite Float.Model.isFinite
      rw [unpacked]
      rfl
    rw [Number.text, if_pos finite, Decimal.Style.doubleText, unpacked]
    exact read
  · rw [Nat.pos_iff_ne_zero]
    intro none
    rw [Numeral.magnitude, none, Nat.cast_zero, zero_mul] at some_value
    exact some_value.false
  · rcases stands.short with same | short
    · rw [same]
      exact few.trans (by decide)
    · exact short.trans (by decide)

/-! ## Reading -/

/-- The text of a double is read as a scaled significand with a sign. -/
theorem reread_double (read : Numeral.read? (Number.double double).text.toList = some numeral)
    (tells : Tells numeral sign mantissa exponent) {image : Float}
    (scaled : numeral.scaled.toDouble? = some image) :
    Number.reread (.double double) = .number (.double (withSign sign image)) := by
  rw [Number.reread, read]
  simp only [Numeral.value?, tells.notInteger, Numeral.double?_eq tells.fits, scaled, tells.negative]
  rfl

/-- The text of a zero is read as the zero. -/
theorem reread_zero (unpacked : double.toModel.unpack = .zero sign) :
    Number.reread (.double double) = .number (.double double) := by
  obtain rfl : double = .ofModel (.pack (.zero sign)) := by
    apply eq_of_unpack
    rw [unpacked]
    cases sign <;> rfl
  have scaled : Scaled.toDouble? ⟨0, -1⟩ = some (.ofModel (.pack (.zero .positive))) := by
    rw [Scaled.toDouble?, if_pos (by decide), Decimal.scaleDown, if_pos (by decide)]
    rfl
  have read : Numeral.read? (Number.double (.ofModel (.pack (.zero sign)))).text.toList =
      some ⟨sign == .negative, [0], some [0], none⟩ := by
    cases sign <;> rfl
  have double : Numeral.double? ⟨sign == .negative, [0], some [0], none⟩ =
      some (.ofModel (.pack (.zero sign))) := by
    rw [Numeral.double?_eq (by cases sign <;> decide)]
    change (Scaled.toDouble? ⟨0, -1⟩).map _ = _
    rw [scaled]
    cases sign <;> rfl
  rw [Number.reread, read]
  simp only [Numeral.value?, Numeral.integer?, double]
  rfl

/-- The digits of a double are in the gap around it. -/
theorem Tells.bounds (tells : Tells numeral sign mantissa exponent) :
    (mantissa - 1 / 2) * 2 ^ exponent ≤ numeral.magnitude ∧
      numeral.magnitude ≤ (mantissa + 1 / 2) * 2 ^ exponent := by
  constructor
  · rw [← le_div_iff₀ (by positivity)]
    exact tells.rounds.nearest.below
  · rw [← div_le_iff₀ (by positivity)]
    exact tells.rounds.nearest.above

/-- Whether the text of a double is read as a double. -/
def readsDouble (double : Float) : Bool :=
  match Number.reread (.double double) with
  | .number (.double _) => true
  | _ => false

/-- The three largest doubles are not read as infinite. -/
theorem readsDouble_largest : ∀ sign ∈ [Sign.positive, Sign.negative], ∀ more < 3,
    readsDouble (.ofModel (.pack (.finite sign (2 ^ 53 - 3 + more) 971
      (Nat.add_pos_left (by decide) more)))) = true := by
  decide +kernel

/-- Digits are scaled into the range of doubles, unless they are those of the largest doubles. -/
theorem Tells.small (tells : Tells numeral sign mantissa exponent) (high : exponent ≤ 971)
    (short : mantissa < 2 ^ 53) (other : mantissa < 2 ^ 53 - 3 ∨ exponent ≤ 970) :
    (1 + 5 / 2 ^ 54) * numeral.magnitude < 2 ^ 1024 - 2 ^ 970 := by
  have next : (2 : ℚ) ^ 971 = 2 * 2 ^ 970 := pow_succ' 2 970
  have limit : (2 : ℚ) ^ 1024 = 2 ^ 54 * 2 ^ 970 := pow_add 2 54 970
  have unitPositive : (0 : ℚ) < 2 ^ 970 := by positivity
  have power : ∀ count : Nat, exponent ≤ count → (2 : ℚ) ^ exponent ≤ 2 ^ count := by
    intro count bound
    rw [← zpow_natCast]
    exact zpow_le_zpow_right₀ one_le_two bound
  have least := power 970
  have most := power 971 high
  have above := tells.bounds.2
  rw [limit]
  rw [next] at most
  -- The powers are too large to be evaluated.
  generalize (2 : ℚ) ^ 970 = unit at *
  have bound : numeral.magnitude ≤ (2 ^ 54 - 7) * unit := by
    rcases other with fewer | lower
    · have digits : (mantissa : ℚ) ≤ 2 ^ 53 - 4 := by
        have natural : mantissa + 4 ≤ 2 ^ 53 := by omega
        have cast : (mantissa : ℚ) + 4 ≤ 2 ^ 53 := by exact_mod_cast natural
        linarith
      calc numeral.magnitude ≤ (mantissa + 1 / 2) * 2 ^ exponent := above
        _ ≤ (2 ^ 53 - 4 + 1 / 2) * (2 * unit) := by gcongr
        _ = (2 ^ 54 - 7) * unit := by ring
    · have digits : (mantissa : ℚ) ≤ 2 ^ 53 := by exact_mod_cast short.le
      calc numeral.magnitude ≤ (mantissa + 1 / 2) * 2 ^ exponent := above
        _ ≤ (2 ^ 53 + 1 / 2) * unit := by
            have := least (by exact_mod_cast lower)
            gcongr
        _ ≤ (2 ^ 54 - 7) * unit := by
            gcongr
            norm_num
  calc (1 + 5 / 2 ^ 54) * numeral.magnitude
      ≤ (1 + 5 / 2 ^ 54) * ((2 ^ 54 - 7) * unit) := by gcongr
    _ < (2 ^ 54 - 1) * unit := by
        rw [← mul_assoc]
        exact mul_lt_mul_of_pos_right (by norm_num) unitPositive
    _ = 2 ^ 54 * unit - unit := by ring

/-- The text of a positive double is read as a double, whatever its sign. -/
theorem exists_reread_positive
    (unpacked : double.toModel.unpack = .finite sign mantissa exponent positive) :
    ∃ image, Number.reread (.double double) = .number (.double image) := by
  obtain ⟨numeral, read, tells⟩ := exists_tells unpacked
  obtain ⟨-, least, most, short⟩ := canonical_of_unpack (by decide) unpacked
  have places : Format.binary64.mantissaBits = 53 := rfl
  have maximum : (2 : Int) ^ (Format.binary64.exponentBits - 1) = 1024 := rfl
  have small : mantissa < 2 ^ 53 := (Nat.log2_lt (Nat.ne_of_gt positive)).mp (places ▸ short)
  rcases lt_or_ge numeral.scale 0 with down | up
  · exact ⟨_, reread_double read tells (if_pos down)⟩
  · by_cases other : mantissa < 2 ^ 53 - 3 ∨ exponent ≤ 970
    · have inRange := tells.small (by omega) small other
      rw [← numeral.value_scaled] at inRange
      obtain ⟨image, _, scaled, -⟩ :=
        Scaled.exists_toDouble?_up tells.some_digit tells.fits up inRange
      exact ⟨_, reread_double read tells scaled⟩
    · obtain ⟨more, rfl⟩ := Nat.exists_eq_add_of_le (show 2 ^ 53 - 3 ≤ mantissa by omega)
      obtain rfl : exponent = 971 := by omega
      have log : (2 ^ 53 - 3 + more).log2 = 52 :=
        (Nat.log2_eq_iff (Nat.ne_of_gt positive)).mpr ⟨by omega, by omega⟩
      obtain rfl : double = .ofModel (.pack (.finite sign (2 ^ 53 - 3 + more) 971 positive)) := by
        apply eq_of_unpack
        rw [unpacked]
        exact (unpack_pack log (by decide) (by decide) positive).symm
      have reads := readsDouble_largest sign (by cases sign <;> simp) more (by omega)
      unfold readsDouble at reads
      split at reads
      · rename_i image isDouble
        exact ⟨image, isDouble⟩
      · simp at reads

/-- The text of a finite double is read as a double. -/
theorem exists_reread_double (finite : double.isFinite = true) :
    ∃ image, Number.reread (.double double) = .number (.double image) := by
  rcases zero_or_positive_of_isFinite finite with ⟨sign, zero⟩ | ⟨sign, mantissa, exponent, _, unpacked⟩
  · exact ⟨_, reread_zero zero⟩
  · exact exists_reread_positive unpacked

/-- A double that is not too small has all places. -/
theorem log2_of_large (unpacked : double.toModel.unpack = .finite sign mantissa exponent positive)
    (large : (2 : ℚ) ^ (-1022 : Int) ≤ mantissa * 2 ^ exponent) : mantissa.log2 = 52 := by
  obtain ⟨canonical, least, most, short⟩ := canonical_of_unpack (by decide) unpacked
  have minimum : Format.binary64.minExponent = -1074 := rfl
  have places : Format.binary64.mantissaBits = 53 := rfl
  rw [Canonical, Format.targetExponent, totalExponent, minimum, places] at canonical
  by_contra shorter
  have fewer : mantissa.log2 < 52 := by omega
  obtain rfl : exponent = -1074 := by omega
  have small : (mantissa : ℚ) < 2 ^ 52 := by
    exact_mod_cast (Nat.log2_lt (Nat.ne_of_gt positive)).mp fewer
  have product : (mantissa : ℚ) * 2 ^ (-1074 : Int) < 2 ^ 52 * 2 ^ (-1074 : Int) :=
    mul_lt_mul_of_pos_right small (by positivity)
  have split : (2 : ℚ) ^ 52 * 2 ^ (-1074 : Int) = 2 ^ (-1022 : Int) := by
    rw [← zpow_natCast, ← zpow_add₀ two_ne_zero]
    rfl
  exact absurd large (split ▸ product).not_ge

/-- The text of a double in the middle of the range is read as a double that is near to it. -/
theorem exists_reread_close (unpacked : double.toModel.unpack = .finite sign mantissa exponent positive)
    (low : (2 : ℚ) ^ (-1020 : Int) ≤ mantissa * 2 ^ exponent)
    (high : (mantissa : ℚ) * 2 ^ exponent < 2 ^ (1023 : Int)) :
    ∃ image near, Number.reread (.double double) = .number (.double (withSign sign image)) ∧
      Measures image near ∧ Close (1 / 2 ^ 49) near (mantissa * 2 ^ exponent) := by
  obtain ⟨numeral, read, tells⟩ := exists_tells unpacked
  have log := log2_of_large unpacked (low.trans' (zpow_le_zpow_right₀ one_le_two (by decide)))
  have full : (2 : ℚ) ^ 52 ≤ mantissa := by
    exact_mod_cast (Nat.le_log2 (Nat.ne_of_gt positive)).mp log.ge
  have unit : (0 : ℚ) < 2 ^ exponent := by positivity
  obtain ⟨below, above⟩ := tells.bounds
  have digits : Close (1 / 2 ^ 53) numeral.magnitude (mantissa * 2 ^ exponent) := by
    have half : (1 : ℚ) / 2 * 2 ^ exponent ≤ 1 / 2 ^ 53 * (mantissa * 2 ^ exponent) := by
      rw [← mul_assoc]
      apply mul_le_mul_of_nonneg_right _ unit.le
      linarith
    rw [Close, abs_le]
    constructor <;> linarith
  obtain ⟨least, most⟩ := digits.bounds
  rcases lt_or_ge numeral.scale 0 with down | up
  · have normal : (2 : ℚ) ^ (-1021 : Int) ≤ numeral.magnitude := by
      have double_normal : (2 : ℚ) ^ (-1020 : Int) = 2 * 2 ^ (-1021 : Int) := by
        rw [← zpow_one_add₀ two_ne_zero]
        rfl
      linarith
    rw [← numeral.value_scaled] at normal
    obtain ⟨image, near, scaled, measures, close⟩ :=
      Scaled.exists_toDouble?_down tells.some_digit tells.fits down normal
    rw [numeral.value_scaled] at close
    exact ⟨image, near, reread_double read tells scaled, measures,
      digits.trans close (by positivity) (by positivity) (by norm_num)⟩
  · have lower : exponent < 971 := by
      have power : (2 : ℚ) ^ (52 + exponent) < 2 ^ (1023 : Int) := by
        rw [zpow_add₀ two_ne_zero]
        exact (mul_le_mul_of_nonneg_right full unit.le).trans_lt high
      have := (zpow_lt_zpow_iff_right₀ one_lt_two).mp power
      omega
    have short : mantissa < 2 ^ 53 := (Nat.log2_lt (Nat.ne_of_gt positive)).mp (by omega)
    have small := tells.small lower.le short (.inr (by omega))
    rw [← numeral.value_scaled] at small
    obtain ⟨image, near, scaled, measures, close⟩ :=
      Scaled.exists_toDouble?_up tells.some_digit tells.fits up small
    rw [numeral.value_scaled] at close
    exact ⟨image, near, reread_double read tells scaled, measures,
      digits.trans close (by positivity) (by positivity) (by norm_num)⟩

theorem reread_double_eq (unpacked : double.toModel.unpack = .finite sign mantissa exponent positive)
    (read : Numeral.read? (Number.double double).text.toList = some numeral)
    (short : numeral.significand < 2 ^ 53) (small : numeral.scale.natAbs ≤ 22) :
    Number.reread (.double double) = .number (.double double) := by
  obtain ⟨told, readTold, tells⟩ := exists_tells unpacked
  obtain rfl : told = numeral := Option.some.inj (readTold.symm.trans read)
  obtain ⟨canonical, least, most, -⟩ := canonical_of_unpack (by decide) unpacked
  have minimum : Format.binary64.minExponent = -1074 := rfl
  have places : Format.binary64.mantissaBits = 53 := rfl
  have maximum : (2 : Int) ^ (Format.binary64.exponentBits - 1) = 1024 := rfl
  have large : (2 : ℚ) ^ (-1022 : Int) ≤ mantissa * 2 ^ exponent := by
    have one : (1 : ℚ) ≤ told.significand := by exact_mod_cast tells.some_digit
    have digit : (1 : ℚ) ≤ mantissa := by exact_mod_cast positive
    have lower : (10 : ℚ) ^ (-22 : Int) ≤ told.magnitude := by
      calc (10 : ℚ) ^ (-22 : Int) ≤ 10 ^ told.scale := zpow_le_zpow_right₀ (by norm_num) (by omega)
        _ ≤ told.significand * 10 ^ told.scale := le_mul_of_one_le_left (by positivity) one
    have upper : told.magnitude ≤ 2 * (mantissa * 2 ^ exponent) := by
      rw [← mul_assoc]
      refine tells.bounds.2.trans (mul_le_mul_of_nonneg_right ?_ (by positivity))
      linarith
    have tiny : 2 * (2 : ℚ) ^ (-1022 : Int) ≤ 10 ^ (-22 : Int) := by
      calc 2 * (2 : ℚ) ^ (-1022 : Int) ≤ 2 * 2 ^ (-80 : Int) := by
            gcongr
            · norm_num
            · decide
        _ ≤ 10 ^ (-22 : Int) := by norm_num
    linarith
  have log := log2_of_large unpacked large
  let magnitude : Float := .ofModel (.pack (.finite .positive mantissa exponent positive))
  have again : magnitude.toModel.unpack = .finite .positive mantissa exponent positive :=
    unpack_pack log (by omega) (by omega) positive
  have signed : withSign sign magnitude = double := by
    apply eq_of_unpack
    rw [unpacked]
    exact unpack_withSign again log (by omega) (by omega) sign
  have some_digit : 0 < told.scaled.significand := tells.some_digit
  obtain ⟨image, scaled, rounded⟩ := Scaled.exists_toDouble?_exact some_digit short small
  rw [told.value_scaled] at rounded
  have same : image = magnitude := rounded.eq_of_roundsTo again canonical tells.rounds
  rw [reread_double read tells scaled, same, signed]

/-- A double is read as itself if its digits and the power of ten that scales them are doubles. -/
theorem reread_double_self (finite : double.isFinite = true)
    (short : ∀ numeral, Numeral.read? (Number.double double).text.toList = some numeral →
      numeral.significand < 2 ^ 53 ∧ numeral.scale.natAbs ≤ 22) :
    Number.reread (.double double) = .number (.double double) := by
  rcases zero_or_positive_of_isFinite finite with ⟨sign, zero⟩ | ⟨sign, mantissa, exponent, _, unpacked⟩
  · exact reread_zero zero
  · obtain ⟨numeral, read, -⟩ := exists_tells unpacked
    obtain ⟨digits, power⟩ := short numeral read
    exact reread_double_eq unpacked read digits power

/-- A single precision float is nearer to what its double is read as than to its neighbours. -/
theorem narrow_reread {value : Float32} (finite : (widen value).isFinite = true) :
    ∃ image, Number.reread (.double (widen value)) = .number (.double image) ∧
      narrow image = value := by
  cases unpacked : value.toModel.unpack with
  | infinity sign =>
      have wide : (widen value).toModel.unpack = .infinity sign := by
        rw [unpack_widen, unpacked]
        cases sign <;> rfl
      simp [Float.isFinite, Float.Model.isFinite, wide, UnpackedFloat.isFinite] at finite
  | notANumber =>
      have wide : (widen value).toModel.unpack = .notANumber := by
        rw [unpack_widen, unpacked]
        rfl
      simp [Float.isFinite, Float.Model.isFinite, wide, UnpackedFloat.isFinite] at finite
  | zero sign =>
      have wide : (widen value).toModel.unpack = .zero sign := by
        rw [unpack_widen, unpacked]
        cases sign <;> rfl
      exact ⟨_, reread_zero wide, narrow_widen value⟩
  | finite sign mantissa exponent positive =>
      obtain ⟨canonical, least, most, short⟩ := canonical_of_unpack (by decide) unpacked
      have minimum : Format.binary32.minExponent = -149 := rfl
      have places : Format.binary32.mantissaBits = 24 := rfl
      have maximum : (2 : Int) ^ (Format.binary32.exponentBits - 1) = 128 := rfl
      obtain ⟨zeros, widePositive, widened⟩ := exists_unpack_widened unpacked
      have wide := (unpack_widen value).trans widened
      have unit : (0 : ℚ) < 2 ^ exponent := by positivity
      have same : ((mantissa <<< zeros : Nat) : ℚ) * 2 ^ (exponent - zeros) =
          mantissa * 2 ^ exponent := by
        rw [Nat.shiftLeft_eq, zpow_sub₀ two_ne_zero, zpow_natCast]
        push_cast
        field_simp
      have one : (1 : ℚ) ≤ mantissa := by exact_mod_cast positive
      have digits : (mantissa : ℚ) < 2 ^ 24 := by
        exact_mod_cast (Nat.log2_lt (Nat.ne_of_gt positive)).mp (places ▸ short)
      have low : (2 : ℚ) ^ (-1020 : Int) ≤ mantissa * 2 ^ exponent :=
        (zpow_le_zpow_right₀ one_le_two (by omega)).trans (le_mul_of_one_le_left unit.le one)
      have high : (mantissa : ℚ) * 2 ^ exponent < 2 ^ (1023 : Int) := by
        calc (mantissa : ℚ) * 2 ^ exponent < 2 ^ 24 * 2 ^ exponent :=
              mul_lt_mul_of_pos_right digits unit
          _ = 2 ^ (24 + exponent) := (zpow_add₀ two_ne_zero 24 exponent).symm
          _ ≤ 2 ^ (1023 : Int) := zpow_le_zpow_right₀ one_le_two (by omega)
      rw [← same] at low high
      obtain ⟨image, near, reread, measures, close⟩ := exists_reread_close wide low high
      rw [same] at close
      refine ⟨_, reread, narrow_eq ?_⟩
      obtain ⟨whole, target, wholePositive, normal, log, low, high, rfl⟩ := measures
      rw [unpack_withSign normal log low high, unpacked]
      exact (roundsTo_of_close (by linarith) close).round_eq canonical positive wholePositive

end Doubles

end Json

end Dataflow
