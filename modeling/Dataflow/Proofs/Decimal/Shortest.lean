import Dataflow.Decimal.Shortest
import Dataflow.Proofs.Scalar.Rounding

/-!
# Shortest decimals

The search for the shortest decimal tests points of decimal grids against the interval of reals
that are rounded to the float.  It starts with a grid that is about as coarse as the float is large,
and ends before the grids get finer than the gaps between floats, so it finds a point, and the point
has at most seventeen digits.
-/

namespace Dataflow.Decimal

open Float.Model (Format)

/-- The number that a decimal stands for. -/
def Number.value (decimal : Number) : ℚ :=
  decimal.digits * 10 ^ decimal.exponent

section Search

variable {interval : Interval} {tie : Tie} {format : Format} {mantissa point : Nat}
  {exponent grid : Int}

/-- The point that is nearest lies in the interval. -/
theorem contains_of_nearest? (nearest : interval.nearest? tie = some point) :
    interval.contains point = true := by
  unfold Interval.nearest? at nearest
  extract_lets below above remainder at nearest
  cases low : interval.contains below <;> cases high : interval.contains above <;>
    simp only [low, high] at nearest
  · simp at nearest
  · exact Option.some.inj nearest ▸ high
  · exact Option.some.inj nearest ▸ low
  · split_ifs at nearest <;> obtain rfl := Option.some.inj nearest <;> assumption

/-- A point is found when the interval reaches more than a unit beyond the float. -/
theorem isSome_nearest? (someUnit : 0 < interval.unit) (below : interval.lower < interval.value)
    (above : interval.value + interval.unit < interval.upper) :
    (interval.nearest? tie).isSome := by
  have next : interval.value < (interval.value / interval.unit + 1) * interval.unit :=
    Nat.lt_mul_of_div_lt (Nat.lt_succ_self _) someUnit
  have step : (interval.value / interval.unit + 1) * interval.unit ≤
      interval.value + interval.unit := by
    rw [Nat.add_mul, Nat.one_mul]
    exact Nat.add_le_add_right (Nat.div_mul_le_self _ _) _
  have inside : interval.contains (interval.value / interval.unit + 1) = true := by
    unfold Interval.contains
    split_ifs
    · rw [Bool.and_eq_true, decide_eq_true_eq, decide_eq_true_eq]
      omega
    · rw [Bool.and_eq_true, decide_eq_true_eq, decide_eq_true_eq]
      omega
  unfold Interval.nearest?
  extract_lets floor ceiling remainder
  change interval.contains ceiling = true at inside
  cases low : interval.contains floor
  · simp only [inside, Option.isSome_some]
  · simp only [inside]
    split_ifs <;> rfl

/-- On a grid, ends of intervals and points have a common unit. -/
theorem exists_unit (exponent grid : Int) :
    ∃ unit : ℚ, 0 < unit ∧
      (∀ count : Nat, ((count * Nat.pow 2 (exponent - 2).toNat * Nat.pow 10 (-grid).toNat : Nat) : ℚ) =
        count / 4 * unit) ∧
      ∀ point : Nat, ((point * (Nat.pow 2 (2 - exponent).toNat * Nat.pow 10 grid.toNat) : Nat) : ℚ) =
        point * 10 ^ grid / 2 ^ exponent * unit := by
  have two := zpow_mul_pow_toNat (two_ne_zero (α := ℚ)) (exponent - 2)
  have ten := zpow_mul_pow_toNat (show (10 : ℚ) ≠ 0 by norm_num) grid
  have four : (2 : ℚ) ^ exponent = 4 * 2 ^ (exponent - 2) := by
    rw [zpow_sub₀ two_ne_zero]
    norm_num
    ring
  have flip : -(exponent - 2) = 2 - exponent := by ring
  rw [flip] at two
  refine ⟨4 * 2 ^ (exponent - 2).toNat * 10 ^ (-grid).toNat, by positivity, ?_, ?_⟩
  · intro count
    push_cast [Nat.pow_eq]
    ring
  · intro point
    push_cast [Nat.pow_eq]
    rw [four, ← two, ← ten]
    field_simp

/-- What it means that a point lies in an interval. -/
theorem bounds_of_contains (inside : interval.contains point = true) :
    (interval.lower ≤ point * interval.unit ∧ point * interval.unit ≤ interval.upper) ∧
      (interval.closed = false →
        interval.lower < point * interval.unit ∧ point * interval.unit < interval.upper) := by
  unfold Interval.contains at inside
  by_cases closed : interval.closed = true
  · rw [if_pos closed, Bool.and_eq_true, decide_eq_true_eq, decide_eq_true_eq] at inside
    exact ⟨inside, fun opened => absurd (closed.symm.trans opened) (by decide)⟩
  · rw [if_neg closed, Bool.and_eq_true, decide_eq_true_eq, decide_eq_true_eq] at inside
    exact ⟨⟨inside.1.le, inside.2.le⟩, fun _ => inside⟩

/-- The smallest numbers of an interval are a quarter of a gap away below a power of two, and half of
a gap otherwise. -/
theorem exists_lower (format : Format) (positive : 0 < mantissa) (exponent : Int) :
    ∃ below : Nat, (Interval.ofFloat format mantissa exponent).lower =
        (4 * mantissa - below) * Nat.pow 2 (exponent - 2).toNat ∧
      0 < below ∧ ((4 * mantissa - below : Nat) : ℚ) / 4 = mantissa - below / 4 ∧ below ≤ 2 ∧
      (mantissa = 2 ^ (format.mantissaBits - 1) → format.minExponent < exponent → below = 1) := by
  have quarters : ∀ below : Nat, below ≤ 2 →
      ((4 * mantissa - below : Nat) : ℚ) / 4 = mantissa - below / 4 := by
    intro below few
    rw [Nat.cast_sub (by omega)]
    push_cast
    ring
  by_cases narrow : mantissa = Nat.pow 2 (format.mantissaBits - 1) ∧ format.minExponent < exponent
  · refine ⟨1, ?_, by decide, quarters 1 (by decide), by decide, fun _ _ => rfl⟩
    simp only [Interval.ofFloat, if_pos narrow]
  · refine ⟨2, ?_, by decide, quarters 2 (by decide), by decide,
      fun power above => absurd ⟨power, above⟩ narrow⟩
    simp only [Interval.ofFloat, if_neg narrow]

/-- A point of the interval of a float is rounded to the float. -/
theorem roundsTo_of_contains (positive : 0 < mantissa)
    (inside : ((Interval.ofFloat format mantissa exponent).onGrid grid).contains point = true) :
    RoundsTo format mantissa exponent (point * 10 ^ grid) := by
  obtain ⟨unit, unitPositive, ends, points⟩ := exists_unit exponent grid
  obtain ⟨below, lower, some_gap, quarters, few, single⟩ := exists_lower format positive exponent
  obtain ⟨⟨low, high⟩, strict⟩ := bounds_of_contains inside
  have fourth : ((4 * mantissa + 2 : Nat) : ℚ) / 4 = mantissa + 1 / 2 := by
    push_cast
    ring
  have atMost : (below : ℚ) ≤ 2 := by exact_mod_cast few
  simp only [Interval.onGrid, lower] at low high strict
  simp only [Interval.ofFloat] at low high strict
  rw [← Nat.cast_le (α := ℚ), ends, points, mul_le_mul_iff_left₀ unitPositive, quarters] at low
  rw [← Nat.cast_le (α := ℚ), ends, points, mul_le_mul_iff_left₀ unitPositive, fourth] at high
  rw [← Nat.cast_lt (α := ℚ), ends, points, mul_lt_mul_iff_left₀ unitPositive, quarters,
    ← Nat.cast_lt (α := ℚ), ends, points, mul_lt_mul_iff_left₀ unitPositive, fourth] at strict
  constructor
  · constructor
    · exact high
    · linarith
    · intro tie
      by_contra odd
      rw [Nat.not_even_iff_odd] at odd
      have opened : decide (mantissa % 2 = 0) = false := by
        rw [Nat.odd_iff.mp odd]
        rfl
      obtain ⟨above, under⟩ := strict opened
      rcases tie with upper | lowest
      · exact absurd upper under.ne
      · linarith
  · intro power above
    rw [single power above] at low
    exact_mod_cast low

/-- Zero is no point of the interval of a positive float. -/
theorem pos_of_contains (positive : 0 < mantissa)
    (inside : ((Interval.ofFloat format mantissa exponent).onGrid grid).contains point = true) :
    0 < point := by
  have one : (1 : ℚ) ≤ mantissa := by exact_mod_cast positive
  have low := (roundsTo_of_contains positive inside).nearest.below
  rw [Nat.pos_iff_ne_zero]
  rintro rfl
  rw [Nat.cast_zero, zero_mul, zero_div] at low
  linarith

/-- A grid that is finer than half of a gap has a point in the interval. -/
theorem isSome_of_fine (tie : Tie) (positive : 0 < mantissa)
    (fine : (10 : ℚ) ^ grid < 2 ^ (exponent - 1)) :
    (((Interval.ofFloat format mantissa exponent).onGrid grid).nearest? tie).isSome := by
  obtain ⟨unit, unitPositive, ends, points⟩ := exists_unit exponent grid
  obtain ⟨below, lower, some_gap, -, -, -⟩ := exists_lower format positive exponent
  have small : Nat.pow 2 (2 - exponent).toNat * Nat.pow 10 grid.toNat <
      2 * Nat.pow 2 (exponent - 2).toNat * Nat.pow 10 (-grid).toNat := by
    have half : (10 : ℚ) ^ grid / 2 ^ exponent < 1 / 2 := by
      rw [zpow_sub_one₀ two_ne_zero] at fine
      rw [div_lt_iff₀ (by positivity)]
      linarith
    have one := points 1
    rw [Nat.one_mul, Nat.cast_one, one_mul] at one
    rw [← Nat.cast_lt (α := ℚ), one, ends, mul_lt_mul_iff_left₀ unitPositive]
    refine half.trans_le ?_
    norm_num
  let scale := Nat.pow 2 (exponent - 2).toNat * Nat.pow 10 (-grid).toNat
  have scalePositive : 0 < scale := Nat.mul_pos (Nat.pow_pos (by decide)) (Nat.pow_pos (by decide))
  have isValue : ((Interval.ofFloat format mantissa exponent).onGrid grid).value =
      4 * mantissa * scale := by
    simp only [Interval.onGrid, Interval.ofFloat, scale, Nat.mul_assoc]
  apply isSome_nearest?
  · exact Nat.mul_pos (Nat.pow_pos (by decide)) (Nat.pow_pos (by decide))
  · have isLower : ((Interval.ofFloat format mantissa exponent).onGrid grid).lower =
        (4 * mantissa - below) * scale := by
      simp only [Interval.onGrid, lower, scale, Nat.mul_assoc]
    rw [isLower, isValue]
    exact Nat.mul_lt_mul_of_pos_right (by omega) scalePositive
  · have isUpper : ((Interval.ofFloat format mantissa exponent).onGrid grid).upper =
        4 * mantissa * scale + 2 * scale := by
      simp only [Interval.onGrid, Interval.ofFloat, scale]
      ring
    rw [isValue, isUpper, Nat.add_lt_add_iff_left, ← Nat.mul_assoc]
    exact small

end Search

/-! ## The coarsest grid -/

/-- The fraction `1233 / 4096` is a little less than the logarithm of two. -/
theorem ten_zpow_bounds {total : Int} (low : -4096 ≤ total) (high : total ≤ 4096) :
    (2 : ℚ) ^ ((total - 1) * 4096) ≤ 10 ^ (1233 * total) ∧
      (10 : ℚ) ^ (1233 * total) ≤ 2 ^ ((total + 1) * 4096) := by
  obtain ⟨below, above⟩ : (2 : ℚ) ^ 4095 ≤ 10 ^ 1233 ∧ (10 : ℚ) ^ 1233 ≤ 2 ^ 4096 := by
    have natural : (2 : Nat) ^ 4095 ≤ 10 ^ 1233 ∧ (10 : Nat) ^ 1233 ≤ 2 ^ 4096 := by
      decide +kernel
    exact_mod_cast natural
  obtain ⟨count, rfl | rfl⟩ := total.eq_nat_or_neg
  · have power : (10 : ℚ) ^ (1233 * (count : Int)) = (10 ^ 1233) ^ count := by
      rw [zpow_mul, zpow_natCast]
      rfl
    rw [power]
    constructor
    · calc (2 : ℚ) ^ (((count : Int) - 1) * 4096) ≤ 2 ^ (4095 * (count : Int)) :=
            zpow_le_zpow_right₀ one_le_two (by omega)
        _ = (2 ^ 4095) ^ count := by
            rw [zpow_mul, zpow_natCast]
            rfl
        _ ≤ (10 ^ 1233) ^ count := pow_le_pow_left₀ (by positivity) below count
    · calc ((10 : ℚ) ^ 1233) ^ count ≤ (2 ^ 4096) ^ count :=
            pow_le_pow_left₀ (by positivity) above count
        _ = 2 ^ (4096 * (count : Int)) := by
            rw [zpow_mul, zpow_natCast]
            rfl
        _ ≤ 2 ^ (((count : Int) + 1) * 4096) := zpow_le_zpow_right₀ one_le_two (by omega)
  · have power : (10 : ℚ) ^ (1233 * -(count : Int)) = ((10 ^ 1233) ^ count)⁻¹ := by
      rw [mul_neg, zpow_neg, zpow_mul, zpow_natCast]
      rfl
    rw [power]
    constructor
    · calc (2 : ℚ) ^ ((-(count : Int) - 1) * 4096) ≤ 2 ^ (4096 * -(count : Int)) :=
            zpow_le_zpow_right₀ one_le_two (by omega)
        _ = ((2 ^ 4096) ^ count)⁻¹ := by
            rw [mul_neg, zpow_neg, zpow_mul, zpow_natCast]
            rfl
        _ ≤ ((10 ^ 1233) ^ count)⁻¹ :=
            inv_anti₀ (by positivity) (pow_le_pow_left₀ (by positivity) above count)
    · calc (((10 : ℚ) ^ 1233) ^ count)⁻¹ ≤ ((2 ^ 4095) ^ count)⁻¹ :=
            inv_anti₀ (by positivity) (pow_le_pow_left₀ (by positivity) below count)
        _ = 2 ^ (4095 * -(count : Int)) := by
            rw [mul_neg, zpow_neg, zpow_mul, zpow_natCast]
            rfl
        _ ≤ 2 ^ ((-(count : Int) + 1) * 4096) := zpow_le_zpow_right₀ one_le_two (by omega)

/-- The first grid is about as coarse as the float is large. -/
theorem coarsestExponent_bounds {mantissa : Nat} {exponent : Int}
    (low : -4096 ≤ (mantissa.log2 + 1 : Nat) + exponent)
    (high : (mantissa.log2 + 1 : Nat) + exponent ≤ 4096) :
    (2 : ℚ) ^ ((mantissa.log2 + 1 : Nat) + exponent - 1) ≤ 10 ^ coarsestExponent mantissa exponent ∧
      (10 : ℚ) ^ (coarsestExponent mantissa exponent - 1) ≤
        2 ^ ((mantissa.log2 + 1 : Nat) + exponent + 1) := by
  obtain ⟨least, most⟩ := ten_zpow_bounds low high
  have eq : coarsestExponent mantissa exponent =
      ((mantissa.log2 + 1 : Nat) + exponent) * 1233 / 4096 + 1 := rfl
  generalize ((mantissa.log2 + 1 : Nat) : Int) + exponent = total at *
  rw [eq]
  have power : ∀ (base : ℚ) (digits : Int), (base ^ digits) ^ 4096 = base ^ (digits * 4096) :=
    fun base digits => (zpow_mul base digits 4096).symm
  constructor
  · rw [← pow_le_pow_iff_left₀ (n := 4096) (by positivity) (by positivity) (by decide), power, power]
    exact least.trans (zpow_le_zpow_right₀ (by norm_num) (by omega))
  · rw [← pow_le_pow_iff_left₀ (n := 4096) (by positivity) (by positivity) (by decide), power, power]
    exact most.trans' (zpow_le_zpow_right₀ (by norm_num) (by omega))

/-! ## The search -/

section Shortest

variable {tie : Tie} {format : Format} {mantissa : Nat} {exponent : Int}

/-- The shortest decimal of a positive float is positive. -/
theorem shortest_pos (tie : Tie) (positive : 0 < mantissa) :
    0 < (shortest tie format mantissa exponent).digits := by
  unfold shortest
  extract_lets interval start candidate
  cases found : (List.range gridCount).findSome? candidate with
  | none => exact positive
  | some decimal =>
      obtain ⟨step, _, own⟩ := List.exists_of_findSome?_eq_some found
      obtain ⟨point, nearest, rfl⟩ := Option.map_eq_some_iff.mp own
      exact pos_of_contains positive (contains_of_nearest? nearest)

/-- A search through numbers finds the first one with a result. -/
theorem findSome?_range_eq_some {α : Type} {result? : Nat → Option α} {count : Nat} {result : α}
    (found : (List.range count).findSome? result? = some result) :
    ∃ index < count, result? index = some result ∧ ∀ earlier < index, result? earlier = none := by
  induction count with
  | zero => simp at found
  | succ count ih =>
      rw [List.range_succ, List.findSome?_append] at found
      cases before : (List.range count).findSome? result? with
      | some other =>
          rw [before, Option.some_or] at found
          obtain ⟨index, less, own, none⟩ := ih (before.trans found)
          exact ⟨index, by omega, own, none⟩
      | none =>
          rw [before, Option.none_or, List.findSome?_singleton] at found
          exact ⟨count, by omega, found, fun earlier less =>
            List.findSome?_eq_none_iff.mp before earlier (List.mem_range.mpr less)⟩

/-- The search ends with a point of the interval, on the first grid or on one that is not much finer
than the gaps between floats. -/
theorem exists_shortest (tie : Tie) (format : Format) (positive : 0 < mantissa)
    (short : mantissa.log2 ≤ 52) (low : -1074 ≤ exponent) (high : exponent ≤ 971) :
    ∃ point grid, shortest tie format mantissa exponent = ⟨point, grid⟩ ∧
      ((Interval.ofFloat format mantissa exponent).onGrid grid).contains point = true ∧
      (grid = coarsestExponent mantissa exponent ∨ (2 : ℚ) ^ (exponent - 1) ≤ 10 ^ (grid + 1)) := by
  let candidate (step : Nat) : Option Number :=
    (((Interval.ofFloat format mantissa exponent).onGrid
      (coarsestExponent mantissa exponent - step)).nearest? tie).map
        (⟨·, coarsestExponent mantissa exponent - step⟩)
  have isShortest : shortest tie format mantissa exponent =
      ((List.range gridCount).findSome? candidate).getD ⟨mantissa, exponent⟩ := rfl
  have fine : (10 : ℚ) ^ (coarsestExponent mantissa exponent - 23) < 2 ^ (exponent - 1) := by
    have coarse := (coarsestExponent_bounds (by omega) (by omega) :
      _ ∧ (10 : ℚ) ^ (coarsestExponent mantissa exponent - 1) ≤ _).2
    have split : coarsestExponent mantissa exponent - 23 =
        coarsestExponent mantissa exponent - 1 - 22 := by ring
    calc (10 : ℚ) ^ (coarsestExponent mantissa exponent - 23)
        = 10 ^ (coarsestExponent mantissa exponent - 1) / 10 ^ 22 := by
          rw [split, zpow_sub₀ (by norm_num)]
          rfl
      _ ≤ 2 ^ (54 + exponent) / 10 ^ 22 :=
          div_le_div_of_nonneg_right
            (coarse.trans (zpow_le_zpow_right₀ one_le_two (by push_cast; omega))) (by positivity)
      _ < 2 ^ (exponent - 1) := by
          rw [zpow_add₀ two_ne_zero, zpow_sub_one₀ two_ne_zero, div_lt_iff₀ (by positivity)]
          have unit : (0 : ℚ) < 2 ^ exponent := by positivity
          norm_num
          linarith
  have last : (candidate 23).isSome := by
    rw [Option.isSome_map]
    exact isSome_of_fine tie positive fine
  obtain ⟨decimal, found⟩ : ∃ decimal, (List.range gridCount).findSome? candidate = some decimal := by
    rw [← Option.isSome_iff_exists, List.findSome?_isSome_iff]
    exact ⟨23, by decide, last⟩
  obtain ⟨step, _, own, earlier⟩ := findSome?_range_eq_some found
  obtain ⟨point, nearest, rfl⟩ := Option.map_eq_some_iff.mp own
  refine ⟨point, _, by rw [isShortest, found, Option.getD_some], contains_of_nearest? nearest, ?_⟩
  cases step with
  | zero => exact .inl (by simp)
  | succ before =>
      right
      by_contra finer
      rw [not_le] at finer
      have grid : coarsestExponent mantissa exponent - ((before + 1 : Nat) : Int) + 1 =
          coarsestExponent mantissa exponent - before := by
        push_cast
        ring
      rw [grid] at finer
      have some_point : (candidate before).isSome := by
        rw [Option.isSome_map]
        exact isSome_of_fine tie positive finer
      rw [earlier before (Nat.lt_succ_self before)] at some_point
      exact absurd some_point (by decide)

/-- A point below the upper end of an interval is small on a coarse grid. -/
theorem lt_of_coarse {point : Nat} {grid : Int}
    (above : (point : ℚ) * 10 ^ grid ≤ (mantissa + 1 / 2) * 2 ^ exponent)
    (low : -4096 ≤ (mantissa.log2 + 1 : Nat) + exponent)
    (high : (mantissa.log2 + 1 : Nat) + exponent ≤ 4096) (short : mantissa.log2 ≤ 52)
    (coarse : grid = coarsestExponent mantissa exponent ∨
      (2 : ℚ) ^ (exponent - 1) ≤ 10 ^ (grid + 1)) : point < 2 ^ 60 := by
  have gap : (0 : ℚ) < 2 ^ exponent := by positivity
  have half : (mantissa : ℚ) + 1 / 2 ≤ 2 ^ (mantissa.log2 + 1) := by
    have next : mantissa + 1 ≤ 2 ^ (mantissa.log2 + 1) := Nat.lt_log2_self
    have next : ((mantissa : ℚ) + 1) ≤ 2 ^ (mantissa.log2 + 1) := by exact_mod_cast next
    linarith
  have bounded : (point : ℚ) * 10 ^ grid ≤ 2 ^ (mantissa.log2 + 1) * 2 ^ exponent :=
    above.trans (mul_le_mul_of_nonneg_right half gap.le)
  suffices few : (point : ℚ) < 2 ^ 60 by exact_mod_cast few
  rcases coarse with rfl | coarse
  · obtain ⟨least, -⟩ := coarsestExponent_bounds low high
    rw [add_sub_right_comm, zpow_add₀ two_ne_zero, Nat.cast_add_one, add_sub_cancel_right,
      zpow_natCast] at least
    have top : (2 : ℚ) ^ (mantissa.log2 + 1) * 2 ^ exponent = 2 * (2 ^ mantissa.log2 * 2 ^ exponent) := by
      ring
    have two : (point : ℚ) * (2 ^ mantissa.log2 * 2 ^ exponent) ≤ 2 * (2 ^ mantissa.log2 * 2 ^ exponent) :=
      (mul_le_mul_of_nonneg_left least (Nat.cast_nonneg point)).trans (bounded.trans top.le)
    exact (le_of_mul_le_mul_right two (by positivity)).trans_lt (by norm_num)
  · rw [zpow_sub_one₀ two_ne_zero, zpow_add_one₀ (by norm_num)] at coarse
    have power : (2 : ℚ) ^ (mantissa.log2 + 1) ≤ 2 ^ 53 :=
      pow_le_pow_right₀ one_le_two (by omega)
    have few : (point : ℚ) * 2 ^ exponent ≤ 20 * 2 ^ 53 * 2 ^ exponent := by
      calc (point : ℚ) * 2 ^ exponent = point * (2 ^ exponent * 2⁻¹) * 2 := by ring
        _ ≤ point * (10 ^ grid * 10) * 2 := by gcongr
        _ = point * 10 ^ grid * 20 := by ring
        _ ≤ 2 ^ (mantissa.log2 + 1) * 2 ^ exponent * 20 := by gcongr
        _ ≤ 2 ^ 53 * 2 ^ exponent * 20 := by gcongr
        _ = 20 * 2 ^ 53 * 2 ^ exponent := by ring
    exact (le_of_mul_le_mul_right few gap).trans_lt (by norm_num)

/-- The shortest decimal of a positive float is rounded to the float, and has a short significand. -/
theorem shortest_spec (tie : Tie) (format : Format) (positive : 0 < mantissa)
    (short : mantissa.log2 ≤ 52) (low : -1074 ≤ exponent) (high : exponent ≤ 971) :
    RoundsTo format mantissa exponent (shortest tie format mantissa exponent).value ∧
      (shortest tie format mantissa exponent).digits < 2 ^ 60 := by
  obtain ⟨point, grid, isShortest, inside, coarse⟩ :=
    exists_shortest tie format positive short low high
  have rounds := roundsTo_of_contains positive inside
  rw [isShortest]
  refine ⟨rounds, lt_of_coarse ?_ (by omega) (by omega) short coarse⟩
  have above := rounds.nearest.above
  rwa [div_le_iff₀ (by positivity)] at above

end Shortest

end Dataflow.Decimal
