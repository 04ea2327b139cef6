import Dataflow.Proofs.Graph.Likeness

/-!
# Where a sum starts

Negative zero is neutral for the addition of floats.  Positive zero changes negative zero, and no
other float.  So a sum that starts with its first item, which is one that starts at negative zero,
and a sum that starts at positive zero are the same unless all items are negative zeros.
-/

namespace Dataflow

open Float.Model (Format UnpackedFloat)
open Float.Model.UnpackedFloat

/-! ## Adding to a zero -/

theorem add_negativeZero (format : Format) (item : UnpackedFloat) :
    UnpackedFloat.add format (.zero .negative) item = item := by
  cases item with
  | zero sign => cases sign <;> rfl
  | _ => rfl

theorem add_positiveZero (format : Format) {item : UnpackedFloat} (other : item ≠ .zero .negative) :
    UnpackedFloat.add format (.zero .positive) item = item := by
  cases item with
  | zero sign =>
      cases sign with
      | negative => exact absurd rfl other
      | positive => rfl
  | _ => rfl

namespace Single

variable {left right : Single}

theorem same_of_unpack (unpacked : left.value.toModel.unpack = right.value.toModel.unpack) :
    left.Same right := by
  rw [same_iff, ← Float32.toBits_inj, ← UInt32.toBitVec_inj]
  have packed := congrArg (pack .binary32) unpacked
  exact (pack_unpack_of_valid left.value.toModel.valid).symm.trans
    (packed.trans (pack_unpack_of_valid right.value.toModel.valid))

theorem add_same_of_unpack (neutral : UnpackedFloat.add .binary32 left.value.toModel.unpack
    right.value.toModel.unpack = right.value.toModel.unpack) : (left + right).Same right := by
  refine same_iff.mpr ((value_combine _ _ _).trans ?_)
  rw [← Float32.toBits_inj, ← UInt32.toBitVec_inj]
  have packed := congrArg (pack .binary32) neutral
  exact packed.trans (pack_unpack_of_valid right.value.toModel.valid)

end Single

namespace Double

variable {left right : Double}

theorem same_of_unpack (unpacked : left.value.toModel.unpack = right.value.toModel.unpack) :
    left.Same right := by
  rw [same_iff, ← Float.toBits_inj, ← UInt64.toBitVec_inj]
  have packed := congrArg (pack .binary64) unpacked
  exact (pack_unpack_of_valid left.value.toModel.valid).symm.trans
    (packed.trans (pack_unpack_of_valid right.value.toModel.valid))

theorem add_same_of_unpack (neutral : UnpackedFloat.add .binary64 left.value.toModel.unpack
    right.value.toModel.unpack = right.value.toModel.unpack) : (left + right).Same right := by
  refine same_iff.mpr ((value_combine _ _ _).trans ?_)
  rw [← Float.toBits_inj, ← UInt64.toBitVec_inj]
  have packed := congrArg (pack .binary64) neutral
  exact packed.trans (pack_unpack_of_valid right.value.toModel.valid)

end Double

namespace RealType

/-- Negative zero. -/
def negativeZero : (type : RealType) → type.Carrier
  | f32 => (⟨0x80000000⟩ : Single)
  | f64 => (⟨0x8000000000000000⟩ : Double)

variable {type : RealType} {item : type.Carrier}

/-- Only negative zero is the same as negative zero. -/
theorem eq_negativeZero_of_same (same : type.Same item type.negativeZero) :
    item = type.negativeZero := by
  cases type with
  | f32 =>
      rcases same with bits | ⟨_, undefined⟩
      · exact congrArg Single.mk bits
      · exact absurd undefined (by decide)
  | f64 =>
      rcases same with bits | ⟨_, undefined⟩
      · exact congrArg Double.mk bits
      · exact absurd undefined (by decide)

theorem zero_not_same_negativeZero (type : RealType) : ¬type.Same type.zero type.negativeZero := by
  cases type <;> decide

/-- Negative zero is neutral. -/
theorem negativeZero_add_same (item : type.Carrier) :
    type.Same (type.negativeZero + item) item := by
  cases type with
  | f32 => exact Single.add_same_of_unpack (add_negativeZero .binary32 _)
  | f64 => exact Double.add_same_of_unpack (add_negativeZero .binary64 _)

/-- Positive zero is neutral for all floats but negative zero. -/
theorem zero_add_same (other : item ≠ type.negativeZero) : type.Same (type.zero + item) item := by
  have distinct : ¬type.Same item type.negativeZero := fun same => other (eq_negativeZero_of_same same)
  cases type with
  | f32 =>
      exact Single.add_same_of_unpack (add_positiveZero .binary32 fun unpacked =>
        distinct (Single.same_of_unpack unpacked))
  | f64 =>
      exact Double.add_same_of_unpack (add_positiveZero .binary64 fun unpacked =>
        distinct (Double.same_of_unpack unpacked))

theorem zero_add_negativeZero (type : RealType) : type.zero + type.negativeZero = type.zero := by
  cases type <;> decide

theorem negativeZero_add_negativeZero (type : RealType) :
    type.negativeZero + type.negativeZero = type.negativeZero := by
  cases type <;> decide

/-! ## Sums of lists -/

variable {items : List type.Carrier}

theorem foldl_add_negativeZeros (all : ∀ item ∈ items, item = type.negativeZero) :
    items.foldl (· + ·) type.zero = type.zero ∧
      items.foldl (· + ·) type.negativeZero = type.negativeZero := by
  induction items with
  | nil => exact ⟨rfl, rfl⟩
  | cons item rest ih =>
      obtain rfl := all item List.mem_cons_self
      rw [List.foldl_cons, List.foldl_cons, zero_add_negativeZero, negativeZero_add_negativeZero]
      exact ih fun other mem => all other (List.mem_cons_of_mem _ mem)

/-- The sum from zero is the sum from negative zero exactly if some item is not negative zero.  The
induction passes over the negative zeros in front. -/
theorem foldl_add_zeros_same_iff :
    type.Same (items.foldl (· + ·) type.zero) (items.foldl (· + ·) type.negativeZero) ↔
      ∃ item ∈ items, item ≠ type.negativeZero := by
  constructor
  · intro same
    by_contra none
    push Not at none
    obtain ⟨fromZero, fromNegative⟩ := foldl_add_negativeZeros none
    rw [fromZero, fromNegative] at same
    exact type.zero_not_same_negativeZero same
  · intro some
    induction items with
    | nil => simp at some
    | cons item rest ih =>
        rw [List.foldl_cons, List.foldl_cons]
        by_cases negative : item = type.negativeZero
        · rw [negative, zero_add_negativeZero, negativeZero_add_negativeZero]
          exact ih (by simpa [negative] using some)
        · exact foldl_add_same (List.forall₂_same.mpr fun other _ => .refl other)
            ((zero_add_same negative).trans (negativeZero_add_same item).symm)

end RealType

end Dataflow
