import Mathlib.Algebra.Order.Floor.Ring
import Mathlib.Algebra.Order.Field.Basic
import Mathlib.Tactic.Linarith

/-!
# Truncation toward zero

The conversion of a number to an integer type drops the fractional part, so it
rounds down from above zero and up from below. It is monotone and fixes the
integers; on the numbers from zero on it is the floor.
-/

set_option autoImplicit false

namespace Truncation

variable {K : Type*} [Field K] [LinearOrder K] [FloorRing K]

/-- Drop the fractional part. -/
def truncate (x : K) : ℤ := if 0 ≤ x then ⌊x⌋ else ⌈x⌉

theorem truncate_of_nonneg {x : K} (nonneg : 0 ≤ x) : truncate x = ⌊x⌋ := by
  simp [truncate, nonneg]

theorem truncate_of_neg {x : K} (neg : x < 0) : truncate x = ⌈x⌉ := by
  simp [truncate, not_le.mpr neg]

/-- **Truncation is monotone**, across zero too. -/
theorem truncate_mono {x y : K} (le : x ≤ y) : truncate x ≤ truncate y := by
  by_cases lower : 0 ≤ x
  · rw [truncate_of_nonneg lower, truncate_of_nonneg (lower.trans le)]
    exact Int.floor_mono le
  · by_cases upper : 0 ≤ y
    · have nonpos : ⌈x⌉ ≤ 0 := Int.ceil_le.mpr (by simpa using (not_le.mp lower).le)
      have nonneg : 0 ≤ ⌊y⌋ := Int.floor_nonneg.mpr upper
      simpa [truncate, lower, upper] using nonpos.trans nonneg
    · simpa [truncate, lower, upper] using Int.ceil_mono le

variable [IsStrictOrderedRing K]

@[simp] theorem truncate_intCast (n : ℤ) : truncate (n : K) = n := by
  simp [truncate]

/-- What truncation drops is less than one. -/
theorem abs_sub_truncate_lt (x : K) : |x - truncate x| < 1 := by
  rcases le_or_gt 0 x with nonneg | negative
  · rw [truncate_of_nonneg nonneg, Int.self_sub_floor, abs_of_nonneg (Int.fract_nonneg x)]
    exact Int.fract_lt_one x
  · rw [truncate_of_neg negative, abs_sub_comm, abs_of_nonneg (sub_nonneg.mpr (Int.le_ceil x))]
    linarith [Int.ceil_lt_add_one x]

/-- Truncation does not depend on the sign. -/
theorem truncate_neg (x : K) : truncate (-x) = -truncate x := by
  rcases lt_trichotomy x 0 with negative | rfl | positive
  · rw [truncate_of_nonneg (neg_nonneg.mpr negative.le), truncate_of_neg negative, Int.floor_neg]
  · simp [truncate]
  · rw [truncate_of_neg (neg_lt_zero.mpr positive), truncate_of_nonneg positive.le, Int.ceil_neg]

/-- An integer from zero on can be taken out of a sum that is truncated. -/
theorem truncate_intCast_add {n : ℤ} {x : K} (base : 0 ≤ n) (nonneg : 0 ≤ x) :
    truncate ((n : K) + x) = n + ⌊x⌋ := by
  have base' : (0 : K) ≤ n := by exact_mod_cast base
  rw [truncate_of_nonneg (add_nonneg base' nonneg), Int.floor_intCast_add]

/-- What truncation makes of an integer and a positive part: the part is rounded down
when the sum is not negative and up when it is. -/
theorem truncate_intCast_add_eq (n : ℤ) (x : K) :
    truncate ((n : K) + x) = n + if 0 ≤ (n : K) + x then ⌊x⌋ else ⌈x⌉ := by
  unfold truncate
  split
  · exact Int.floor_intCast_add n x
  · exact Int.ceil_intCast_add n x

/-- **When truncation hides that less than one was taken away**: the integer part above
one must survive, and below zero the next integer must not be reached. -/
theorem truncate_le_truncate_sub_iff {x f : K} (nonneg : 0 ≤ f) (small : f < 1) :
    truncate x ≤ truncate (x - f) ↔
      (1 ≤ x → f ≤ Int.fract x) ∧ (x < 0 → Int.fract x = 0 ∨ f < Int.fract x) := by
  rcases lt_or_ge x 0 with negative | notNegative
  · have notLarge : ¬ 1 ≤ x := by linarith
    have rounded : ((⌈x⌉ - 1 : ℤ) : K) < x - f ↔ Int.fract x = 0 ∨ f < Int.fract x := by
      by_cases whole : Int.fract x = 0
      · have same : (⌈x⌉ : K) = x := by
          obtain ⟨n, rfl⟩ := Int.fract_eq_zero_iff.mp whole
          rw [Int.ceil_intCast]
        push_cast
        rw [same]
        constructor
        · intro _
          exact Or.inl whole
        · intro _
          linarith
      · push_cast
        rw [Int.ceil_eq_add_one_sub_fract whole]
        constructor
        · intro less
          exact Or.inr (by linarith)
        · intro either
          have less := either.resolve_left whole
          linarith
    calc truncate x ≤ truncate (x - f)
        ↔ ⌈x⌉ - 1 < ⌈x - f⌉ := by
          rw [truncate_of_neg negative, truncate_of_neg (by linarith), Int.sub_one_lt_iff]
      _ ↔ ((⌈x⌉ - 1 : ℤ) : K) < x - f := Int.lt_ceil
      _ ↔ Int.fract x = 0 ∨ f < Int.fract x := rounded
      _ ↔ (1 ≤ x → f ≤ Int.fract x) ∧ (x < 0 → Int.fract x = 0 ∨ f < Int.fract x) := by
          simp only [notLarge, negative, false_implies, true_implies, true_and]
  · have notBelow : ¬ x < 0 := not_lt.mpr notNegative
    rcases lt_or_ge x 1 with belowOne | large
    · have notLarge : ¬ 1 ≤ x := not_le.mpr belowOne
      have zero : truncate x = 0 := by
        rw [truncate_of_nonneg notNegative]
        exact Int.floor_eq_zero_iff.mpr ⟨notNegative, belowOne⟩
      have kept : 0 ≤ truncate (x - f) := by
        unfold truncate
        split
        · rename_i above
          exact Int.floor_nonneg.mpr above
        · have : -1 < ⌈x - f⌉ := Int.lt_ceil.mpr (by push_cast; linarith)
          omega
      simp only [zero, kept, notLarge, notBelow, false_implies, true_and]
    · calc truncate x ≤ truncate (x - f)
          ↔ ⌊x⌋ ≤ ⌊x - f⌋ := by
            rw [truncate_of_nonneg notNegative, truncate_of_nonneg (by linarith)]
        _ ↔ (⌊x⌋ : K) ≤ x - f := Int.le_floor
        _ ↔ f ≤ Int.fract x := by
            unfold Int.fract
            constructor <;> intro less <;> linarith
        _ ↔ (1 ≤ x → f ≤ Int.fract x) ∧ (x < 0 → Int.fract x = 0 ∨ f < Int.fract x) := by
            simp only [large, notBelow, false_implies, true_implies, and_true]

end Truncation
