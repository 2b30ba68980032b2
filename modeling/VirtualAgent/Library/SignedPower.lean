import Mathlib.Data.Sign.Basic
import Mathlib.Algebra.Order.Field.Basic
import Mathlib.Tactic.Linarith

/-!
# Powers of the size that keep the sign

The sign of a number times a natural power of its absolute value. Whatever the
exponent, also zero and the even ones, this is monotone (`signedPow_mono`) and has
the sign of the number: the power alone has neither.
-/

set_option autoImplicit false

namespace SignedPower

variable {K : Type*} [Field K] [LinearOrder K] [IsStrictOrderedRing K] {x : K}

/-- The power of the size, with the sign of the number. -/
def signedPow (n : ℕ) (x : K) : K := SignType.sign x * |x| ^ n

@[simp] theorem signedPow_zero (n : ℕ) : signedPow n (0 : K) = 0 := by
  simp [signedPow]

theorem signedPow_of_pos (n : ℕ) (positive : 0 < x) : signedPow n x = x ^ n := by
  simp [signedPow, positive, abs_of_pos]

theorem signedPow_of_neg (n : ℕ) (negative : x < 0) : signedPow n x = -(-x) ^ n := by
  simp [signedPow, negative, abs_of_neg]

theorem signedPow_nonneg (n : ℕ) (nonneg : 0 ≤ x) : 0 ≤ signedPow n x := by
  rcases nonneg.eq_or_lt with rfl | positive
  · exact (signedPow_zero n).ge
  · rw [signedPow_of_pos n positive]
    exact pow_nonneg nonneg n

theorem signedPow_nonpos (n : ℕ) (nonpos : x ≤ 0) : signedPow n x ≤ 0 := by
  rcases nonpos.eq_or_lt with rfl | negative
  · exact (signedPow_zero n).le
  · rw [signedPow_of_neg n negative]
    exact neg_nonpos.mpr (pow_nonneg (neg_nonneg.mpr nonpos) n)

/-- **A signed power is monotone.** -/
theorem signedPow_mono (n : ℕ) : Monotone (signedPow n : K → K) := by
  intro x y le
  rcases le_or_gt y 0 with upper | upper
  · rcases upper.eq_or_lt with rfl | negative
    · rw [signedPow_zero]
      exact signedPow_nonpos n le
    · rw [signedPow_of_neg n negative, signedPow_of_neg n (le.trans_lt negative)]
      exact neg_le_neg (pow_le_pow_left₀ (neg_nonneg.mpr upper) (neg_le_neg le) n)
  · rcases le_or_gt x 0 with lower | lower
    · exact (signedPow_nonpos n lower).trans (signedPow_nonneg n upper.le)
    · rw [signedPow_of_pos n upper, signedPow_of_pos n lower]
      exact pow_le_pow_left₀ lower.le le n

end SignedPower
