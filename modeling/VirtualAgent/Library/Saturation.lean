import Mathlib.Order.Interval.Set.ProjIcc

/-!
# Moves that saturate at bounds

A value between two bounds moves and is set back into them. A saturated move
still goes in its direction (`le_saturated`, `saturated_le`), and it leaves the
value where it is only when it is no move, or one out of the interval from the
bound it would cross (`saturated_eq_iff`).
-/

set_option autoImplicit false

namespace Saturation

open Set

section Order

variable {K : Type*} [LinearOrder K] {low high x y : K}

/-- The number of the interval nearest to a number. -/
def saturated (ordered : low ≤ high) (x : K) : K := projIcc low high ordered x

variable (ordered : low ≤ high)

theorem saturated_mono (le : x ≤ y) : saturated ordered x ≤ saturated ordered y :=
  monotone_projIcc ordered le

theorem saturated_mem (x : K) : saturated ordered x ∈ Icc low high :=
  (projIcc low high ordered x).2

theorem saturated_of_mem (inside : x ∈ Icc low high) : saturated ordered x = x := by
  rw [saturated, projIcc_of_mem ordered inside]

theorem saturated_of_le_low (below : x ≤ low) : saturated ordered x = low := by
  rw [saturated, projIcc_of_le_left ordered below]

theorem saturated_of_high_le (above : high ≤ x) : saturated ordered x = high := by
  rw [saturated, projIcc_of_right_le ordered above]

/-- A move up does not end lower. -/
theorem le_saturated (inside : x ∈ Icc low high) (le : x ≤ y) : x ≤ saturated ordered y := by
  have kept := saturated_mono ordered le
  rwa [saturated_of_mem ordered inside] at kept

/-- A move down does not end higher. -/
theorem saturated_le (inside : x ∈ Icc low high) (le : y ≤ x) : saturated ordered y ≤ x := by
  have kept := saturated_mono ordered le
  rwa [saturated_of_mem ordered inside] at kept

/-- **When the saturated number is the one from before**: it did not move, or it moved out
of the interval from the bound it crossed. -/
theorem saturated_eq_iff (inside : x ∈ Icc low high) :
    saturated ordered y = x ↔ y = x ∨ (y < x ∧ x = low) ∨ (x < y ∧ x = high) := by
  constructor
  · intro same
    rcases le_or_gt y low with below | aboveLow
    · rw [saturated_of_le_low ordered below] at same
      rcases below.eq_or_lt with rfl | less
      · exact Or.inl same
      · exact Or.inr (Or.inl ⟨same ▸ less, same.symm⟩)
    · rcases le_or_gt high y with above | belowHigh
      · rw [saturated_of_high_le ordered above] at same
        rcases above.eq_or_lt with rfl | less
        · exact Or.inl same
        · exact Or.inr (Or.inr ⟨same ▸ less, same.symm⟩)
      · rw [saturated_of_mem ordered ⟨aboveLow.le, belowHigh.le⟩] at same
        exact Or.inl same
  · rintro (rfl | ⟨below, rfl⟩ | ⟨above, rfl⟩)
    · exact saturated_of_mem ordered inside
    · exact saturated_of_le_low ordered below.le
    · exact saturated_of_high_le ordered above.le

end Order

end Saturation
