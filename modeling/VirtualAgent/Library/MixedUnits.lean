import Mathlib.Data.Prod.Lex
import Mathlib.Tactic.Linarith

/-!
# A quantity in two units

A quantity of small units is given as the whole large units in it and the small ones left
over, compared by the large units first. `inUnits_le_inUnits` says that this order is the
order of the quantities, so nothing is lost by giving a quantity in two units.

`inUnits_div` is for code that counts in a third, still smaller unit: it may divide at
once by the large unit, and divide the rest afterwards.
-/

set_option autoImplicit false

namespace MixedUnits

/-- A quantity in units of a size and the rest, in lexicographic order. -/
def inUnits (size n : ℤ) : ℤ ×ₗ ℤ := toLex (n / size, n % size)

section

variable {size : ℤ} (positive : 0 < size)

include positive

/-- The rest is less than a unit. -/
theorem rest_bounds (n : ℤ) : 0 ≤ n % size ∧ n % size < size :=
  ⟨Int.emod_nonneg n positive.ne', Int.emod_lt_of_pos n positive⟩

theorem inUnits_mono {m n : ℤ} (le : m ≤ n) : inUnits size m ≤ inUnits size n := by
  have units : m / size ≤ n / size := Int.ediv_le_ediv positive le
  apply Prod.Lex.toLex_le_toLex.mpr
  rcases units.lt_or_eq with fewer | same
  · exact Or.inl fewer
  · refine Or.inr ⟨same, ?_⟩
    have whole_m := Int.mul_ediv_add_emod m size
    have whole_n := Int.mul_ediv_add_emod n size
    dsimp only at same ⊢
    rw [same] at whole_m
    linarith

/-- **The order of the quantities is the lexicographic order of their units.** -/
theorem inUnits_le_inUnits {m n : ℤ} : inUnits size m ≤ inUnits size n ↔ m ≤ n := by
  constructor
  · intro le
    by_contra less
    have same := le_antisymm le (inUnits_mono positive (not_le.mp less).le)
    obtain ⟨units, rest⟩ := Prod.ext_iff.mp (toLex_inj.mp same)
    have whole_m := Int.mul_ediv_add_emod m size
    have whole_n := Int.mul_ediv_add_emod n size
    dsimp only at units rest
    rw [units, rest] at whole_m
    exact less (whole_m.symm.trans whole_n).le
  · exact inUnits_mono positive

omit positive in
/-- **Dividing by the large unit first**, and the rest by the smaller one, counts the same. -/
theorem inUnits_div {small : ℤ} (small_pos : 0 < small) (n : ℤ) :
    inUnits size (n / small) =
      toLex (n / (size * small), (n - n / (size * small) * (size * small)) / small) := by
  have units : n / small / size = n / (size * small) := by
    rw [Int.ediv_ediv_of_nonneg small_pos.le, mul_comm]
  have rest : (n - n / (size * small) * (size * small)) / small = n / small % size := by
    rw [← units, ← mul_assoc, Int.sub_mul_ediv_right _ _ small_pos.ne', Int.emod_def, mul_comm size]
  rw [inUnits, units, rest]

end

end MixedUnits
