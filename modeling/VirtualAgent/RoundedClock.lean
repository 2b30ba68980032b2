import VirtualAgent.QemuTimer

/-!
# Clock readings in machine arithmetic

A reading of the running clock, or tick counter, is `restart + (now - restart) / tdf + offset`,
with each `long double` result rounded and the last one cut to an integer. The integers that
occur are points of the format. So rounding crosses none of them, and where `int64_t` holds
what is computed (`Fits`) the reading lies between the frozen value plus the quotient rounded
down and the frozen value plus the quotient rounded up (`Fits.dilated_bounds`). It does not
fall when the host's reading grows (`dilated_mono`), and it is the exact value rounded down
unless that is within the rounding errors of the next integer (`Fits.dilated_eq`).
-/

set_option autoImplicit false

namespace VirtualAgent

namespace TimersState

open ExactFloat Format
open ExactFloat.LongDouble (hasValue_ofRat hasValue_ofInt)

/-- The reading before it is cut to an integer, for a quotient. -/
def roundedSum (restart offset : ℤ) (quotient : ℚ) : ℚ :=
  extended.rounded (extended.rounded (restart + extended.rounded quotient) + offset)

/-- The quotient of the elapsed time and the factor. -/
def quotient (restart now : ℤ) (tdf : ℚ) : ℚ := ((now - restart : ℤ) : ℚ) / tdf

/-- `int64_t` holds the readings of the host, their difference, the offset and the result. -/
structure Fits (restart now offset : ℤ) (tdf : ℚ) : Prop where
  later : restart ≤ now
  base : 0 ≤ offset + restart
  restart_le : |restart| ≤ 2 ^ 63
  offset_le : |offset| ≤ 2 ^ 63
  elapsed : now - restart < 2 ^ 63
  result : offset + restart + ⌈quotient restart now tdf⌉ < 2 ^ 63

/-- The integers of 64 bits, with either sign, are points of the format. -/
theorem isPoint_of_abs_le {n : ℤ} (few : |n| ≤ 2 ^ 64) : (n : ℚ) ∈ extended.points :=
  extended.intCast_mem_points few

section Sum

variable {restart offset n : ℤ} {p q : ℚ}

/-- A greater quotient does not give a smaller reading. -/
theorem roundedSum_mono (le : p ≤ q) :
    roundedSum restart offset p ≤ roundedSum restart offset q := by
  have first := rounded_mono (f := extended) le
  have second := rounded_mono (f := extended) (add_le_add_right first (restart : ℚ))
  exact rounded_mono (add_le_add_left second (offset : ℚ))

/-- A quotient that is an integer gives the exact value. -/
theorem roundedSum_intCast (few : |n| ≤ 2 ^ 64) (few' : |restart + n| ≤ 2 ^ 64)
    (few'' : |restart + n + offset| ≤ 2 ^ 64) :
    roundedSum restart offset n = (restart + n + offset : ℤ) := by
  rw [roundedSum, rounded_of_mem (isPoint_of_abs_le few), ← Int.cast_add,
    rounded_of_mem (isPoint_of_abs_le few'), ← Int.cast_add,
    rounded_of_mem (isPoint_of_abs_le few'')]

end Sum

namespace Fits

variable {restart now offset : ℤ} {tdf : ℚ}

theorem quotient_nonneg (fits : Fits restart now offset tdf) (positive : 0 < tdf) :
    0 ≤ quotient restart now tdf := by
  refine div_nonneg ?_ positive.le
  exact_mod_cast sub_nonneg.mpr fits.later

/-- **Rounding does not leave the integers around the exact value.** -/
theorem roundedSum_bounds (fits : Fits restart now offset tdf) (positive : 0 < tdf) :
    ((offset + restart + ⌊quotient restart now tdf⌋ : ℤ) : ℚ) ≤
        roundedSum restart offset (quotient restart now tdf) ∧
      roundedSum restart offset (quotient restart now tdf) ≤
        ((offset + restart + ⌈quotient restart now tdf⌉ : ℤ) : ℚ) := by
  have nonneg := fits.quotient_nonneg positive
  have low := Int.floor_nonneg.mpr nonneg
  have high := Int.floor_le_ceil (quotient restart now tdf)
  obtain ⟨base, restart_le, offset_le, result⟩ :=
    (⟨fits.base, abs_le.mp fits.restart_le, abs_le.mp fits.offset_le, fits.result⟩ :
      0 ≤ offset + restart ∧ (_ ≤ restart ∧ restart ≤ _) ∧ (_ ≤ offset ∧ offset ≤ _) ∧ _)
  have atInteger : ∀ n : ℤ, 0 ≤ n → n ≤ ⌈quotient restart now tdf⌉ →
      roundedSum restart offset n = (offset + restart + n : ℤ) := by
    intro n nonneg le
    rw [roundedSum_intCast (abs_le.mpr ⟨by omega, by omega⟩) (abs_le.mpr ⟨by omega, by omega⟩)
      (abs_le.mpr ⟨by omega, by omega⟩)]
    congr 1
    ring
  rw [← atInteger _ low high, ← atInteger _ (low.trans high) le_rfl]
  exact ⟨roundedSum_mono (Int.floor_le _), roundedSum_mono (Int.le_ceil _)⟩

/-- **The formula is the rounded sum cut to an integer.** -/
theorem dilated_machine (fits : Fits restart now offset tdf) (positive : 0 < tdf) :
    dilated restart now offset (.ofRat tdf) .machine =
      ⌊roundedSum restart offset (quotient restart now tdf)⌋ := by
  have nonneg := fits.quotient_nonneg positive
  obtain ⟨low, high⟩ := fits.roundedSum_bounds positive
  have range : ∀ {x : LongDouble} {q : ℚ} {k : ℕ}, x.HasValue q → |q| ≤ 2 ^ k → k ≤ 66 →
      (extended.round x).HasValue (extended.rounded q) := by
    intro x q k value small le
    exact extended.hasValue_round_of_le value
      (small.trans (pow_le_pow_right₀ one_le_two (le.trans (by decide))))
  have restart_le : |(restart : ℚ)| ≤ 2 ^ 63 := by exact_mod_cast fits.restart_le
  have offset_le : |(offset : ℚ)| ≤ 2 ^ 63 := by exact_mod_cast fits.offset_le
  -- the quotient, the first sum and the second one stay below small powers of two
  have small : |quotient restart now tdf| ≤ 2 ^ 64 := by
    have upper : ⌈quotient restart now tdf⌉ ≤ 2 ^ 64 := by
      have := fits.base
      have := fits.result
      omega
    rw [abs_of_nonneg nonneg]
    exact (Int.le_ceil _).trans (by exact_mod_cast upper)
  have small' := extended.abs_rounded_le_pow small
  have sum : |(restart : ℚ) + extended.rounded (quotient restart now tdf)| ≤ 2 ^ 65 := by
    refine (abs_add_le _ _).trans ((add_le_add restart_le small').trans ?_)
    norm_num
  have sum' := extended.abs_rounded_le_pow sum
  have total : |extended.rounded (restart + extended.rounded (quotient restart now tdf)) +
      offset| ≤ 2 ^ 66 := by
    refine (abs_add_le _ _).trans ((add_le_add sum' offset_le).trans ?_)
    norm_num
  have atQuotient := range ((hasValue_ofInt (now - restart)).div (hasValue_ofRat tdf) positive.ne')
    small (by decide)
  have atSum := range ((hasValue_ofInt restart).add atQuotient) sum (by decide)
  have atTotal := range (atSum.add (hasValue_ofInt offset)) total (by decide)
  have base : (0 : ℚ) ≤ ((offset + restart + ⌊quotient restart now tdf⌋ : ℤ) : ℚ) := by
    exact_mod_cast add_nonneg fits.base (Int.floor_nonneg.mpr nonneg)
  have fitsResult : ((offset + restart + ⌈quotient restart now tdf⌉ : ℤ) : ℚ) < 2 ^ 63 := by
    exact_mod_cast fits.result
  have nonnegSum := base.trans low
  simp only [dilated, Arithmetic.machine_extended, Arithmetic.machine_toInt64]
  rw [atTotal.toInt64 (le_trans (by norm_num) nonnegSum) (high.trans_lt fitsResult)]
  exact Truncation.truncate_of_nonneg nonnegSum

/-- **A reading is the frozen value and the quotient, rounded down or up.** -/
theorem dilated_bounds (fits : Fits restart now offset tdf) (positive : 0 < tdf) :
    offset + restart + ⌊quotient restart now tdf⌋ ≤
        dilated restart now offset (.ofRat tdf) .machine ∧
      dilated restart now offset (.ofRat tdf) .machine ≤
        offset + restart + ⌈quotient restart now tdf⌉ := by
  obtain ⟨low, high⟩ := fits.roundedSum_bounds positive
  rw [fits.dilated_machine positive]
  exact ⟨Int.le_floor.mpr low, by exact_mod_cast (Int.floor_le _).trans high⟩

/-- **A later reading is not less.** -/
theorem dilated_mono {earlier : ℤ} (fits : Fits restart now offset tdf)
    (before : Fits restart earlier offset tdf) (positive : 0 < tdf) (le : earlier ≤ now) :
    dilated restart earlier offset (.ofRat tdf) .machine ≤
      dilated restart now offset (.ofRat tdf) .machine := by
  rw [fits.dilated_machine positive, before.dilated_machine positive]
  refine Int.floor_mono (roundedSum_mono ?_)
  refine div_le_div_of_nonneg_right ?_ positive.le
  exact_mod_cast sub_le_sub_right le restart

/-- The errors of the three roundings. -/
theorem abs_roundedSum_sub_le (fits : Fits restart now offset tdf) (positive : 0 < tdf) :
    |roundedSum restart offset (quotient restart now tdf) -
        (offset + restart + quotient restart now tdf)| ≤
      (|(restart : ℚ)| + (offset + restart) + quotient restart now tdf + 2) / 2 ^ 62 := by
  have nonneg := fits.quotient_nonneg positive
  have base : (0 : ℚ) ≤ offset + restart := by exact_mod_cast fits.base
  have close : ∀ x : ℚ, |extended.rounded x - x| ≤ |x| / 2 ^ 64 + 1 / 2 ^ 64 := by
    intro x
    refine (extended.abs_rounded_sub_le x).trans (add_le_add (by norm_num [extended]) ?_)
    have unit : (2 : ℚ) ^ extended.least ≤ (2 : ℚ) ^ (-64 : ℤ) :=
      zpow_le_zpow_right₀ one_le_two (by decide)
    rw [zpow_neg] at unit
    have half : (0 : ℚ) ≤ (2 : ℚ) ^ extended.least := (zpow_pos two_pos _).le
    norm_num at unit ⊢
    linarith
  let first := extended.rounded (quotient restart now tdf)
  let second := extended.rounded (restart + first)
  have firstClose := close (quotient restart now tdf)
  have secondClose := close (restart + first)
  have thirdClose := close (second + offset)
  rw [abs_of_nonneg nonneg] at firstClose
  -- what is rounded is near the exact value, so the later errors are small beside that
  have sum_le : |restart + first| ≤ |(restart : ℚ)| + quotient restart now tdf +
      |first - quotient restart now tdf| := by
    have parts := abs_add_three (restart : ℚ) (quotient restart now tdf)
      (first - quotient restart now tdf)
    rwa [add_assoc, add_sub_cancel, abs_of_nonneg nonneg] at parts
  have total_le : |second + offset| ≤ offset + restart + quotient restart now tdf +
      |first - quotient restart now tdf| + |second - (restart + first)| := by
    have parts := abs_add_three (offset + restart + quotient restart now tdf)
      (first - quotient restart now tdf) (second - (restart + first))
    have split : offset + restart + quotient restart now tdf + (first - quotient restart now tdf) +
        (second - (restart + first)) = second + offset := by ring
    rwa [abs_of_nonneg (add_nonneg base nonneg), split] at parts
  have error_le : |roundedSum restart offset (quotient restart now tdf) -
      (offset + restart + quotient restart now tdf)| ≤
        |roundedSum restart offset (quotient restart now tdf) - (second + offset)| +
          |second - (restart + first)| + |first - quotient restart now tdf| := by
    have parts := abs_add_three
      (roundedSum restart offset (quotient restart now tdf) - (second + offset))
      (second - (restart + first)) (first - quotient restart now tdf)
    have split : roundedSum restart offset (quotient restart now tdf) - (second + offset) +
        (second - (restart + first)) + (first - quotient restart now tdf) =
          roundedSum restart offset (quotient restart now tdf) -
            (offset + restart + quotient restart now tdf) := by ring
    rwa [split] at parts
  have restart_nonneg := abs_nonneg (restart : ℚ)
  change |roundedSum restart offset (quotient restart now tdf) - (second + offset)| ≤ _
    at thirdClose
  linarith

/-- **The reading is the exact value rounded down**, unless the quotient is within the
rounding errors of the next integer. -/
theorem dilated_eq (fits : Fits restart now offset tdf) (positive : 0 < tdf)
    (clear : (|(restart : ℚ)| + (offset + restart) + quotient restart now tdf + 2) / 2 ^ 62 <
      ⌊quotient restart now tdf⌋ + 1 - quotient restart now tdf) :
    dilated restart now offset (.ofRat tdf) .machine =
      offset + restart + ⌊quotient restart now tdf⌋ := by
  have low := (fits.dilated_bounds positive).1
  have close := (abs_le.mp (fits.abs_roundedSum_sub_le positive)).2
  refine le_antisymm ?_ low
  rw [fits.dilated_machine positive, ← Int.lt_add_one_iff, Int.floor_lt]
  push_cast
  linarith

end Fits

end TimersState

end VirtualAgent
