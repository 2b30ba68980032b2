import VirtualAgent.Library.ExactFloat
import Mathlib.Algebra.Order.Field.Power
import Mathlib.Data.Nat.Log
import Mathlib.Tactic.FieldSimp
import Mathlib.Tactic.NormNum
import Mathlib.Tactic.Positivity
import Mathlib.Tactic.Ring

/-!
# Rounding to the nearest point

A number is rounded to a point of a set that no other point of the set is nearer to.
Whatever becomes of ties, no point is crossed (`IsNearest.le_of_le`,
`IsNearest.ge_of_ge`), and the order is kept (`IsNearest.mono`).

A digit grid has the numbers with a bounded number of digits. To round the digits of a
number to the nearest integer is to round the number to the grid (`isNearest_digitGrid`),
with an error that is small beside the number (`abs_sub_le_of_digits`). So are the first
digits of a quotient in any base rounded (`significant_spec`).
-/

set_option autoImplicit false

namespace Rounding

open ExactFloat

/-! ## The nearest point -/

section Nearest

variable {K : Type*} [Field K] [LinearOrder K] [IsStrictOrderedRing K]
variable {points : Set K} {x x' y y' bound : K}

/-- The point is one of those nearest to a number. -/
def IsNearest (points : Set K) (x y : K) : Prop :=
  y ∈ points ∧ ∀ z ∈ points, |y - x| ≤ |z - x|

/-- No point is crossed from above. -/
theorem IsNearest.le_of_le (nearest : IsNearest points x y) (point : bound ∈ points)
    (le : bound ≤ x) : bound ≤ y := by
  by_contra below
  have closer := nearest.2 bound point
  rw [not_le] at below
  rw [abs_of_neg (by linarith), abs_of_nonpos (by linarith)] at closer
  linarith

/-- No point is crossed from below. -/
theorem IsNearest.ge_of_ge (nearest : IsNearest points x y) (point : bound ∈ points)
    (le : x ≤ bound) : y ≤ bound := by
  by_contra above
  have closer := nearest.2 bound point
  rw [not_le] at above
  rw [abs_of_pos (by linarith), abs_of_nonneg (by linarith)] at closer
  linarith

/-- **Different numbers keep their order.** -/
theorem IsNearest.mono (first : IsNearest points x y) (second : IsNearest points x' y')
    (less : x < x') : y ≤ y' := by
  by_contra crossed
  rw [not_le] at crossed
  -- each result is no farther than the other one, so the middle lies on both sides
  have below := sq_le_sq.mpr (first.2 y' second.1)
  have above := sq_le_sq.mpr (second.2 y first.1)
  nlinarith

end Nearest

/-! ## Integers -/

/-- A half is as near as an integer comes. -/
theorem abs_sub_le_of_half {m : ℤ} {x : ℚ} (half : |(m : ℚ) - x| ≤ 1 / 2) (z : ℤ) :
    |(m : ℚ) - x| ≤ |(z : ℚ) - x| := by
  by_cases same : m = z
  · rw [same]
  · have apart : (1 : ℚ) ≤ |(m : ℚ) - z| := by
      exact_mod_cast Int.one_le_abs (sub_ne_zero.mpr same)
    have triangle := abs_sub_le (m : ℚ) x z
    rw [abs_sub_comm x] at triangle
    linarith

theorem div_eq_add_rest (n : ℕ) {d : ℕ} (positive : 0 < d) :
    (n : ℚ) / d = (n / d : ℕ) + (n % d : ℕ) / d := by
  have positive' : (0 : ℚ) < d := by exact_mod_cast positive
  rw [eq_comm, ← mul_left_inj' positive'.ne', add_mul, div_mul_cancel₀ _ positive'.ne',
    div_mul_cancel₀ _ positive'.ne']
  exact_mod_cast Nat.div_add_mod' n d

/-- **The rounded quotient is within a half of the quotient.** -/
theorem roundQuotient_half (n : ℕ) {d : ℕ} (positive : 0 < d) :
    |(LongDouble.roundQuotient n d : ℚ) - n / d| ≤ 1 / 2 := by
  have positive' : (0 : ℚ) < d := by exact_mod_cast positive
  have rest : (0 : ℚ) ≤ (n % d : ℕ) / d := by positivity
  rw [div_eq_add_rest n positive]
  unfold LongDouble.roundQuotient
  split
  case isTrue below =>
    have small : ((n % d : ℕ) : ℚ) / d < 1 / 2 := by
      rw [div_lt_div_iff₀ positive' two_pos]
      exact_mod_cast (by omega : n % d * 2 < 1 * d)
    rw [abs_le]
    constructor <;> linarith
  case isFalse notBelow =>
    have large : (1 : ℚ) / 2 ≤ ((n % d : ℕ) : ℚ) / d := by
      rw [div_le_div_iff₀ two_pos positive']
      exact_mod_cast (by omega : 1 * d ≤ n % d * 2)
    have part : ((n % d : ℕ) : ℚ) / d < 1 := by
      rw [div_lt_one positive']
      exact_mod_cast Nat.mod_lt n positive
    split
    case isTrue =>
      push_cast at large part ⊢
      rw [abs_le]
      constructor <;> linarith
    case isFalse notAbove =>
      have tie : ((n % d : ℕ) : ℚ) / d ≤ 1 / 2 := by
        rw [div_le_div_iff₀ positive' two_pos]
        exact_mod_cast (by omega : n % d * 2 ≤ 1 * d)
      have even : ((n / d % 2 : ℕ) : ℚ) ≤ 1 := by
        exact_mod_cast (by omega : n / d % 2 ≤ 1)
      have nonneg : (0 : ℚ) ≤ (n / d % 2 : ℕ) := Nat.cast_nonneg _
      push_cast at large tie even nonneg ⊢
      rw [abs_le]
      constructor <;> linarith

/-- Of two integers equally near the even one is taken. -/
theorem even_roundQuotient (n : ℕ) {d : ℕ} (positive : 0 < d)
    (tie : |(LongDouble.roundQuotient n d : ℚ) - n / d| = 1 / 2) :
    Even (LongDouble.roundQuotient n d) := by
  have positive' : (0 : ℚ) < d := by exact_mod_cast positive
  have rest : (0 : ℚ) ≤ (n % d : ℕ) / d := by positivity
  rw [div_eq_add_rest n positive] at tie
  unfold LongDouble.roundQuotient at tie ⊢
  split at tie
  case isTrue below =>
    have small : ((n % d : ℕ) : ℚ) / d < 1 / 2 := by
      rw [div_lt_div_iff₀ positive' two_pos]
      exact_mod_cast (by omega : n % d * 2 < 1 * d)
    rw [sub_add_cancel_left, abs_neg, abs_of_nonneg rest] at tie
    exact absurd tie small.ne
  case isFalse notBelow =>
    rw [if_neg notBelow]
    split at tie
    case isTrue above =>
      have large : (1 : ℚ) / 2 < ((n % d : ℕ) : ℚ) / d := by
        rw [div_lt_div_iff₀ two_pos positive']
        exact_mod_cast (by omega : 1 * d < n % d * 2)
      have part : ((n % d : ℕ) : ℚ) / d < 1 := by
        rw [div_lt_one positive']
        exact_mod_cast Nat.mod_lt n positive
      push_cast at tie large part
      rw [add_sub_add_left_eq_sub, abs_of_pos (by linarith)] at tie
      linarith
    case isFalse notAbove =>
      rw [if_neg notAbove, Nat.even_iff]
      omega

/-! ## Digit grids -/

/-- The numbers with `p + 1` digits in a base, or that power of it, and one of the
exponents. -/
def digitGrid (base p : ℕ) (exponents : Set ℤ) : Set ℚ :=
  { x | ∃ digits : ℕ, ∃ e ∈ exponents, digits ≤ base ^ (p + 1) ∧ x = digits * (base : ℚ) ^ e }

section DigitGrid

variable {base p m : ℕ} {e : ℤ} {exponents : Set ℤ} {x : ℚ}

/-- **Rounding the digits to an integer is rounding to the grid**, when the exponent is the
one that gives the number all its digits, or the least there is. -/
theorem isNearest_digitGrid (large : 1 < base) (allowed : e ∈ exponents)
    (half : |(m : ℚ) - x / (base : ℚ) ^ e| ≤ 1 / 2)
    (upper : x ≤ (base : ℚ) ^ (p + 1) * (base : ℚ) ^ e)
    (lower : ∀ other ∈ exponents, other < e → (base : ℚ) ^ p * (base : ℚ) ^ e ≤ x) :
    IsNearest (digitGrid base p exponents) x (m * (base : ℚ) ^ e) := by
  have atLeastOne : (1 : ℚ) ≤ base := by exact_mod_cast large.le
  have unit : (0 : ℚ) < (base : ℚ) ^ e := zpow_pos (by linarith) e
  have multiples : ∀ z : ℤ, |(m : ℚ) * (base : ℚ) ^ e - x| ≤ |z * (base : ℚ) ^ e - x| := by
    intro z
    have nearest := abs_sub_le_of_half (m := m) (by simpa using half) z
    have scale : ∀ a : ℚ, |a * (base : ℚ) ^ e - x| = |a - x / (base : ℚ) ^ e| * (base : ℚ) ^ e := by
      intro a
      rw [← abs_of_pos unit, ← abs_mul, abs_of_pos unit, sub_mul, div_mul_cancel₀ _ unit.ne']
    rw [scale, scale]
    exact mul_le_mul_of_nonneg_right (by simpa using nearest) unit.le
  constructor
  · refine ⟨m, e, allowed, ?_, rfl⟩
    have quotient : x / (base : ℚ) ^ e ≤ (base : ℚ) ^ (p + 1) := (div_le_iff₀ unit).mpr upper
    have above := (abs_le.mp half).2
    have close : (m : ℚ) < (base : ℚ) ^ (p + 1) + 1 := by linarith
    exact_mod_cast Nat.lt_succ_iff.mp (by exact_mod_cast close)
  · rintro z ⟨digits, other, otherAllowed, few, rfl⟩
    rcases le_or_gt e other with coarser | finer
    · -- a number of a coarser unit is one of this unit, too
      obtain ⟨k, rfl⟩ := Int.le.dest coarser
      have sameUnit : (digits : ℚ) * (base : ℚ) ^ (e + k) =
          ((digits * base ^ k : ℕ) : ℤ) * (base : ℚ) ^ e := by
        rw [zpow_add₀ (by linarith), zpow_natCast]
        push_cast
        ring
      rw [sameUnit]
      exact multiples _
    · -- a number of a finer unit ends below the least one of this unit
      have least := lower other otherAllowed finer
      have step : (base : ℚ) ^ (other + 1) ≤ (base : ℚ) ^ e :=
        zpow_le_zpow_right₀ atLeastOne (by omega)
      have few' : (digits : ℚ) ≤ (base : ℚ) ^ (p + 1) := by exact_mod_cast few
      have ends : (digits : ℚ) * (base : ℚ) ^ other ≤ (base : ℚ) ^ p * (base : ℚ) ^ e := by
        calc (digits : ℚ) * (base : ℚ) ^ other
            ≤ (base : ℚ) ^ (p + 1) * (base : ℚ) ^ other :=
              mul_le_mul_of_nonneg_right few' (zpow_nonneg (by linarith) _)
          _ = (base : ℚ) ^ p * (base : ℚ) ^ (other + 1) := by
              rw [zpow_add₀ (by linarith), zpow_one]
              ring
          _ ≤ (base : ℚ) ^ p * (base : ℚ) ^ e :=
              mul_le_mul_of_nonneg_left step (by positivity)
      have nearest := multiples ((base ^ p : ℕ) : ℤ)
      push_cast at nearest
      rw [abs_of_nonpos (by linarith : (base : ℚ) ^ p * (base : ℚ) ^ e - x ≤ 0)] at nearest
      rw [abs_of_nonpos (by linarith : (digits : ℚ) * (base : ℚ) ^ other - x ≤ 0)]
      linarith

/-- The error is small beside a number that has all its digits. -/
theorem abs_sub_le_of_digits (large : 1 < base)
    (half : |(m : ℚ) - x / (base : ℚ) ^ e| ≤ 1 / 2)
    (lower : (base : ℚ) ^ p * (base : ℚ) ^ e ≤ x) :
    |m * (base : ℚ) ^ e - x| ≤ x / (2 * (base : ℚ) ^ p) := by
  have basePos : (0 : ℚ) < base := by exact_mod_cast large.trans' one_pos
  have unit : (0 : ℚ) < (base : ℚ) ^ e := zpow_pos basePos e
  have power : (0 : ℚ) < (base : ℚ) ^ p := by positivity
  have scaled : |m * (base : ℚ) ^ e - x| = |(m : ℚ) - x / (base : ℚ) ^ e| * (base : ℚ) ^ e := by
    rw [← abs_of_pos unit, ← abs_mul, abs_of_pos unit, sub_mul, div_mul_cancel₀ _ unit.ne']
  calc |m * (base : ℚ) ^ e - x|
      ≤ 1 / 2 * (base : ℚ) ^ e := by
        rw [scaled]
        exact mul_le_mul_of_nonneg_right half unit.le
    _ ≤ x / (2 * (base : ℚ) ^ p) := by
        rw [le_div_iff₀ (by positivity)]
        linarith

end DigitGrid

/-! ## The exponent of a quotient -/

/-- The exponent of the greatest power of a base up to a positive quotient. -/
def floorLog (base n d : ℕ) : ℤ :=
  let guess : ℤ := (Nat.log base n : ℤ) - Nat.log base d
  if d * base ^ guess.toNat ≤ n * base ^ (-guess).toNat then guess else guess - 1

theorem floorLog2_eq (n d : ℕ) : LongDouble.floorLog2 n d = floorLog 2 n d := by
  simp only [LongDouble.floorLog2, floorLog, Nat.log2_eq_log_two]

/-- A power of either sign beside a quotient of natural numbers. -/
theorem div_zpow_eq {base : ℕ} (basePos : 0 < base) (n d : ℕ) (e : ℤ) :
    ((n * base ^ (-e).toNat : ℕ) : ℚ) / (d * base ^ e.toNat : ℕ) =
      (n : ℚ) / d / (base : ℚ) ^ e := by
  have nonzero : (base : ℚ) ≠ 0 := by exact_mod_cast basePos.ne'
  obtain ⟨k, rfl | rfl⟩ := e.eq_nat_or_neg
  · simp [div_div]
  · simp only [neg_neg, Int.toNat_natCast, Int.toNat_neg_natCast, pow_zero, mul_one, zpow_neg,
      zpow_natCast, div_inv_eq_mul]
    push_cast
    ring

theorem mul_zpow_eq {base : ℕ} (basePos : 0 < base) (m : ℕ) (e : ℤ) :
    ((m * base ^ e.toNat : ℕ) : ℚ) / (base ^ (-e).toNat : ℕ) = m * (base : ℚ) ^ e := by
  have turned := div_zpow_eq basePos m 1 (-e)
  rw [neg_neg, one_mul] at turned
  rw [turned, Nat.cast_one, div_one, zpow_neg, div_inv_eq_mul]

/-- **The quotient lies between two powers next to each other.** -/
theorem floorLog_spec {base n d : ℕ} (large : 1 < base) (positive : 0 < n) (positive' : 0 < d) :
    (base : ℚ) ^ floorLog base n d ≤ (n : ℚ) / d ∧
      (n : ℚ) / d < (base : ℚ) ^ (floorLog base n d + 1) := by
  have basePos : (0 : ℚ) < base := by exact_mod_cast large.trans' one_pos
  have denominator : (0 : ℚ) < d := by exact_mod_cast positive'
  let guess : ℤ := (Nat.log base n : ℤ) - Nat.log base d
  have power : ∀ k : ℕ, (0 : ℚ) < (base : ℚ) ^ k := fun k => pow_pos basePos k
  have split : (base : ℚ) ^ guess = (base : ℚ) ^ Nat.log base n / (base : ℚ) ^ Nat.log base d := by
    rw [zpow_sub₀ basePos.ne', zpow_natCast, zpow_natCast]
  have nLow : (base : ℚ) ^ Nat.log base n ≤ n := by
    exact_mod_cast Nat.pow_log_le_self base positive.ne'
  have nHigh : (n : ℚ) < (base : ℚ) ^ Nat.log base n * base := by
    exact_mod_cast Nat.lt_pow_succ_log_self large n
  have dLow : (base : ℚ) ^ Nat.log base d ≤ d := by
    exact_mod_cast Nat.pow_log_le_self base positive'.ne'
  have dHigh : (d : ℚ) < (base : ℚ) ^ Nat.log base d * base := by
    exact_mod_cast Nat.lt_pow_succ_log_self large d
  have high : (n : ℚ) / d < (base : ℚ) ^ (guess + 1) := by
    rw [zpow_add_one₀ basePos.ne', split, div_mul_eq_mul_div,
      div_lt_div_iff₀ denominator (power _)]
    calc (n : ℚ) * (base : ℚ) ^ Nat.log base d
        < (base : ℚ) ^ Nat.log base n * base * (base : ℚ) ^ Nat.log base d :=
          mul_lt_mul_of_pos_right nHigh (power _)
      _ ≤ (base : ℚ) ^ Nat.log base n * base * d :=
          mul_le_mul_of_nonneg_left dLow (mul_pos (power _) basePos).le
  have low : (base : ℚ) ^ (guess - 1) ≤ (n : ℚ) / d := by
    rw [zpow_sub_one₀ basePos.ne', split, ← div_eq_mul_inv, div_div,
      div_le_div_iff₀ (mul_pos (power _) basePos) denominator]
    calc (base : ℚ) ^ Nat.log base n * d
        ≤ n * d := mul_le_mul_of_nonneg_right nLow denominator.le
      _ ≤ n * ((base : ℚ) ^ Nat.log base d * base) :=
          mul_le_mul_of_nonneg_left dHigh.le (Nat.cast_nonneg n)
  have test : d * base ^ guess.toNat ≤ n * base ^ (-guess).toNat ↔
      (base : ℚ) ^ guess ≤ (n : ℚ) / d := by
    have quotient := div_zpow_eq (large.trans' one_pos) n d guess
    have positives : (0 : ℚ) < (d * base ^ guess.toNat : ℕ) := by
      exact_mod_cast Nat.mul_pos positive' (Nat.pow_pos (large.trans' one_pos))
    rw [← one_le_div (zpow_pos basePos guess), ← quotient, one_le_div positives]
    exact_mod_cast Iff.rfl
  change (base : ℚ) ^ (if _ then guess else guess - 1) ≤ _ ∧
    _ < (base : ℚ) ^ ((if _ then guess else guess - 1) + 1)
  split
  case isTrue fits => exact ⟨test.mp fits, high⟩
  case isFalse crossed =>
    rw [sub_add_cancel]
    exact ⟨low, not_le.mp (mt test.mpr crossed)⟩

/-! ## The first digits of a quotient -/

/-- The first `p + 1` digits of a positive quotient, rounded, and the exponent of the first
of them. -/
def significant (base p n d : ℕ) : ℕ × ℤ :=
  let exponent := floorLog base n d
  let digits := LongDouble.roundQuotient (n * base ^ (p - exponent).toNat)
    (d * base ^ (exponent - p).toNat)
  if digits = base ^ (p + 1) then (base ^ p, exponent + 1) else (digits, exponent)

/-- The number of some digits and the exponent of the first of them. -/
def significantValue (base p : ℕ) (digits : ℕ × ℤ) : ℚ :=
  digits.1 * (base : ℚ) ^ (digits.2 - p)

/-- The digits stand for the point of the grid that a positive number is rounded to. -/
structure IsSignificant (base p : ℕ) (x : ℚ) (digits : ℕ × ℤ) : Prop where
  atLeast : base ^ p ≤ digits.1
  below : digits.1 < base ^ (p + 1)
  nearest : IsNearest (digitGrid base p Set.univ) x (significantValue base p digits)
  close : |significantValue base p digits - x| ≤ x / (2 * (base : ℚ) ^ p)

/-- **The first digits of a quotient are those of the nearest number that has no more.** -/
theorem significant_spec {base n d : ℕ} (p : ℕ) (large : 1 < base) (positive : 0 < n)
    (positive' : 0 < d) : IsSignificant base p ((n : ℚ) / d) (significant base p n d) := by
  have basePos : (0 : ℚ) < base := by exact_mod_cast large.trans' one_pos
  obtain ⟨low, high⟩ := floorLog_spec large positive positive'
  let e : ℤ := floorLog base n d - p
  let m := LongDouble.roundQuotient (n * base ^ (p - floorLog base n d).toNat)
    (d * base ^ (floorLog base n d - p).toNat)
  have lower : (base : ℚ) ^ p * (base : ℚ) ^ e ≤ (n : ℚ) / d := by
    rwa [← zpow_natCast, ← zpow_add₀ basePos.ne', add_sub_cancel]
  have upper : (n : ℚ) / d < (base : ℚ) ^ (p + 1) * (base : ℚ) ^ e := by
    rwa [← zpow_natCast, ← zpow_add₀ basePos.ne',
      show ((p + 1 : ℕ) : ℤ) + e = floorLog base n d + 1 by push_cast; omega]
  have unit : (0 : ℚ) < (base : ℚ) ^ e := zpow_pos basePos e
  have half : |(m : ℚ) - (n : ℚ) / d / (base : ℚ) ^ e| ≤ 1 / 2 := by
    have quotient := div_zpow_eq (large.trans' one_pos) n d e
    rw [neg_sub] at quotient
    rw [← quotient]
    exact roundQuotient_half _ (Nat.mul_pos positive' (Nat.pow_pos (large.trans' one_pos)))
  have nearest := isNearest_digitGrid large (Set.mem_univ e) half upper.le fun _ _ _ => lower
  have close := abs_sub_le_of_digits large half lower
  obtain ⟨below, above⟩ := abs_le.mp half
  have atLeast : base ^ p ≤ m := by
    have quotient : (base : ℚ) ^ p ≤ (n : ℚ) / d / (base : ℚ) ^ e := (le_div_iff₀ unit).mpr lower
    have reached : (base : ℚ) ^ p < m + 1 := by linarith
    exact Nat.lt_succ_iff.mp (by exact_mod_cast reached)
  have atMost : m ≤ base ^ (p + 1) := by
    have quotient : (n : ℚ) / d / (base : ℚ) ^ e < (base : ℚ) ^ (p + 1) :=
      (div_lt_iff₀ unit).mpr upper
    have reached : (m : ℚ) < (base : ℚ) ^ (p + 1) + 1 := by linarith
    exact Nat.lt_succ_iff.mp (by exact_mod_cast reached)
  by_cases carried : m = base ^ (p + 1)
  · -- the digits round up to a power of the base, and the exponent to the next one
    have digits_eq : significant base p n d = (base ^ p, floorLog base n d + 1) := if_pos carried
    have value_eq : significantValue base p (significant base p n d) = m * (base : ℚ) ^ e := by
      rw [digits_eq, significantValue, carried, add_sub_right_comm, zpow_add_one₀ basePos.ne']
      push_cast
      ring
    refine ⟨?_, ?_, value_eq ▸ nearest, value_eq ▸ close⟩
    · rw [digits_eq]
    · rw [digits_eq]
      exact Nat.pow_lt_pow_right large (Nat.lt_succ_self p)
  · have digits_eq : significant base p n d = (m, floorLog base n d) := if_neg carried
    have value_eq : significantValue base p (significant base p n d) = m * (base : ℚ) ^ e := by
      rw [digits_eq, significantValue]
    refine ⟨?_, ?_, value_eq ▸ nearest, value_eq ▸ close⟩
    · rwa [digits_eq]
    · rw [digits_eq]
      exact lt_of_le_of_ne atMost carried

/-- The digits of a number are determined by it. -/
theorem significantValue_inj {base p : ℕ} (large : 1 < base) {first second : ℕ × ℤ}
    (atLeast : base ^ p ≤ first.1) (below : first.1 < base ^ (p + 1))
    (atLeast' : base ^ p ≤ second.1) (below' : second.1 < base ^ (p + 1))
    (same : significantValue base p first = significantValue base p second) : first = second := by
  have large' : (1 : ℚ) < base := by exact_mod_cast large
  have basePos : (0 : ℚ) < base := by linarith
  -- the exponent is that of the greatest power up to the number
  have exponent : ∀ digits : ℕ × ℤ, base ^ p ≤ digits.1 → digits.1 < base ^ (p + 1) →
      (base : ℚ) ^ digits.2 ≤ significantValue base p digits ∧
        significantValue base p digits < (base : ℚ) ^ (digits.2 + 1) := by
    intro digits atLeast below
    have unit : (0 : ℚ) < (base : ℚ) ^ (digits.2 - p) := zpow_pos basePos _
    have low : (base : ℚ) ^ p ≤ digits.1 := by exact_mod_cast atLeast
    have high : (digits.1 : ℚ) < (base : ℚ) ^ (p + 1) := by exact_mod_cast below
    constructor
    · calc (base : ℚ) ^ digits.2 = (base : ℚ) ^ p * (base : ℚ) ^ (digits.2 - p) := by
            rw [← zpow_natCast, ← zpow_add₀ basePos.ne', add_sub_cancel]
        _ ≤ significantValue base p digits := mul_le_mul_of_nonneg_right low unit.le
    · calc significantValue base p digits
          < (base : ℚ) ^ (p + 1) * (base : ℚ) ^ (digits.2 - p) :=
            mul_lt_mul_of_pos_right high unit
        _ = (base : ℚ) ^ (digits.2 + 1) := by
            rw [← zpow_natCast, ← zpow_add₀ basePos.ne']
            congr 1
            push_cast
            ring
  obtain ⟨low, high⟩ := exponent first atLeast below
  obtain ⟨low', high'⟩ := exponent second atLeast' below'
  rw [same] at low high
  have up := (zpow_lt_zpow_iff_right₀ large').mp (low.trans_lt high')
  have down := (zpow_lt_zpow_iff_right₀ large').mp (low'.trans_lt high)
  have exponent_eq : first.2 = second.2 := by omega
  unfold significantValue at same
  rw [exponent_eq, mul_left_inj' (zpow_pos basePos _).ne'] at same
  exact Prod.ext (by exact_mod_cast same) exponent_eq

end Rounding
