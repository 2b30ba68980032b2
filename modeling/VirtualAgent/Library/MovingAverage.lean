import VirtualAgent.Library.Truncation
import Mathlib.Order.Interval.Set.UnorderedInterval
import Mathlib.Tactic.Ring

/-!
# Moving averages kept as integers

An exponential weighted moving average whose value is truncated to an integer
after every update. Under a constant observation it stays between where it is
and the observation (`average_mem_uIcc`), so it approaches without crossing and
comes to rest (`exists_rests`). The average rests at the observation when it comes
from above, and up to the inverse of the weight below it when it comes from
below (`average_eq_self_iff`).
-/

set_option autoImplicit false

namespace MovingAverage

open Truncation

/-! ## Approaches without crossing -/

section Approach

variable {f : ℤ → ℤ} {target : ℤ}

/-- Every step of `f` ends between where it starts and the target. -/
def Approaches (f : ℤ → ℤ) (target : ℤ) : Prop := ∀ a, f a ∈ Set.uIcc a target

namespace Approaches

theorem le_of_le (approaches : Approaches f target) {a : ℤ} (below : a ≤ target) :
    a ≤ f a ∧ f a ≤ target := by
  have between := approaches a
  rwa [Set.uIcc_of_le below] at between

theorem ge_of_ge (approaches : Approaches f target) {a : ℤ} (above : target ≤ a) :
    target ≤ f a ∧ f a ≤ a := by
  have between := approaches a
  rwa [Set.uIcc_of_ge above] at between

/-- From below the run climbs and stays below. -/
theorem iterate_of_le (approaches : Approaches f target) {a : ℤ} (below : a ≤ target) (n : ℕ) :
    f^[n] a ≤ f^[n + 1] a ∧ f^[n + 1] a ≤ target := by
  induction n generalizing a with
  | zero => exact approaches.le_of_le below
  | succ n ih => exact ih (approaches.le_of_le below).2

/-- From above the run falls and stays above. -/
theorem iterate_of_ge (approaches : Approaches f target) {a : ℤ} (above : target ≤ a) (n : ℕ) :
    target ≤ f^[n + 1] a ∧ f^[n + 1] a ≤ f^[n] a := by
  induction n generalizing a with
  | zero => exact approaches.ge_of_ge above
  | succ n ih => exact ih (approaches.ge_of_ge above).1

/-- A bound below the start and the target is a bound below the run. -/
theorem le_iterate (approaches : Approaches f target) {bound a : ℤ} (observed : bound ≤ target)
    (start : bound ≤ a) (n : ℕ) : bound ≤ f^[n] a := by
  induction n generalizing a with
  | zero => exact start
  | succ n ih =>
      apply ih
      rcases le_total a target with below | above
      · exact start.trans (approaches.le_of_le below).1
      · exact observed.trans (approaches.ge_of_ge above).1

/-- A step that moves brings the target nearer. -/
theorem distance_lt (approaches : Approaches f target) {a : ℤ} (moves : f a ≠ a) :
    (target - f a).natAbs < (target - a).natAbs := by
  rcases le_total a target with below | above
  · obtain ⟨up, upTo⟩ := approaches.le_of_le below
    omega
  · obtain ⟨downTo, down⟩ := approaches.ge_of_ge above
    omega

/-- **The run comes to rest**, after at most as many steps as the target is away. -/
theorem exists_rests (approaches : Approaches f target) (a : ℤ) :
    ∃ n ≤ (target - a).natAbs, f (f^[n] a) = f^[n] a := by
  induction size : (target - a).natAbs using Nat.strong_induction_on generalizing a with
  | _ size' ih =>
      by_cases rests : f a = a
      · exact ⟨0, Nat.zero_le _, rests⟩
      · have nearer := approaches.distance_lt rests
        rw [size] at nearer
        obtain ⟨n, few, later⟩ := ih _ nearer (f a) rfl
        exact ⟨n + 1, by omega, later⟩

end Approaches

/-- A run that rests stays where it is. -/
theorem iterate_eq_of_rests {a : ℤ} {n : ℕ} (rests : f (f^[n] a) = f^[n] a) {k : ℕ}
    (later : n ≤ k) : f^[k] a = f^[n] a := by
  induction k, later using Nat.le_induction with
  | base => rfl
  | succ k _ ih => rw [Function.iterate_succ_apply', ih, rests]

end Approach

/-! ## The average -/

section Average

variable {K : Type*} [Field K]

/-- The average before truncation is where it was, and the weighted way from there. -/
theorem weighted_eq (weight : K) (observation a : ℤ) :
    (1 - weight) * a + weight * observation = a + weight * (observation - a : ℤ) := by
  push_cast
  ring

variable [LinearOrder K] [FloorRing K]

/-- The average after one more observation, with the weight of that. -/
def average (weight : K) (observation a : ℤ) : ℤ :=
  truncate ((1 - weight) * a + weight * observation)

variable [IsStrictOrderedRing K] {weight : K} {observation a : ℤ}

/-- **The average ends between where it is and the observation.** -/
theorem average_mem_uIcc (nonneg : 0 ≤ weight) (atMostOne : weight ≤ 1) (observation a : ℤ) :
    average weight observation a ∈ Set.uIcc a observation := by
  have rest : 0 ≤ 1 - weight := by linarith
  rcases le_total a observation with below | above
  · have order : (a : K) ≤ observation := by exact_mod_cast below
    rw [Set.uIcc_of_le below]
    constructor
    · have start := truncate_mono (show (a : K) ≤ (1 - weight) * a + weight * observation by
        nlinarith)
      rwa [truncate_intCast] at start
    · have finish := truncate_mono
        (show (1 - weight) * (a : K) + weight * observation ≤ observation by nlinarith)
      rwa [truncate_intCast] at finish
  · have order : (observation : K) ≤ a := by exact_mod_cast above
    rw [Set.uIcc_of_ge above]
    constructor
    · have finish := truncate_mono
        (show (observation : K) ≤ (1 - weight) * a + weight * observation by nlinarith)
      rwa [truncate_intCast] at finish
    · have start := truncate_mono (show (1 - weight) * (a : K) + weight * observation ≤ a by
        nlinarith)
      rwa [truncate_intCast] at start

theorem approaches_average (nonneg : 0 ≤ weight) (atMostOne : weight ≤ 1) (observation : ℤ) :
    Approaches (average weight observation) observation :=
  average_mem_uIcc nonneg atMostOne observation

/-- On the numbers from zero on the average is rounded down. -/
theorem average_eq_floor (nonneg : 0 ≤ weight) (atMostOne : weight ≤ 1)
    (observed : 0 ≤ observation) (start : 0 ≤ a) :
    average weight observation a = a + ⌊weight * ((observation - a : ℤ) : K)⌋ := by
  have rest : 0 ≤ 1 - weight := by linarith
  have observed' : (0 : K) ≤ observation := by exact_mod_cast observed
  have start' : (0 : K) ≤ a := by exact_mod_cast start
  have sum : 0 ≤ (1 - weight) * a + weight * observation :=
    add_nonneg (mul_nonneg rest start') (mul_nonneg nonneg observed')
  rw [average, truncate_of_nonneg sum, weighted_eq, Int.floor_intCast_add]

/-- **Where the average rests**: at the observation or below it, by less than the inverse
of the weight. -/
theorem average_eq_self_iff (positive : 0 < weight) (atMostOne : weight ≤ 1)
    (observed : 0 ≤ observation) (start : 0 ≤ a) :
    average weight observation a = a ↔ a ≤ observation ∧ (observation : K) - 1 / weight < a := by
  have zero : average weight observation a = a ↔
      ⌊weight * ((observation - a : ℤ) : K)⌋ = 0 := by
    rw [average_eq_floor positive.le atMostOne observed start, add_eq_left]
  have reach : weight * ((observation - a : ℤ) : K) < 1 ↔ (observation : K) - 1 / weight < a := by
    rw [sub_lt_comm, lt_div_iff₀ positive, mul_comm]
    push_cast
    rfl
  have order : 0 ≤ weight * ((observation - a : ℤ) : K) ↔ a ≤ observation := by
    rw [mul_nonneg_iff_of_pos_left positive, Int.cast_nonneg_iff, sub_nonneg]
  rw [zero, Int.floor_eq_zero_iff, Set.mem_Ico, order, reach]

end Average

end MovingAverage
