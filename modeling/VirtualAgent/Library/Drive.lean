import Mathlib.Algebra.Order.Archimedean.Basic
import Mathlib.Algebra.Order.Floor.Semiring
import Mathlib.Tactic.Linarith
import Mathlib.Tactic.Positivity
import Mathlib.Tactic.Ring

/-!
# Driving a value to its bound

A controller measures an error that shrinks by a factor in every step, and while the error
is within a margin it brings a value nearer to a bound, by a least amount each time.
`Driven` is what holds after a number of steps, `Driven.next` that a step keeps it, and
`exists_reached` that there is a number of steps after which the bound is reached, for all
such controllers at once.
-/

set_option autoImplicit false

namespace Drive

variable {K : Type*} [Field K] [LinearOrder K]
variable {rate start margin amount far : K} {k : ℕ} {error error' gap gap' : K}

/-- After `k` steps: the error has shrunk `k` times, and the gap has closed by the amount
in each step since the error has been within the margin. -/
structure Driven (rate start margin amount far : K) (k : ℕ) (error gap : K) : Prop where
  error_le : error ≤ (1 - rate) ^ k * start
  gap_le : gap ≤ far
  closes : ∀ j ≤ k, (1 - rate) ^ j * start ≤ margin → gap ≤ max 0 (far - (k - j) * amount)

theorem driven_zero (error_le : error ≤ start) (gap_le : gap ≤ far) :
    Driven rate start margin amount far 0 error gap where
  error_le := by simpa using error_le
  gap_le := gap_le
  closes := by
    intro j first _
    obtain rfl := Nat.le_zero.mp first
    simpa using Or.inr gap_le

variable [IsStrictOrderedRing K]

/-- **A step drives the value on.** -/
theorem Driven.next (driven : Driven rate start margin amount far k error gap)
    (weight : 0 ≤ rate ∧ rate ≤ 1) (nonneg : 0 ≤ start) (positive : 0 ≤ amount)
    (shrinks : error' ≤ (1 - rate) * error) (bounded : gap' ≤ far)
    (pulled : error' ≤ margin → gap' ≤ max 0 (gap - amount)) :
    Driven rate start margin amount far (k + 1) error' gap' := by
  obtain ⟨atLeastZero, atMostOne⟩ : 0 ≤ 1 - rate ∧ 1 - rate ≤ 1 := by
    constructor <;> linarith
  have error_le : error' ≤ (1 - rate) ^ (k + 1) * start := by
    calc error' ≤ (1 - rate) * error := shrinks
      _ ≤ (1 - rate) * ((1 - rate) ^ k * start) :=
          mul_le_mul_of_nonneg_left driven.error_le atLeastZero
      _ = (1 - rate) ^ (k + 1) * start := by ring
  refine ⟨error_le, bounded, ?_⟩
  intro j reached small
  rcases Nat.lt_or_ge k j with now | before
  · obtain rfl : j = k + 1 := by omega
    rw [sub_self, zero_mul, sub_zero]
    exact bounded.trans (le_max_right _ _)
  · have shrunk : (1 - rate) ^ (k + 1) * start ≤ (1 - rate) ^ j * start :=
      mul_le_mul_of_nonneg_right (pow_le_pow_of_le_one atLeastZero atMostOne (by omega)) nonneg
    have closer := pulled (error_le.trans (shrunk.trans small))
    have closed := driven.closes j before small
    push_cast
    rw [le_max_iff] at closer closed ⊢
    rcases closer with done | closer
    · exact Or.inl done
    · rcases closed with done | closed
      · exact Or.inl (by linarith)
      · exact Or.inr (by linarith)

variable [Archimedean K]

/-- **The bound is reached** after a number of steps that the parameters determine. -/
theorem exists_reached (weight : 0 < rate ∧ rate ≤ 1) (nonneg : 0 ≤ start) (within : 0 < margin)
    (positive : 0 < amount) (far : K) :
    ∃ count, ∀ k ≥ count, ∀ error gap : K,
      Driven rate start margin amount far k error gap → gap ≤ 0 := by
  obtain ⟨atLeastZero, belowOne⟩ : 0 ≤ 1 - rate ∧ 1 - rate < 1 := by
    obtain ⟨above, atMost⟩ := weight
    constructor <;> linarith
  obtain ⟨j, small⟩ : ∃ j : ℕ, (1 - rate) ^ j * start ≤ margin := by
    obtain ⟨j, small⟩ := exists_pow_lt_of_lt_one (div_pos within (by linarith : 0 < start + 1))
      belowOne
    refine ⟨j, ?_⟩
    have scaled := (lt_div_iff₀ (by linarith : 0 < start + 1)).mp small
    have power : 0 ≤ (1 - rate) ^ j := pow_nonneg atLeastZero j
    linarith
  obtain ⟨turns, enough⟩ := exists_nat_ge (far / amount)
  refine ⟨j + turns, ?_⟩
  intro k reached error gap driven
  have closed := driven.closes j (by omega) small
  have covered : far ≤ (k - j) * amount := by
    have turned : (turns : K) ≤ k - j := by
      rw [le_sub_iff_add_le']
      exact_mod_cast reached
    calc far ≤ turns * amount := (div_le_iff₀ positive).mp enough
      _ ≤ (k - j) * amount := mul_le_mul_of_nonneg_right turned positive.le
  rwa [max_eq_left (by linarith)] at closed

end Drive
