import VirtualAgent.Library.FloatFormat
import Mathlib.Data.Nat.Size

/-!
# Neighbours in a format

What rounding does to a number depends on how far the next numbers of the format are.

Of two numbers that are equally near, the one with an even last digit is taken
(`even_of_tie`). Hence a number keeps its value when a move is added and the sum is rounded
exactly if the next number on the side of the move is more than twice the move away, or
twice the move from an even number (`rounded_add_eq_iff`).

A number keeps its integer part when it is rounded, unless it is so near to the next integer
away from zero that it is rounded to that (`truncate_rounded`).
-/

set_option autoImplicit false

namespace ExactFloat.Format

open Rounding Truncation

variable (f : Format)

/-! ## Even and odd numbers of a format -/

/-- The numbers whose last digit is even, were the exponents not bounded above: they have a
digit less in a unit twice as large. -/
def evens : Set ℚ :=
  { q | ∃ digits : ℕ, ∃ e : ℤ, f.least < e ∧ digits ≤ 2 ^ f.digits ∧ |q| = digits * (2 : ℚ) ^ e }

theorem neg_mem_evens {q : ℚ} : -q ∈ f.evens ↔ q ∈ f.evens := by
  unfold evens
  rw [Set.mem_ofPred, Set.mem_ofPred, abs_neg]

variable {f} {m : ℕ} {e : ℤ} {q z : ℚ}

theorem mem_evens_of_even (allowed : f.least ≤ e) (few : m ≤ 2 ^ (f.digits + 1)) (even : Even m) :
    (m : ℚ) * (2 : ℚ) ^ e ∈ f.evens := by
  obtain ⟨j, rfl⟩ := even
  refine ⟨j, e + 1, Int.lt_add_one_of_le allowed, ?_, ?_⟩
  · rw [pow_succ] at few
    omega
  · rw [abs_of_nonneg (by positivity), zpow_add_one₀ two_ne_zero]
    push_cast
    ring

/-- An odd last digit is no digit of a larger unit, and a number that has all its digits has
none to lose. -/
theorem notMem_evens_of_odd (several : 0 < f.digits) (full : f.least < e → 2 ^ f.digits ≤ m)
    (odd : Odd m) : (m : ℚ) * (2 : ℚ) ^ e ∉ f.evens := by
  rintro ⟨digits, coarse, above, few, value⟩
  have unit : (0 : ℚ) < (2 : ℚ) ^ e := zpow_pos two_pos e
  rw [abs_of_nonneg (by positivity)] at value
  rw [Nat.odd_iff] at odd
  rcases lt_or_ge e coarse with coarser | finer
  · obtain ⟨j, rfl⟩ := Int.le.dest coarser
    have multiple : (m : ℚ) = (2 * (digits * 2 ^ j) : ℕ) := by
      rw [zpow_add₀ two_ne_zero, zpow_add_one₀ two_ne_zero, zpow_natCast] at value
      push_cast
      field_simp at value
      linarith
    have even : m = 2 * (digits * 2 ^ j) := by exact_mod_cast multiple
    omega
  · have few' : (digits : ℚ) ≤ 2 ^ f.digits := by exact_mod_cast few
    have step : (2 : ℚ) ^ coarse ≤ (2 : ℚ) ^ e := zpow_le_zpow_right₀ one_le_two finer
    have atMost : (m : ℚ) * (2 : ℚ) ^ e ≤ 2 ^ f.digits * (2 : ℚ) ^ e := by
      rw [value]
      gcongr
    have atMost' : m ≤ 2 ^ f.digits := by exact_mod_cast le_of_mul_le_mul_right atMost unit
    obtain ⟨j, digits_eq⟩ : ∃ j, f.digits = j + 1 := ⟨f.digits - 1, by omega⟩
    rw [le_antisymm atMost' (full (lt_of_lt_of_le above finer)), digits_eq, pow_succ] at odd
    omega

/-- A number of the format that has all the digits of a unit is an integer of it. -/
theorem exists_natCast_mul (isPoint : z ∈ f.points) (nonneg : 0 ≤ z)
    (full : f.least < e → (2 : ℚ) ^ f.digits * (2 : ℚ) ^ e ≤ z) :
    ∃ k : ℕ, z = k * (2 : ℚ) ^ e := by
  obtain ⟨digits, other, allowed, few, value⟩ := isPoint
  rw [abs_of_nonneg nonneg, Nat.cast_ofNat] at value
  rcases le_or_gt e other with coarser | finer
  · obtain ⟨j, rfl⟩ := Int.le.dest coarser
    refine ⟨digits * 2 ^ j, ?_⟩
    rw [value, zpow_add₀ two_ne_zero, zpow_natCast]
    push_cast
    ring
  · -- the numbers of a finer unit end where those of this one begin
    have few' : (digits : ℚ) ≤ 2 ^ (f.digits + 1) := by exact_mod_cast few
    have step : (2 : ℚ) ^ other ≤ (2 : ℚ) ^ (e - 1) := zpow_le_zpow_right₀ one_le_two (by omega)
    have ends : z ≤ (2 : ℚ) ^ f.digits * (2 : ℚ) ^ e := by
      calc z = digits * (2 : ℚ) ^ other := value
        _ ≤ (2 : ℚ) ^ (f.digits + 1) * (2 : ℚ) ^ (e - 1) := by gcongr
        _ = (2 : ℚ) ^ f.digits * (2 : ℚ) ^ e := by
            rw [zpow_sub_one₀ two_ne_zero]
            ring
    have exact := ends.antisymm (full (lt_of_le_of_lt allowed finer))
    exact ⟨2 ^ f.digits, by exact_mod_cast exact⟩

/-! ## Ties -/

theorem even_of_tie_of_pos (several : 0 < f.digits) (positive : 0 < q) (isPoint : z ∈ f.points)
    (other : z ≠ f.rounded q) (tie : |z - q| = |f.rounded q - q|) :
    f.rounded q ∈ f.evens ∧ z ∉ f.evens := by
  have nearest := f.isNearest_rounded q
  rw [IsNearest, ← tie] at nearest
  have opposite : z = 2 * q - f.rounded q := by
    rcases abs_eq_abs.mp tie with same | turned
    · exact absurd (by linarith) other
    · linarith
  -- no point below the number is passed over
  have reaches : ∀ point ∈ f.points, point ≤ q → point ≤ z := by
    intro point isPoint below
    have close := nearest.2 point isPoint
    rw [abs_of_nonpos (sub_nonpos.mpr below)] at close
    linarith [(abs_le.mp close).1]
  have nonneg : 0 ≤ z := by
    have zeroPoint := f.intCast_mem_points (n := 0) (by simp)
    exact reaches 0 (by exact_mod_cast zeroPoint) positive.le
  obtain ⟨m, e, value, allowed, half, upper, lower, even⟩ :=
    f.exists_unit (nnabs_num_pos positive.ne') (Rat.nnabs q).den_pos
  rw [nnabs_div, abs_of_pos positive] at half upper lower even
  rw [← (f.abs_rounded q).1, abs_of_nonneg (rounded_nonneg positive.le)] at value
  have unit : (0 : ℚ) < (2 : ℚ) ^ e := zpow_pos two_pos e
  have full : f.least < e → (2 : ℚ) ^ f.digits * (2 : ℚ) ^ e ≤ z := by
    intro above
    refine reaches _ ?_ (lower above)
    change |(2 : ℚ) ^ f.digits * (2 : ℚ) ^ e| ∈ f.grid
    rw [abs_of_pos (by positivity)]
    refine ⟨2 ^ f.digits, e, above.le, Nat.pow_le_pow_right two_pos (Nat.le_succ _), ?_⟩
    push_cast
    rfl
  obtain ⟨k, rfl⟩ := exists_natCast_mul isPoint nonneg full
  -- the two are neighbours in this unit, and the number is halfway between
  have between : (k : ℚ) - m = 2 * (q / (2 : ℚ) ^ e - m) := by
    rw [value] at opposite
    field_simp
    linarith
  have apart : (k : ℤ) - m ≠ 0 := by
    intro none
    have same : k = m := by omega
    exact other (same ▸ value.symm)
  have next : |(k : ℚ) - m| = 1 := by
    refine le_antisymm ?_ (by exact_mod_cast Int.one_le_abs apart)
    rw [between, abs_mul, abs_two, abs_sub_comm]
    linarith
  have mEven : Even m := by
    refine even ?_
    rw [between, abs_mul, abs_two, abs_sub_comm] at next
    linarith
  have kOdd : Odd k := by
    have next' : |(k : ℤ) - m| = 1 := by exact_mod_cast next
    rw [Nat.odd_iff]
    rw [Nat.even_iff] at mEven
    rcases abs_choice ((k : ℤ) - m) with same | turned <;> omega
  constructor
  · rw [value]
    refine mem_evens_of_even allowed ?_ mEven
    have quotient : q / (2 : ℚ) ^ e ≤ 2 ^ (f.digits + 1) := (div_le_iff₀ unit).mpr upper
    have close : (m : ℚ) < 2 ^ (f.digits + 1) + 1 := by linarith [(abs_le.mp half).2]
    exact Nat.lt_succ_iff.mp (by exact_mod_cast close)
  · refine notMem_evens_of_odd several (fun above => ?_) kOdd
    exact_mod_cast le_of_mul_le_mul_right (full above) unit

/-- **Of two numbers of the format that are equally near, the even one is taken**, and the
other one is odd. -/
theorem even_of_tie (several : 0 < f.digits) (isPoint : z ∈ f.points) (other : z ≠ f.rounded q)
    (tie : |z - q| = |f.rounded q - q|) : f.rounded q ∈ f.evens ∧ z ∉ f.evens := by
  rcases lt_trichotomy q 0 with negative | rfl | positive
  · have turned : ∀ p : ℚ, |(-p) - (-q)| = |p - q| := fun p => by rw [neg_sub_neg, abs_sub_comm]
    have even := even_of_tie_of_pos several (neg_pos.mpr negative) (f.neg_mem_points isPoint)
      (by rw [rounded_neg]; exact neg_injective.ne other) (by rw [rounded_neg, turned, turned, tie])
    rwa [rounded_neg, neg_mem_evens, neg_mem_evens] at even
  · rw [rounded_zero, sub_zero, sub_zero, abs_zero, abs_eq_zero] at tie
    exact absurd (tie.trans f.rounded_zero.symm) other
  · exact even_of_tie_of_pos several positive isPoint other tie

/-! ## Sums that are rounded back -/

/-- A move is lost beside a number of the format: the others on its side are away from the
number by more than twice the move, or by just as much from an even one. -/
def Absorbs (f : Format) (p move : ℚ) : Prop :=
  ∀ z ∈ f.points, 0 < (z - p) * move →
    2 * |move| < |z - p| ∨ 2 * |move| = |z - p| ∧ p ∈ f.evens

/-- On the side of a move the distances are taken from its end. -/
theorem abs_sub_add_of_side {p move : ℚ} (side : 0 < (z - p) * move) :
    |z - (p + move)| = abs (|z - p| - |move|) := by
  rcases mul_pos_iff.mp side with ⟨above, up⟩ | ⟨below, down⟩
  · rw [abs_of_pos above, abs_of_pos up, sub_sub]
  · rw [abs_of_neg below, abs_of_neg down, abs_sub_comm]
    congr 1
    ring

/-- The end of a move is halfway to a number that is twice the move away. -/
theorem abs_sub_add_of_twice {p move : ℚ} (side : 0 < (z - p) * move)
    (twice : 2 * |move| = |z - p|) : |z - (p + move)| = |p - (p + move)| := by
  rw [abs_sub_add_of_side side, ← twice, two_mul, add_sub_cancel_right, abs_abs,
    sub_add_cancel_left, abs_neg]

/-- **A sum is rounded back to a number exactly when the number absorbs the move.** -/
theorem rounded_add_eq_iff (several : 0 < f.digits) {p move : ℚ} (isPoint : p ∈ f.points) :
    f.rounded (p + move) = p ↔ f.Absorbs p move := by
  have nearest := f.isNearest_rounded (p + move)
  constructor
  · intro kept z isPoint' side
    have close := nearest.2 z isPoint'
    rw [kept, abs_sub_add_of_side side, sub_add_cancel_left, abs_neg] at close
    have apart : z - p ≠ 0 := left_ne_zero_of_mul side.ne'
    have reaches : 2 * |move| ≤ |z - p| := by
      have distance := abs_pos.mpr apart
      rcases le_abs.mp close with farther | nearer <;> linarith
    rcases reaches.lt_or_eq with farther | same
    · exact Or.inl farther
    · refine Or.inr ⟨same, ?_⟩
      have tie : |z - (p + move)| = |f.rounded (p + move) - (p + move)| := by
        rw [kept]
        exact abs_sub_add_of_twice side same
      have even := (even_of_tie several isPoint' (by rwa [kept, ← sub_ne_zero]) tie).1
      rwa [kept] at even
  · intro absorbs
    by_contra moved
    have close := nearest.2 p isPoint
    rw [sub_add_cancel_left, abs_neg] at close
    have side : 0 < (f.rounded (p + move) - p) * move := by
      have apart := sq_pos_of_ne_zero (sub_ne_zero.mpr moved)
      have squares := sq_le_sq.mpr close
      nlinarith
    rcases absorbs _ nearest.1 side with farther | ⟨same, even⟩
    · rw [abs_sub_add_of_side side] at close
      linarith [(abs_le.mp close).2]
    · have tie := (abs_sub_add_of_twice side same).symm
      exact (even_of_tie several isPoint (Ne.symm moved) tie).2 even

/-- On floating-point numbers, what has overflowed is no move that is lost. -/
theorem hasValue_round_add_iff (several : 0 < f.digits) {x move : LongDouble} {p : ℚ}
    (value : x.HasValue p) (held : p ∈ f.numbers) :
    (f.round (x + move)).HasValue p ↔ ∃ v, move.HasValue v ∧ f.Absorbs p v := by
  cases move with
  | finite negative magnitude =>
      have moveValue : (LongDouble.finite negative magnitude).HasValue
          (LongDouble.signed negative magnitude) := ⟨rfl, rfl⟩
      have yields := f.yields_round (value.add moveValue)
      rw [yields.hasValue_iff held, rounded_add_eq_iff several held.1]
      constructor
      · intro absorbs
        exact ⟨_, moveValue, absorbs⟩
      · rintro ⟨v, value', absorbs⟩
        rwa [moveValue.iff_eq.mp value']
  | infinite _ | nan =>
      obtain ⟨s, a, rfl, -⟩ := value.exists_finite
      constructor
      · rintro ⟨finite, -⟩
        cases finite
      · rintro ⟨v, ⟨finite, -⟩, -⟩
        cases finite

/-! ## Integer parts -/

/-- The number is farther from the next integer away from zero than half of the unit that
the format has below that integer. -/
def KeepsInteger (f : Format) (q : ℚ) : Prop :=
  (2 : ℚ) ^ ((Nat.size ⌊|q|⌋₊ : ℤ) - f.digits - 2) < ⌊|q|⌋₊ + 1 - |q|

instance (f : Format) : DecidablePred f.KeepsInteger := fun _ => inferInstanceAs (Decidable (_ < _))

/-- The number next to an integer on the side of zero. -/
theorem pred_mem_points (fine : f.least + f.digits + 1 ≤ 0) {n : ℕ} (few : n < 2 ^ (f.digits + 1)) :
    (n : ℚ) + 1 - (2 : ℚ) ^ ((Nat.size n : ℤ) - f.digits - 1) ∈ f.points := by
  have size : Nat.size n ≤ f.digits + 1 := Nat.size_le.mpr few
  obtain ⟨j, digits_eq⟩ := Nat.exists_eq_add_of_le size
  have unit : ((Nat.size n : ℤ) - f.digits - 1) = -(j : ℤ) := by omega
  have value : (n : ℚ) + 1 - (2 : ℚ) ^ (-(j : ℤ)) =
      ((n + 1) * 2 ^ j - 1 : ℕ) * (2 : ℚ) ^ (-(j : ℤ)) := by
    rw [Nat.cast_sub (Nat.one_le_iff_ne_zero.mpr (by positivity)), zpow_neg, zpow_natCast]
    push_cast
    field_simp
  rw [unit, value]
  change |_| ∈ f.grid
  rw [abs_of_nonneg (by positivity)]
  refine ⟨_, -j, ?_, ?_, rfl⟩
  · change f.least ≤ -j
    omega
  · have upper : n + 1 ≤ 2 ^ Nat.size n := Nat.lt_size_self n
    calc (n + 1) * 2 ^ j - 1 ≤ 2 ^ Nat.size n * 2 ^ j :=
          (Nat.sub_le _ _).trans (Nat.mul_le_mul_right _ upper)
      _ = 2 ^ (f.digits + 1) := by rw [← pow_add, digits_eq]

theorem rounded_lt_of_keepsInteger (fine : f.least + f.digits + 1 ≤ 0) (nonneg : 0 ≤ q)
    (few : ⌊q⌋₊ < 2 ^ (f.digits + 1)) (keeps : f.KeepsInteger q) :
    f.rounded q < ⌊q⌋₊ + 1 := by
  rw [KeepsInteger, abs_of_nonneg nonneg] at keeps
  have before := pred_mem_points fine few
  have unit : (0 : ℚ) < (2 : ℚ) ^ ((Nat.size ⌊q⌋₊ : ℤ) - f.digits - 1) := zpow_pos two_pos _
  have half : (2 : ℚ) ^ ((Nat.size ⌊q⌋₊ : ℤ) - f.digits - 1) =
      2 * (2 : ℚ) ^ ((Nat.size ⌊q⌋₊ : ℤ) - f.digits - 2) := by
    rw [← zpow_one_add₀ two_ne_zero]
    congr 1
    ring
  by_contra reached
  rw [not_lt] at reached
  rcases le_or_gt q (⌊q⌋₊ + 1 - (2 : ℚ) ^ ((Nat.size ⌊q⌋₊ : ℤ) - f.digits - 1)) with below | above
  · linarith [rounded_le before below]
  · -- the number before the integer is nearer
    have close := (f.isNearest_rounded q).2 _ before
    have farther := le_abs_self (f.rounded q - q)
    have distance := abs_of_neg (sub_neg.mpr above)
    rw [distance] at close
    linarith

/-- **Rounding keeps the integer part** of a number that is not next to the integer after it. -/
theorem truncate_rounded (fine : f.least + f.digits + 1 ≤ 0) (few : ⌊|q|⌋₊ < 2 ^ (f.digits + 1))
    (keeps : f.KeepsInteger q) : truncate (f.rounded q) = truncate q := by
  have kept : ∀ p : ℚ, 0 ≤ p → ⌊p⌋₊ < 2 ^ (f.digits + 1) → f.KeepsInteger p →
      truncate (f.rounded p) = truncate p := by
    intro p nonneg few keeps
    have isPoint := f.intCast_mem_points (n := (⌊p⌋₊ : ℤ)) (by
      rw [Nat.abs_cast]
      exact_mod_cast few.le)
    rw [Int.cast_natCast] at isPoint
    have low := le_rounded isPoint (Nat.floor_le nonneg)
    have high := rounded_lt_of_keepsInteger fine nonneg few keeps
    rw [truncate_of_nonneg (rounded_nonneg nonneg), truncate_of_nonneg nonneg,
      ← Int.natCast_floor_eq_floor nonneg, Int.floor_eq_iff]
    exact_mod_cast And.intro low high
  rcases le_or_gt 0 q with nonneg | negative
  · rw [abs_of_nonneg nonneg] at few
    exact kept q nonneg few keeps
  · rw [abs_of_neg negative] at few
    have turned := kept (-q) (neg_nonneg.mpr negative.le) few (by
      rwa [KeepsInteger, abs_neg])
    rwa [rounded_neg, truncate_neg, truncate_neg, neg_inj] at turned

end ExactFloat.Format
