import VirtualAgent.Library.Rounding

/-!
# Binary formats

The numbers of a binary format are the points of a digit grid, with either sign. Rounding
to a format, were its exponents not bounded above, is a function on the rationals
(`Format.rounded`). It goes to a nearest point (`isNearest_rounded`), so it keeps the order
and the points, and its error is small beside the number (`abs_rounded_sub_le`), or beside
the least unit. On finite numbers `Format.round` is this function as long as nothing
overflows (`hasValue_round`).

An arithmetic says what becomes of the exact results of the operations of the two formats,
and of a number converted to an integer. A function of it has its exact meaning in
`Arithmetic.exact`, and that of the processor in `Arithmetic.machine`.
-/

set_option autoImplicit false

namespace ExactFloat

open Rounding

namespace Format

/-! ## Magnitudes -/

/-- The numbers from zero on that the format has, were its exponents not bounded above. -/
def grid (f : Format) : Set ℚ := digitGrid 2 f.digits { e : ℤ | f.least ≤ e }

variable (f : Format)

theorem natCast_mem_grid {n : ℕ} (few : n ≤ 2 ^ (f.digits + 1)) : (n : ℚ) ∈ f.grid :=
  ⟨n, 0, f.least_nonpos, few, by rw [zpow_zero, mul_one]⟩

theorem pow_mem_grid (k : ℕ) : (2 : ℚ) ^ k ∈ f.grid := by
  refine ⟨1, k, ?_, Nat.one_le_two_pow, ?_⟩
  · exact f.least_nonpos.trans (Int.natCast_nonneg k)
  · rw [Nat.cast_one, one_mul, Nat.cast_ofNat, zpow_natCast]

@[simp] theorem magnitude_zero (d : ℕ) : f.magnitude 0 d = 0 := if_pos rfl

/-- The digits of the magnitude and their unit: it is the one that gives a number all its
digits, or the least there is. -/
theorem exists_unit {n d : ℕ} (positive : 0 < n) (positive' : 0 < d) :
    ∃ (m : ℕ) (e : ℤ), (f.magnitude n d : ℚ) = m * (2 : ℚ) ^ e ∧ f.least ≤ e ∧
      |(m : ℚ) - (n : ℚ) / d / (2 : ℚ) ^ e| ≤ 1 / 2 ∧
      (n : ℚ) / d ≤ (2 : ℚ) ^ (f.digits + 1) * (2 : ℚ) ^ e ∧
      (f.least < e → (2 : ℚ) ^ f.digits * (2 : ℚ) ^ e ≤ (n : ℚ) / d) ∧
      (|(m : ℚ) - (n : ℚ) / d / (2 : ℚ) ^ e| = 1 / 2 → Even m) := by
  obtain ⟨low, high⟩ := floorLog_spec one_lt_two positive positive'
  push_cast at low high
  let e : ℤ := max (floorLog 2 n d - f.digits) f.least
  let m := LongDouble.roundQuotient (n * 2 ^ (-e).toNat) (d * 2 ^ e.toNat)
  have positive'' : 0 < d * 2 ^ e.toNat := Nat.mul_pos positive' (Nat.pow_pos two_pos)
  refine ⟨m, e, ?_, le_max_right _ _, ?_, ?_, ?_, ?_⟩
  · have value := mul_zpow_eq two_pos m e
    rw [magnitude, if_neg positive.ne', floorLog2_eq, NNRat.cast_div, NNRat.cast_natCast,
      NNRat.cast_natCast]
    exact_mod_cast value
  · have quotient := div_zpow_eq two_pos n d e
    push_cast at quotient
    rw [← quotient]
    exact_mod_cast roundQuotient_half _ positive''
  · refine high.le.trans ?_
    rw [← zpow_natCast, ← zpow_add₀ two_ne_zero]
    exact zpow_le_zpow_right₀ one_le_two (by push_cast; omega)
  · intro above
    have full : e = floorLog 2 n d - f.digits := by omega
    rw [full, ← zpow_natCast, ← zpow_add₀ two_ne_zero, add_sub_cancel]
    exact low
  · intro tie
    have quotient := div_zpow_eq two_pos n d e
    push_cast at quotient
    rw [← quotient] at tie
    exact even_roundQuotient _ positive'' (by exact_mod_cast tie)

/-- **The magnitude is a nearest point of the grid.** -/
theorem isNearest_magnitude {n d : ℕ} (positive : 0 < n) (positive' : 0 < d) :
    IsNearest f.grid ((n : ℚ) / d) (f.magnitude n d) := by
  obtain ⟨m, e, value, allowed, half, upper, lower, -⟩ := f.exists_unit positive positive'
  rw [value]
  refine isNearest_digitGrid one_lt_two allowed half upper ?_
  intro other otherAllowed finer
  exact lower (lt_of_le_of_lt otherAllowed finer)

/-- A number that has all its digits is nearly kept. -/
theorem abs_magnitude_sub_le {n d : ℕ} (positive : 0 < n) (positive' : 0 < d)
    (normal : (2 : ℚ) ^ (f.least + f.digits) ≤ (n : ℚ) / d) :
    |(f.magnitude n d : ℚ) - (n : ℚ) / d| ≤ (n : ℚ) / d / (2 * 2 ^ f.digits) := by
  obtain ⟨m, e, value, allowed, half, upper, lower, -⟩ := f.exists_unit positive positive'
  have full : (2 : ℚ) ^ f.digits * (2 : ℚ) ^ e ≤ (n : ℚ) / d := by
    rcases allowed.eq_or_lt with rfl | above
    · rwa [← zpow_natCast, ← zpow_add₀ two_ne_zero, add_comm]
    · exact lower above
  rw [value]
  exact abs_sub_le_of_digits one_lt_two half full

/-! ## Rounding a rational number -/

/-- The number of the format nearest to a rational one, were its exponents not bounded
above. -/
def rounded (q : ℚ) : ℚ :=
  LongDouble.signed (decide (q < 0)) (f.magnitude (Rat.nnabs q).num (Rat.nnabs q).den)

/-- The numbers of the format, were its exponents not bounded above. -/
def points : Set ℚ := { q | |q| ∈ f.grid }

/-- The number has the magnitude of the number rounded. -/
theorem rounded_eq {q : ℚ} {negative : Bool} {a : ℚ≥0} (value : LongDouble.signed negative a = q) :
    f.rounded q = LongDouble.signed negative (f.magnitude a.num a.den) := by
  have magnitude : Rat.nnabs q = a := by
    apply NNRat.ext
    rw [Rat.coe_nnabs, ← value]
    cases negative <;> simp [LongDouble.signed]
  rw [rounded, magnitude]
  by_cases zero : a = 0
  · rw [zero, NNRat.num_zero, magnitude_zero]
    cases negative <;> simp [LongDouble.signed]
  · have positive : (0 : ℚ) < a := by exact_mod_cast pos_iff_ne_zero.mpr zero
    congr 1
    rw [← value]
    cases negative with
    | false => simp [LongDouble.signed]
    | true => simpa [LongDouble.signed] using positive

@[simp] theorem rounded_zero : f.rounded 0 = 0 := by
  have value : LongDouble.signed false 0 = 0 := rfl
  rw [f.rounded_eq value, NNRat.num_zero, magnitude_zero, value]

theorem rounded_neg (q : ℚ) : f.rounded (-q) = -f.rounded q := by
  have value : LongDouble.signed (!decide (q < 0)) (Rat.nnabs q) = -q := by
    rw [LongDouble.signed_not, LongDouble.signed_nnabs]
  rw [f.rounded_eq value, LongDouble.signed_not, ← f.rounded_eq (LongDouble.signed_nnabs q)]

theorem abs_rounded (q : ℚ) :
    |f.rounded q| = f.magnitude (Rat.nnabs q).num (Rat.nnabs q).den ∧
      |f.rounded q - q| = |(f.magnitude (Rat.nnabs q).num (Rat.nnabs q).den : ℚ) - abs q| := by
  rw [rounded]
  by_cases negative : q < 0
  · rw [decide_eq_true negative, abs_of_neg negative]
    refine ⟨?_, ?_⟩
    · simp [LongDouble.signed]
    · simp only [LongDouble.signed, if_true]
      rw [sub_neg_eq_add, ← abs_neg, neg_sub, sub_neg_eq_add, add_comm]
  · rw [decide_eq_false negative, abs_of_nonneg (not_lt.mp negative)]
    simp [LongDouble.signed]

theorem nnabs_div (q : ℚ) : ((Rat.nnabs q).num : ℚ) / (Rat.nnabs q).den = |q| := by
  have quotient := congrArg (NNRat.cast (K := ℚ)) (NNRat.num_div_den (Rat.nnabs q))
  rwa [NNRat.cast_div, NNRat.cast_natCast, NNRat.cast_natCast] at quotient

theorem nnabs_num_pos {q : ℚ} (nonzero : q ≠ 0) : 0 < (Rat.nnabs q).num := by
  rw [Nat.pos_iff_ne_zero, NNRat.num_ne_zero, ← NNRat.coe_ne_zero, Rat.coe_nnabs, abs_ne_zero]
  exact nonzero

/-- **Rounding goes to a nearest number of the format.** -/
theorem isNearest_rounded (q : ℚ) : IsNearest f.points q (f.rounded q) := by
  by_cases zero : q = 0
  · subst zero
    rw [rounded_zero]
    refine ⟨?_, fun z _ => ?_⟩
    · change |(0 : ℚ)| ∈ f.grid
      rw [abs_zero, ← Nat.cast_zero]
      exact f.natCast_mem_grid (Nat.zero_le _)
    · rw [sub_self, abs_zero]
      exact abs_nonneg _
  · have nearest := f.isNearest_magnitude (nnabs_num_pos zero) (Rat.nnabs q).den_pos
    rw [nnabs_div] at nearest
    obtain ⟨magnitude_eq, distance_eq⟩ := f.abs_rounded q
    refine ⟨?_, fun z point => ?_⟩
    · change |f.rounded q| ∈ f.grid
      rw [magnitude_eq]
      exact nearest.1
    · rw [distance_eq]
      exact (nearest.2 _ point).trans (abs_abs_sub_abs_le z q)

theorem mem_points_of_rounded {q : ℚ} (kept : f.rounded q = q) : q ∈ f.points :=
  kept ▸ (f.isNearest_rounded q).1

theorem intCast_mem_points {n : ℤ} (few : |n| ≤ 2 ^ (f.digits + 1)) : (n : ℚ) ∈ f.points := by
  change |(n : ℚ)| ∈ f.grid
  rw [← Int.cast_abs, Int.abs_eq_natAbs, Int.cast_natCast]
  rw [Int.abs_eq_natAbs] at few
  exact f.natCast_mem_grid (by exact_mod_cast few)

theorem neg_mem_points {q : ℚ} (isPoint : q ∈ f.points) : -q ∈ f.points := by
  change |(-q)| ∈ f.grid
  rwa [abs_neg]

variable {f}

/-- **Rounding keeps the order.** -/
theorem rounded_mono {p q : ℚ} (le : p ≤ q) : f.rounded p ≤ f.rounded q := by
  rcases le.eq_or_lt with rfl | less
  · exact le_rfl
  · exact (f.isNearest_rounded p).mono (f.isNearest_rounded q) less

theorem le_rounded {point q : ℚ} (isPoint : point ∈ f.points) (le : point ≤ q) :
    point ≤ f.rounded q :=
  (f.isNearest_rounded q).le_of_le isPoint le

theorem rounded_le {point q : ℚ} (isPoint : point ∈ f.points) (le : q ≤ point) :
    f.rounded q ≤ point :=
  (f.isNearest_rounded q).ge_of_ge isPoint le

/-- A number of the format is kept. -/
theorem rounded_of_mem {point : ℚ} (isPoint : point ∈ f.points) : f.rounded point = point :=
  le_antisymm (rounded_le isPoint le_rfl) (le_rounded isPoint le_rfl)

theorem rounded_nonneg {q : ℚ} (nonneg : 0 ≤ q) : 0 ≤ f.rounded q := by
  have kept := rounded_mono (f := f) nonneg
  rwa [rounded_zero] at kept

variable (f)

/-- **The error is small beside the number, or beside the least unit.** -/
theorem abs_rounded_sub_le (q : ℚ) :
    |f.rounded q - q| ≤ |q| / (2 * 2 ^ f.digits) + (2 : ℚ) ^ f.least / 2 := by
  by_cases zero : q = 0
  · subst zero
    rw [rounded_zero, sub_self, abs_zero, zero_div, zero_add]
    positivity
  · obtain ⟨m, e, value, allowed, half, -, lower, -⟩ :=
      f.exists_unit (nnabs_num_pos zero) (Rat.nnabs q).den_pos
    rw [nnabs_div] at half lower
    rw [(f.abs_rounded q).2, value]
    rcases allowed.eq_or_lt with rfl | above
    · have unit : (0 : ℚ) < (2 : ℚ) ^ f.least := zpow_pos two_pos _
      have scaled : |m * (2 : ℚ) ^ f.least - abs q| =
          |(m : ℚ) - |q| / (2 : ℚ) ^ f.least| * (2 : ℚ) ^ f.least := by
        rw [← abs_of_pos unit, ← abs_mul, abs_of_pos unit, sub_mul, div_mul_cancel₀ _ unit.ne']
      have few : 0 ≤ |q| / (2 * 2 ^ f.digits) := by positivity
      rw [scaled]
      nlinarith
    · have close := abs_sub_le_of_digits one_lt_two half (lower above)
      have least : (0 : ℚ) < (2 : ℚ) ^ f.least := zpow_pos two_pos _
      push_cast at close
      linarith

/-- The error of a multiple of the least unit is small beside it. -/
theorem abs_rounded_mul_sub_le (k : ℤ) :
    |f.rounded (k * (2 : ℚ) ^ f.least) - k * (2 : ℚ) ^ f.least| ≤
      |k * (2 : ℚ) ^ f.least| / (2 * 2 ^ f.digits) := by
  have unit : (0 : ℚ) < (2 : ℚ) ^ f.least := zpow_pos two_pos _
  by_cases zero : k * (2 : ℚ) ^ f.least = 0
  · rw [zero, rounded_zero, sub_self, abs_zero, zero_div]
  · obtain ⟨m, e, value, allowed, half, -, lower, -⟩ :=
      f.exists_unit (nnabs_num_pos zero) (Rat.nnabs (k * (2 : ℚ) ^ f.least)).den_pos
    rw [nnabs_div] at half lower
    rw [(f.abs_rounded _).2, value]
    rcases allowed.eq_or_lt with rfl | above
    · -- the number has an integer of these units, and nothing is rounded
      rw [abs_mul, abs_of_pos unit, mul_div_cancel_right₀ _ unit.ne'] at half
      have same : (m : ℤ) = |k| := by
        have apart : |((m - |k| : ℤ) : ℚ)| < 1 := by
          push_cast
          linarith
        have none : |(m - |k| : ℤ)| < 1 := by exact_mod_cast apart
        have := abs_lt.mp none
        omega
      have same' : (m : ℚ) = |(k : ℚ)| := by exact_mod_cast same
      rw [abs_mul, abs_of_pos unit, same', sub_self, abs_zero]
      positivity
    · have close := abs_sub_le_of_digits one_lt_two half (lower above)
      push_cast at close
      exact close

theorem exists_multiple {q : ℚ} (isPoint : q ∈ f.points) :
    ∃ k : ℤ, q = k * (2 : ℚ) ^ f.least := by
  obtain ⟨digits, e, allowed, -, value⟩ := isPoint
  obtain ⟨j, rfl⟩ := Int.le.dest allowed
  have magnitude : |q| = ((digits * 2 ^ j : ℕ) : ℤ) * (2 : ℚ) ^ f.least := by
    rw [value, Nat.cast_ofNat, zpow_add₀ two_ne_zero, zpow_natCast]
    push_cast
    ring
  rcases abs_choice q with same | opposite
  · exact ⟨_, same ▸ magnitude⟩
  · refine ⟨-((digits * 2 ^ j : ℕ) : ℤ), ?_⟩
    rw [Int.cast_neg, neg_mul, ← magnitude, opposite, neg_neg]

/-- **The error of a sum of two numbers of the format is small beside it**, however small
the sum is. -/
theorem abs_rounded_add_sub_le {p q : ℚ} (left : p ∈ f.points) (right : q ∈ f.points) :
    |f.rounded (p + q) - (p + q)| ≤ |p + q| / (2 * 2 ^ f.digits) := by
  obtain ⟨j, rfl⟩ := f.exists_multiple left
  obtain ⟨k, rfl⟩ := f.exists_multiple right
  rw [← add_mul, ← Int.cast_add]
  exact f.abs_rounded_mul_sub_le (j + k)

/-- **The difference of two numbers of the format is rounded to zero only when they are
equal.** -/
theorem rounded_sub_eq_zero_iff {p q : ℚ} (left : p ∈ f.points) (right : q ∈ f.points) :
    f.rounded (p - q) = 0 ↔ p = q := by
  constructor
  · intro zero
    have close := f.abs_rounded_add_sub_le left (f.neg_mem_points right)
    rw [← sub_eq_add_neg, zero, zero_sub, abs_neg, le_div_iff₀ (by positivity)] at close
    have part : (1 : ℚ) ≤ 2 ^ f.digits := one_le_pow₀ one_le_two
    have nonneg := abs_nonneg (p - q)
    have none : |p - q| = 0 := by nlinarith
    exact sub_eq_zero.mp (abs_eq_zero.mp none)
  · rintro rfl
    rw [sub_self, rounded_zero]

/-! ## Rounding a floating-point number -/

/-- **On finite numbers the two roundings agree** as long as nothing overflows. -/
theorem hasValue_round {x : LongDouble} {q : ℚ} (value : x.HasValue q)
    (fits : |f.rounded q| < 2 ^ (f.top + 1)) : (f.round x).HasValue (f.rounded q) := by
  obtain ⟨negative, a, rfl, signed⟩ := value.exists_finite
  rw [f.rounded_eq signed] at fits ⊢
  have small : ¬ ((2 ^ (f.top + 1) : ℕ) : ℚ≥0) ≤ f.magnitude a.num a.den := by
    rw [not_le, ← NNRat.cast_lt (K := ℚ)]
    push_cast
    cases negative with
    | false => simpa [LongDouble.signed] using fits
    | true => simpa [LongDouble.signed] using fits
  rw [round, nearest, if_neg small]
  exact ⟨rfl, rfl⟩

/-- What overflows becomes infinite, with its sign. -/
theorem round_of_overflow {x : LongDouble} {q : ℚ} (value : x.HasValue q)
    (overflows : 2 ^ (f.top + 1) ≤ |f.rounded q|) :
    f.round x = .infinite (decide (q < 0)) := by
  obtain ⟨negative, a, rfl, signed⟩ := value.exists_finite
  have magnitude_le : ((2 ^ (f.top + 1) : ℕ) : ℚ≥0) ≤ f.magnitude a.num a.den := by
    rw [f.rounded_eq signed] at overflows
    rw [← NNRat.cast_le (K := ℚ)]
    push_cast
    cases negative with
    | false => simpa [LongDouble.signed] using overflows
    | true => simpa [LongDouble.signed] using overflows
  have nonzero : q ≠ 0 := by
    rintro rfl
    rw [rounded_zero, abs_zero] at overflows
    exact absurd overflows (not_le.mpr (by positivity))
  rw [round, nearest, if_pos magnitude_le]
  congr 1
  rw [← signed] at nonzero ⊢
  cases negative with
  | false => simp [LongDouble.signed]
  | true => simpa [LongDouble.signed, pos_iff_ne_zero] using nonzero

/-- No power of two is crossed. -/
theorem abs_rounded_le_pow {q : ℚ} {k : ℕ} (small : |q| ≤ 2 ^ k) : |f.rounded q| ≤ 2 ^ k := by
  have isPoint : (2 : ℚ) ^ k ∈ f.points := by
    change |(2 : ℚ) ^ k| ∈ f.grid
    rw [abs_of_pos (by positivity)]
    exact f.pow_mem_grid k
  obtain ⟨above, below⟩ := abs_le.mp small
  have upper := rounded_le isPoint below
  have lower := rounded_le isPoint (neg_le.mp above)
  rw [rounded_neg] at lower
  exact abs_le.mpr ⟨neg_le.mp lower, upper⟩

/-- A finite number below the greatest powers of two is rounded as a rational one. -/
theorem hasValue_round_of_le {x : LongDouble} {q : ℚ} (value : x.HasValue q)
    (small : |q| ≤ 2 ^ f.top) : (f.round x).HasValue (f.rounded q) :=
  f.hasValue_round value ((f.abs_rounded_le_pow small).trans_lt
    (pow_lt_pow_right₀ one_lt_two (Nat.lt_succ_self _)))

/-- The numbers of the format. -/
def numbers : Set ℚ := { q | q ∈ f.points ∧ |q| < 2 ^ (f.top + 1) }

/-- A number of the format is not rounded. -/
theorem hasValue_round_of_mem {x : LongDouble} {q : ℚ} (value : x.HasValue q)
    (held : q ∈ f.numbers) : (f.round x).HasValue q := by
  have kept := rounded_of_mem held.1
  have rounded := f.hasValue_round value (by rw [kept]; exact held.2)
  rwa [kept] at rounded

/-- The integers that have no more digits are numbers of the format. -/
theorem intCast_mem_numbers {n : ℤ} (few : |n| ≤ 2 ^ (f.digits + 1)) (room : f.digits < f.top) :
    (n : ℚ) ∈ f.numbers := by
  have bounded : |(n : ℚ)| ≤ 2 ^ (f.digits + 1) := by exact_mod_cast few
  exact ⟨f.intCast_mem_points few,
    bounded.trans_lt (pow_lt_pow_right₀ one_lt_two (Nat.succ_lt_succ room))⟩

/-- Between zero and a number of the format nothing overflows. -/
theorem hasValue_round_of_mem_Icc {x : LongDouble} {q bound : ℚ} (value : x.HasValue q)
    (held : bound ∈ f.numbers) (inside : q ∈ Set.Icc 0 bound) :
    (f.round x).HasValue (f.rounded q) ∧ f.rounded q ∈ Set.Icc 0 bound := by
  have nonneg := rounded_nonneg (f := f) inside.1
  have le := rounded_le held.1 inside.2
  refine ⟨f.hasValue_round value ?_, nonneg, le⟩
  rw [abs_of_nonneg nonneg]
  exact le.trans_lt ((le_abs_self _).trans_lt held.2)

/-- What becomes of a number that is rounded, were the exponents not bounded above: it is
that number, or infinite where that is out of range. -/
def Yields (x : LongDouble) (q : ℚ) : Prop :=
  (|q| < 2 ^ (f.top + 1) ∧ x.HasValue q) ∨
    (2 ^ (f.top + 1) ≤ |q| ∧ x = .infinite (decide (q < 0)))

theorem decide_rounded_neg {q : ℚ} (overflows : 2 ^ (f.top + 1) ≤ |f.rounded q|) :
    decide (q < 0) = decide (f.rounded q < 0) := by
  rw [decide_eq_decide]
  constructor
  · intro negative
    have nonpos := rounded_mono (f := f) negative.le
    rw [rounded_zero] at nonpos
    refine lt_of_le_of_ne nonpos fun zero => ?_
    rw [zero, abs_zero] at overflows
    exact absurd overflows (not_le.mpr (by positivity))
  · intro negative
    by_contra nonneg
    exact absurd negative (not_lt.mpr (rounded_nonneg (not_lt.mp nonneg)))

/-- **Rounding a finite number yields the rounded one.** -/
theorem yields_round {x : LongDouble} {q : ℚ} (value : x.HasValue q) :
    f.Yields (f.round x) (f.rounded q) := by
  rcases lt_or_ge |f.rounded q| (2 ^ (f.top + 1)) with fits | overflows
  · exact Or.inl ⟨fits, f.hasValue_round value fits⟩
  · refine Or.inr ⟨overflows, ?_⟩
    rw [← f.decide_rounded_neg overflows]
    exact f.round_of_overflow value overflows

variable {f}

/-- A number of the format is yielded as itself only. -/
theorem Yields.hasValue_iff {x : LongDouble} {p q : ℚ} (yields : f.Yields x q)
    (held : p ∈ f.numbers) : x.HasValue p ↔ q = p := by
  rcases yields with ⟨-, value⟩ | ⟨overflows, rfl⟩
  · exact value.iff_eq
  · constructor
    · rintro ⟨finite, -⟩
      cases finite
    · rintro rfl
      exact absurd held.2 (not_lt.mpr overflows)

/-! ### Sides of zero -/

/-- The number is on the side of zero that `q` is on, and zero if `q` is. An underflow may
have brought it to zero, and an overflow to infinity. -/
inductive OnSide (q : ℚ) : LongDouble → Prop
  | finite {x : LongDouble} {v : ℚ} (value : x.HasValue v) (zero : q = 0 → v = 0)
      (below : q < 0 → v ≤ 0) (above : 0 < q → 0 ≤ v) : OnSide q x
  | infinite (nonzero : q ≠ 0) : OnSide q (.infinite (decide (q < 0)))

theorem OnSide.of_hasValue {x : LongDouble} {q : ℚ} (value : x.HasValue q) : OnSide q x :=
  .finite value id le_of_lt le_of_lt

variable (f)

/-- **Rounding does not cross zero.** -/
theorem OnSide.round {x : LongDouble} {q : ℚ} (side : OnSide q x) : OnSide q (f.round x) := by
  cases side with
  | infinite nonzero => exact .infinite nonzero
  | @finite _ v value zero below above =>
      rcases f.yields_round value with ⟨-, rounded⟩ | ⟨overflows, rounded⟩
      · refine .finite rounded ?_ ?_ ?_
        · intro none
          rw [zero none, rounded_zero]
        · intro negative
          have := rounded_mono (f := f) (below negative)
          rwa [rounded_zero] at this
        · intro positive
          exact rounded_nonneg (above positive)
      · have moved : v ≠ 0 := by
          rintro rfl
          rw [rounded_zero, abs_zero] at overflows
          exact absurd overflows (not_le.mpr (by positivity))
        have nonzero : q ≠ 0 := fun none => moved (zero none)
        have same : decide (f.rounded v < 0) = decide (q < 0) := by
          rw [← f.decide_rounded_neg overflows, decide_eq_decide]
          constructor
          · intro negative
            exact (lt_or_gt_of_ne nonzero).resolve_right fun positive =>
              absurd (above positive) (not_le.mpr negative)
          · intro negative
            exact lt_of_le_of_ne (below negative) moved
        rw [rounded, same]
        exact .infinite nonzero

theorem OnSide.div {x y : LongDouble} {q d : ℚ} (side : OnSide q x) (divisor : y.HasValue d)
    (positive : 0 < d) : OnSide q (x / y) := by
  cases side with
  | @finite _ v value zero below above =>
      refine .finite (value.div divisor positive.ne') ?_ ?_ ?_
      · intro none
        rw [zero none, zero_div]
      · intro negative
        exact div_nonpos_of_nonpos_of_nonneg (below negative) positive.le
      · intro positive'
        exact div_nonneg (above positive') positive.le
  | infinite nonzero =>
      obtain ⟨t, b, rfl, rfl⟩ := divisor.exists_finite
      have unsigned : t = false := by
        cases t with
        | false => rfl
        | true => exact absurd positive (not_lt.mpr (by simp [LongDouble.signed]))
      subst unsigned
      change OnSide q (.infinite (decide (q < 0) ^^ false))
      rw [Bool.xor_false]
      exact .infinite nonzero

/-- **A number moved to a side and rounded yields one on that side of it**, or itself. -/
theorem OnSide.exists_yields {move : LongDouble} {p q : ℚ} (side : OnSide q move)
    (held : p ∈ f.numbers) :
    ∃ w ∈ f.points, (∀ x : LongDouble, x.HasValue p → f.Yields (f.round (x + move)) w) ∧
      (q = 0 → w = p) ∧ (q < 0 → w ≤ p) ∧ (0 < q → p ≤ w) := by
  cases side with
  | @finite _ v moved zero below above =>
      refine ⟨f.rounded (p + v), (f.isNearest_rounded _).1,
        fun x value => f.yields_round (value.add moved), ?_, ?_, ?_⟩
      · intro none
        rw [zero none, add_zero, rounded_of_mem held.1]
      · intro negative
        exact rounded_le held.1 (by linarith [below negative])
      · intro positive
        exact le_rounded held.1 (by linarith [above positive])
  | infinite nonzero =>
      have power : (0 : ℚ) < 2 ^ (f.top + 1) := by positivity
      have isPoint : (2 : ℚ) ^ (f.top + 1) ∈ f.points := by
        change |(2 : ℚ) ^ (f.top + 1)| ∈ f.grid
        rw [abs_of_pos power]
        exact f.pow_mem_grid _
      obtain ⟨least, greatest⟩ := abs_lt.mp held.2
      by_cases negative : q < 0
      · refine ⟨-2 ^ (f.top + 1), f.neg_mem_points isPoint, fun x value => Or.inr ⟨?_, ?_⟩,
          ?_, ?_, ?_⟩
        · rw [abs_neg]
          exact le_abs_self _
        · obtain ⟨s, a, rfl, -⟩ := value.exists_finite
          rw [decide_eq_true negative, decide_eq_true (neg_lt_zero.mpr power)]
          rfl
        · intro none
          exact absurd none nonzero
        · intro _
          exact least.le
        · intro positive
          exact absurd positive (not_lt.mpr negative.le)
      · refine ⟨2 ^ (f.top + 1), isPoint, fun x value => Or.inr ⟨le_abs_self _, ?_⟩, ?_, ?_, ?_⟩
        · obtain ⟨s, a, rfl, -⟩ := value.exists_finite
          rw [decide_eq_false negative, decide_eq_false (not_lt.mpr power.le)]
          rfl
        · intro none
          exact absurd none nonzero
        · intro below
          exact absurd below negative
        · intro _
          exact greatest.le

end Format

/-! ## Arithmetic -/

/-- What becomes of the exact result of an operation of `double`, of one of `long double`,
and of a number converted to a 64-bit integer. -/
structure Arithmetic where
  double : LongDouble → LongDouble
  extended : LongDouble → LongDouble
  toInt64 : LongDouble → ℤ

namespace Arithmetic

/-- Nothing is rounded and nothing overflows. -/
def exact : Arithmetic := ⟨id, id, LongDouble.toInt⟩

/-- The arithmetic of the processor. -/
def machine : Arithmetic := ⟨Format.double.round, Format.extended.round, LongDouble.toInt64⟩

@[simp] theorem exact_double (x : LongDouble) : exact.double x = x := rfl

@[simp] theorem exact_extended (x : LongDouble) : exact.extended x = x := rfl

@[simp] theorem exact_toInt64 (x : LongDouble) : exact.toInt64 x = x.toInt := rfl

@[simp] theorem machine_double (x : LongDouble) : machine.double x = Format.double.round x := rfl

@[simp] theorem machine_extended (x : LongDouble) :
    machine.extended x = Format.extended.round x := rfl

@[simp] theorem machine_toInt64 (x : LongDouble) : machine.toInt64 x = x.toInt64 := rfl

end Arithmetic

/-- A number in the range of the 64-bit integers is truncated. -/
theorem LongDouble.HasValue.toInt64 {x : LongDouble} {q : ℚ} (value : x.HasValue q)
    (low : -2 ^ 63 ≤ q) (high : q < 2 ^ 63) : x.toInt64 = Truncation.truncate q := by
  have lower := Truncation.truncate_mono low
  have upper : Truncation.truncate q < 2 ^ 63 := by
    by_cases nonneg : 0 ≤ q
    · rw [Truncation.truncate_of_nonneg nonneg, Int.floor_lt]
      exact_mod_cast high
    · have := Truncation.truncate_mono (not_le.mp nonneg).le
      rw [← Int.cast_zero, Truncation.truncate_intCast] at this
      omega
  have least := Truncation.truncate_intCast (K := ℚ) (-2 ^ 63 : ℤ)
  push_cast at least
  rw [LongDouble.toInt64, value.toInt, if_pos ⟨least ▸ lower, upper⟩]

end ExactFloat

/-! ## The 64-bit format -/

namespace Rounding

open ExactFloat

/-- The numbers from zero on that the 64-bit format has, were its exponents not bounded
above. -/
def binary64Grid : Set ℚ := Format.double.grid

/-- **The conversion to the 64-bit format rounds to its grid** where nothing overflows, and
nearly keeps a number that has all its digits. -/
theorem binary64_spec (negative : Bool) {n d : ℕ} (positive : 0 < n) (positive' : 0 < d)
    (small : (n : ℚ) / d ≤ 2 ^ 1023) :
    ∃ magnitude : ℚ≥0, LongDouble.binary64 negative n d = .finite negative magnitude ∧
      IsNearest binary64Grid ((n : ℚ) / d) magnitude ∧
      ((2 : ℚ) ^ (-1022 : ℤ) ≤ (n : ℚ) / d →
        |(magnitude : ℚ) - (n : ℚ) / d| ≤ (n : ℚ) / d / (2 * 2 ^ 52)) := by
  have nearest := Format.double.isNearest_magnitude positive positive'
  have bounded := nearest.ge_of_ge (Format.double.pow_mem_grid 1023) small
  have fits : ¬ ((2 ^ (Format.double.top + 1) : ℕ) : ℚ≥0) ≤ Format.double.magnitude n d := by
    rw [not_le, ← NNRat.cast_lt (K := ℚ)]
    push_cast
    exact bounded.trans_lt (pow_lt_pow_right₀ one_lt_two (Nat.lt_succ_self 1023))
  exact ⟨_, if_neg fits, nearest, Format.double.abs_magnitude_sub_le positive positive'⟩

end Rounding
