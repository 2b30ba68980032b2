import VirtualAgent.DelayAverage
import VirtualAgent.Library.Neighbours

/-!
# The simulators' controller on target

In the modes with `TDF_sim` an iteration moves `tdfSim` by the gain times the relative
distance of the average delay from the target, and sets it back into the bounds. With the
delay on target the average comes to rest, and the factor should rest with it. The
arithmetic is that of the processor: `double` for the average, `long double` for the factor.

The factor rests exactly when the last distance is zero or the move has no effect
(`rests_on_target_iff`). The average may rest elsewhere: the `int64_t` drops the last
fraction, which the average of the idle ratios, a `double`, keeps. The distance that is left
is added up in every iteration. After one report just below the target the factor
falls for ever, to its lower bound (`drifts_below_target`).
-/

set_option autoImplicit false

namespace VirtualAgent

open ExactFloat CText Saturation
open ExactFloat.LongDouble (HasValue hasValue_ofInt hasValue_toRat)

/-- The settings of the simulators' controller, as numbers that a `long double` holds. -/
structure Configuration.SimSettings (c : Configuration) (gain low high : ℚ) : Prop where
  atGain : c.tdfSimGain.HasValue gain
  atMin : c.tdfMin.HasValue low
  atMax : c.tdfMax.HasValue high
  lowHeld : low ∈ Format.extended.numbers
  highHeld : high ∈ Format.extended.numbers
  ordered : low ≤ high

/-- Setting a boundary saturates also what has overflowed. -/
theorem setBoundary_of_yields {c : Configuration} {tdf : LongDouble} {gain low high w : ℚ}
    (settings : c.SimSettings gain low high) (yields : Format.extended.Yields tdf w) :
    (c.setBoundary tdf).HasValue (saturated settings.ordered w) := by
  rcases yields with ⟨-, value⟩ | ⟨overflows, rfl⟩
  · exact hasValue_setBoundary settings.atMin settings.atMax settings.ordered value
  · obtain ⟨s, a, min_eq, -⟩ := settings.atMin.exists_finite
    obtain ⟨t, b, max_eq, -⟩ := settings.atMax.exists_finite
    by_cases negative : w < 0
    · have below : w ≤ low := by
        rw [abs_of_neg negative] at overflows
        linarith [(abs_lt.mp settings.lowHeld.2).1]
      have least : LongDouble.infinite (decide (w < 0)) < c.tdfMin := by
        rw [min_eq, decide_eq_true negative]
        exact rfl
      rw [Configuration.setBoundary, if_pos least, saturated_of_le_low settings.ordered below]
      exact settings.atMin
    · have above : high ≤ w := by
        rw [abs_of_nonneg (not_lt.mp negative)] at overflows
        linarith [(abs_lt.mp settings.highHeld.2).2]
      have notLeast : ¬ LongDouble.infinite (decide (w < 0)) < c.tdfMin := by
        rw [min_eq, decide_eq_false negative]
        exact Bool.false_ne_true
      have greatest : c.tdfMax < LongDouble.infinite (decide (w < 0)) := by
        rw [max_eq, decide_eq_false negative]
        exact rfl
      rw [Configuration.setBoundary, if_neg notLeast, if_pos greatest,
        saturated_of_high_le settings.ordered above]
      exact settings.atMax

/-! ## The move -/

/-- What `tdfSim` moves by for an average delay. -/
def simMove (tdfSimGain : LongDouble) (avgSimStateOverheadDelay : ℤ) : LongDouble :=
  Format.extended.round (Format.extended.round (tdfSimGain *
    Format.extended.round (.ofInt avgSimStateOverheadDelay - .ofInt targetDelay)) /
      .ofInt targetDelay)

/-- What the move is for, before the division by the target. -/
def wayToTarget (gain : ℚ) (avgSimStateOverheadDelay : ℤ) : ℚ :=
  gain * (avgSimStateOverheadDelay - targetDelay)

/-- **The move is on the side of the way.** The distance of a 64-bit integer from the target
has no more digits than a `long double`. -/
theorem onSide_simMove {tdfSimGain : LongDouble} {gain : ℚ} (atGain : tdfSimGain.HasValue gain)
    {a : ℤ} (low : -2 ^ 63 ≤ a) (high : a < 2 ^ 63) :
    Format.OnSide (wayToTarget gain a) (simMove tdfSimGain a) := by
  have few : |a - targetDelay| ≤ 2 ^ (Format.extended.digits + 1) := by
    rw [targetDelay, abs_le]
    change -2 ^ 64 ≤ a - 200000 ∧ a - 200000 ≤ 2 ^ 64
    omega
  have held := Format.extended.intCast_mem_numbers few (by decide)
  have exact := (hasValue_ofInt a).sub (hasValue_ofInt targetDelay)
  rw [← Int.cast_sub] at exact
  have distance := Format.extended.hasValue_round_of_mem exact held
  rw [Int.cast_sub] at distance
  have product := (Format.OnSide.of_hasValue (atGain.mul distance)).round Format.extended
  exact (product.div (hasValue_ofInt targetDelay) (by norm_num [targetDelay])).round
    Format.extended

namespace CpuMonitor

variable {pow : LongDouble → LongDouble → LongDouble} {m : CpuMonitor}
  {readings : ℕ → MonitorReading} {gain low high tdf : ℚ}

/-- The factor with the move added. -/
def movedSim (m : CpuMonitor) : LongDouble :=
  Format.extended.round (m.tdfSim + simMove m.configuration.tdfSimGain m.avgSimStateOverheadDelay)

/-- The average after a report. -/
def nextDelay (alpha : LongDouble) (delay avgSimStateOverheadDelay : ℤ) : ℤ :=
  (Format.double.round (
    Format.double.round (Format.double.round (1 - alpha) *
      Format.double.round (.ofInt avgSimStateOverheadDelay)) +
    Format.double.round (alpha * Format.double.round (.ofInt delay)))).toInt64

theorem nextDelay_fits (alpha : LongDouble) (delay a : ℤ) :
    -2 ^ 63 ≤ nextDelay alpha delay a ∧ nextDelay alpha delay a < 2 ^ 63 := by
  unfold nextDelay LongDouble.toInt64
  split
  case isTrue inside => exact inside
  case isFalse => omega

/-- The two statements of an iteration for `tdfSim`. -/
theorem updateSim_machine {reading : MonitorReading} (recent : reading.isRecent = true) :
    (m.updateSim reading .machine).avgSimStateOverheadDelay =
        nextDelay m.configuration.alpha reading.simStateOverheadDelay m.avgSimStateOverheadDelay ∧
      (m.updateSim reading .machine).tdfSim = m.configuration.setBoundary
        ({ m with avgSimStateOverheadDelay :=
          (m.updateSim reading .machine).avgSimStateOverheadDelay } : CpuMonitor).movedSim := by
  rw [updateSim, if_pos recent]
  exact ⟨rfl, rfl⟩

theorem avg_after_succ (moves : m.movesSim = true) {delay : ℤ}
    (reports : Reports readings delay) (n : ℕ) :
    (m.after pow readings (n + 1) .machine).avgSimStateOverheadDelay =
      nextDelay m.configuration.alpha delay
        (m.after pow readings n .machine).avgSimStateOverheadDelay := by
  obtain ⟨recent, delay_eq⟩ := reports n
  rw [after, (iterate_sim pow (readings n) (movesSim_after moves n .machine) .machine).1,
    (updateSim_machine recent).1, configuration_after, delay_eq]

/-- An average that rests for one iteration rests. -/
theorem avg_after_rests (moves : m.movesSim = true) {delay : ℤ}
    (reports : Reports readings delay) {n : ℕ}
    (rests : (m.after pow readings (n + 1) .machine).avgSimStateOverheadDelay =
      (m.after pow readings n .machine).avgSimStateOverheadDelay) (k : ℕ) :
    (m.after pow readings (n + k) .machine).avgSimStateOverheadDelay =
      (m.after pow readings n .machine).avgSimStateOverheadDelay := by
  induction k with
  | zero => rfl
  | succ k ih =>
      rw [← add_assoc, avg_after_succ moves reports, ih, ← avg_after_succ moves reports, rests]

/-! ## The factor -/

/-- The factor is a number of the format inside the bounds. -/
def HoldsSim (m : CpuMonitor) (low high : ℚ) : Prop :=
  ∃ tdf ∈ Format.extended.numbers, tdf ∈ Set.Icc low high ∧ m.tdfSim.HasValue tdf

/-- **A step of the controller is a saturated move** to the side of the way. -/
theorem exists_movedSim (settings : m.configuration.SimSettings gain low high)
    (least : -2 ^ 63 ≤ m.avgSimStateOverheadDelay) (greatest : m.avgSimStateOverheadDelay < 2 ^ 63)
    (held : tdf ∈ Format.extended.numbers) :
    ∃ w ∈ Format.extended.points,
      (∀ tdfSim : LongDouble, tdfSim.HasValue tdf →
        Format.extended.Yields ({ m with tdfSim } : CpuMonitor).movedSim w) ∧
      (wayToTarget gain m.avgSimStateOverheadDelay = 0 → w = tdf) ∧
      (wayToTarget gain m.avgSimStateOverheadDelay < 0 → w ≤ tdf) ∧
      (0 < wayToTarget gain m.avgSimStateOverheadDelay → tdf ≤ w) :=
  (onSide_simMove settings.atGain least greatest).exists_yields Format.extended held

/-- Between two numbers of the format the points are numbers of it. -/
theorem saturated_mem_numbers (settings : m.configuration.SimSettings gain low high) {w : ℚ}
    (isPoint : w ∈ Format.extended.points) :
    saturated settings.ordered w ∈ Format.extended.numbers := by
  rcases le_or_gt w low with below | aboveLow
  · rw [saturated_of_le_low settings.ordered below]
    exact settings.lowHeld
  · rcases le_or_gt high w with above | belowHigh
    · rw [saturated_of_high_le settings.ordered above]
      exact settings.highHeld
    · rw [saturated_of_mem settings.ordered ⟨aboveLow.le, belowHigh.le⟩]
      exact ⟨isPoint, abs_lt.mpr ⟨(abs_lt.mp settings.lowHeld.2).1.trans aboveLow,
        belowHigh.trans (abs_lt.mp settings.highHeld.2).2⟩⟩

theorem holdsSim_updateSim (settings : m.configuration.SimSettings gain low high)
    (holds : m.HoldsSim low high) (reading : MonitorReading) :
    (m.updateSim reading .machine).HoldsSim low high := by
  obtain ⟨tdf, held, -, atTdf⟩ := holds
  by_cases recent : reading.isRecent = true
  · obtain ⟨average_eq, tdfSim_eq⟩ := updateSim_machine (m := m) recent
    obtain ⟨least, greatest⟩ := nextDelay_fits m.configuration.alpha
      reading.simStateOverheadDelay m.avgSimStateOverheadDelay
    rw [← average_eq] at least greatest
    obtain ⟨w, isPoint, yields, -⟩ := exists_movedSim
      (m := { m with avgSimStateOverheadDelay :=
        (m.updateSim reading .machine).avgSimStateOverheadDelay }) settings least greatest held
    refine ⟨_, saturated_mem_numbers settings isPoint, saturated_mem settings.ordered w, ?_⟩
    rw [tdfSim_eq]
    exact setBoundary_of_yields settings (yields m.tdfSim atTdf)
  · refine ⟨low, settings.lowHeld, ⟨le_rfl, settings.ordered⟩, ?_⟩
    rw [updateSim, if_neg recent]
    exact settings.atMin

/-- The factor is a number of the format inside the bounds after every iteration. -/
theorem holdsSim_after (moves : m.movesSim = true)
    (settings : m.configuration.SimSettings gain low high) (holds : m.HoldsSim low high) (n : ℕ) :
    (m.after pow readings n .machine).HoldsSim low high := by
  induction n with
  | zero => exact holds
  | succ n ih =>
      have kept := holdsSim_updateSim (by rwa [configuration_after]) ih (readings n)
      rw [HoldsSim] at kept ⊢
      rwa [after, (iterate_sim pow (readings n) (movesSim_after moves n .machine) .machine).2]

/-! ## At rest -/

/-- The move of an iteration has no effect on the factor: the average is on target or there
is no gain, the factor is at the bound that it is driven to, or the move is lost beside it,
for the next `long double` on that side is too far away. -/
def KeepsSim (m : CpuMonitor) (gain low high : ℚ) : Prop :=
  m.avgSimStateOverheadDelay = targetDelay ∨ gain = 0 ∨
    (wayToTarget gain m.avgSimStateOverheadDelay < 0 ∧ m.tdfSim.HasValue low) ∨
    (0 < wayToTarget gain m.avgSimStateOverheadDelay ∧ m.tdfSim.HasValue high) ∨
    ∃ move, (simMove m.configuration.tdfSimGain m.avgSimStateOverheadDelay).HasValue move ∧
      Format.extended.Absorbs m.tdfSim.toRat move

theorem wayToTarget_eq_zero_iff {gain : ℚ} {a : ℤ} :
    wayToTarget gain a = 0 ↔ a = targetDelay ∨ gain = 0 := by
  rw [wayToTarget, mul_eq_zero, sub_eq_zero, Int.cast_inj, or_comm]

/-- **When a step of the controller keeps the factor**, and where it leads otherwise. -/
theorem exists_keepsSim_iff (settings : m.configuration.SimSettings gain low high)
    (least : -2 ^ 63 ≤ m.avgSimStateOverheadDelay) (greatest : m.avgSimStateOverheadDelay < 2 ^ 63)
    (atTdf : m.tdfSim.HasValue tdf) (held : tdf ∈ Format.extended.numbers)
    (inside : tdf ∈ Set.Icc low high) :
    ∃ next, (∀ tdfSim : LongDouble, tdfSim.HasValue tdf →
        (m.configuration.setBoundary ({ m with tdfSim } : CpuMonitor).movedSim).HasValue next) ∧
      (next = tdf ↔ m.KeepsSim gain low high) := by
  obtain ⟨w, -, yields, none, down, up⟩ := exists_movedSim settings least greatest held
  refine ⟨saturated settings.ordered w,
    fun tdfSim value => setBoundary_of_yields settings (yields tdfSim value), ?_⟩
  have absorbs : m.movedSim.HasValue tdf ↔
      ∃ move, (simMove m.configuration.tdfSimGain m.avgSimStateOverheadDelay).HasValue move ∧
        Format.extended.Absorbs tdf move :=
    Format.extended.hasValue_round_add_iff (by decide) atTdf held
  rw [saturated_eq_iff settings.ordered inside, KeepsSim, atTdf.iff_eq, atTdf.iff_eq,
    ← or_assoc (a := m.avgSimStateOverheadDelay = targetDelay), ← wayToTarget_eq_zero_iff, atTdf.2,
    ← absorbs, (yields m.tdfSim atTdf).hasValue_iff held]
  constructor
  · rintro (same | ⟨lower, atLow⟩ | ⟨higher, atHigh⟩)
    · exact Or.inr (Or.inr (Or.inr same))
    · refine Or.inr (Or.inl ⟨?_, atLow⟩)
      rcases lt_trichotomy (wayToTarget gain m.avgSimStateOverheadDelay) 0 with
        negative | zero | positive
      · exact negative
      · exact absurd (none zero) lower.ne
      · exact absurd (up positive) (not_le.mpr lower)
    · refine Or.inr (Or.inr (Or.inl ⟨?_, atHigh⟩))
      rcases lt_trichotomy (wayToTarget gain m.avgSimStateOverheadDelay) 0 with
        negative | zero | positive
      · exact absurd (down negative) (not_le.mpr higher)
      · exact absurd (none zero) higher.ne'
      · exact positive
  · rintro (zero | ⟨negative, atLow⟩ | ⟨positive, atHigh⟩ | same)
    · exact Or.inl (none zero)
    · rcases (down negative).eq_or_lt with same | lower
      · exact Or.inl same
      · exact Or.inr (Or.inl ⟨lower, atLow⟩)
    · rcases (up positive).eq_or_lt with same | higher
      · exact Or.inl same.symm
      · exact Or.inr (Or.inr ⟨higher, atHigh⟩)
    · exact Or.inl same

/-- **The factor rests on target exactly when the average has come to the target or the
move has no effect.** With every report on target, once an iteration leaves the average as
it is, `tdfSim` stays at one number if and only if the average rests at the target, the gain
is zero, the factor is at the bound that it is driven to, or it absorbs the move. -/
theorem rests_on_target_iff (pow : LongDouble → LongDouble → LongDouble)
    (moves : m.movesSim = true) (settings : m.configuration.SimSettings gain low high)
    (atTdf : m.tdfSim.HasValue tdf) (held : tdf ∈ Format.extended.numbers)
    (inside : tdf ∈ Set.Icc low high) (onTarget : Reports readings targetDelay) {n : ℕ}
    (rests : (m.after pow readings (n + 1) .machine).avgSimStateOverheadDelay =
      (m.after pow readings n .machine).avgSimStateOverheadDelay) :
    (∃ value, ∀ k, (m.after pow readings (n + k) .machine).tdfSim.HasValue value) ↔
      (m.after pow readings n .machine).KeepsSim gain low high := by
  have holds : (m.after pow readings n .machine).HoldsSim low high :=
    holdsSim_after moves settings ⟨tdf, held, inside, atTdf⟩ n
  obtain ⟨here, hereHeld, hereInside, atHere⟩ := holds
  have atRest := avg_after_rests moves onTarget rests
  have fits := nextDelay_fits m.configuration.alpha targetDelay
    (m.after pow readings n .machine).avgSimStateOverheadDelay
  rw [← avg_after_succ moves onTarget, rests] at fits
  obtain ⟨next, step, keeps⟩ := exists_keepsSim_iff (m := m.after pow readings n .machine)
    (by rwa [configuration_after]) fits.1 fits.2 atHere hereHeld hereInside
  -- every later iteration adds the move of the average at rest
  have later : ∀ k, (m.after pow readings (n + k) .machine).tdfSim.HasValue here →
      (m.after pow readings (n + k + 1) .machine).tdfSim.HasValue next := by
    intro k value
    have moved := step _ value
    have moving : (m.after pow readings (n + k) .machine).movesSim = true :=
      movesSim_after moves (n + k) .machine
    obtain ⟨average_eq, tdfSim_eq⟩ := iterate_sim pow (readings (n + k)) moving .machine
    have average_next := atRest (k + 1)
    rw [← add_assoc, after, average_eq] at average_next
    rw [movedSim, configuration_after, ← average_next] at moved
    rwa [after, tdfSim_eq, (updateSim_machine (onTarget (n + k)).1).2, movedSim,
      configuration_after]
  rw [← keeps]
  constructor
  · rintro ⟨value, stays⟩
    obtain rfl := atHere.iff_eq.mp (stays 0)
    exact (later 0 atHere).iff_eq.mp (stays 1)
  · rintro rfl
    refine ⟨next, fun k => ?_⟩
    induction k with
    | zero => exact atHere
    | succ k ih => exact later k ih

/-- The simulators are far too late once, then early, and then just early enough for the
average to stop short of the target by seven nanoseconds. -/
def warmUp (n : ℕ) : MonitorReading :=
  ⟨0, 7, [2000000, 0, 0, 0, 0, 0, 74050].getD n 200000, 9⟩

/-- The monitor after these reports, with the other settings at first. -/
def belowTarget : CpuMonitor := simMonitor.after integerPow warmUp 7 .machine

/-- From now on the simulators are on target. -/
def onTarget (_ : ℕ) : MonitorReading := ⟨0, 7, 200000, 9⟩

theorem reports_onTarget : Reports onTarget targetDelay := fun _ => ⟨rfl, rfl⟩

theorem simSettings_simMonitor : simMonitor.configuration.SimSettings
    (LongDouble.binary64 false 1 20).toRat 1 20 where
  atGain := by decide +kernel
  atMin := by decide +kernel
  atMax := by decide +kernel
  lowHeld := by
    exact_mod_cast Format.extended.intCast_mem_numbers (n := 1) (by decide) (by decide)
  highHeld := by
    exact_mod_cast Format.extended.intCast_mem_numbers (n := 20) (by decide) (by decide)
  ordered := by norm_num

theorem simSettings_belowTarget : belowTarget.configuration.SimSettings
    (LongDouble.binary64 false 1 20).toRat 1 20 := by
  rw [belowTarget, configuration_after]
  exact simSettings_simMonitor

theorem holdsSim_belowTarget : belowTarget.HoldsSim 1 20 :=
  holdsSim_after (by decide +kernel) simSettings_simMonitor
    ⟨1, simSettings_simMonitor.lowHeld, by norm_num, by decide +kernel⟩ 7

theorem rests_on_target_below :
    (∃ value, ∀ k, (belowTarget.after integerPow onTarget (0 + k) .machine).tdfSim.HasValue
      value) ↔ belowTarget.KeepsSim (LongDouble.binary64 false 1 20).toRat 1 20 := by
  obtain ⟨tdf, held, inside, atTdf⟩ := holdsSim_belowTarget
  exact rests_on_target_iff integerPow (by decide +kernel) simSettings_belowTarget atTdf held
    inside reports_onTarget (n := 0) (by decide +kernel)

/-- **Just below the target the factor falls while every report is on target.** The average
rests at 199993, and the next iteration still lowers a factor that is above its bound. -/
theorem drifts_below_target :
    Reports onTarget targetDelay ∧ belowTarget.movesSim = true ∧
      belowTarget.configuration.alpha.HasValue (1 / 8) ∧
      belowTarget.configuration.SimSettings (LongDouble.binary64 false 1 20).toRat 1 20 ∧
      belowTarget.HoldsSim 1 20 ∧ belowTarget.avgSimStateOverheadDelay = 199993 ∧
      (belowTarget.after integerPow onTarget 1 .machine).avgSimStateOverheadDelay =
        (belowTarget.after integerPow onTarget 0 .machine).avgSimStateOverheadDelay ∧
      (belowTarget.after integerPow onTarget 1 .machine).tdfSim.toRat < belowTarget.tdfSim.toRat ∧
      ¬ ∃ value, ∀ k,
        (belowTarget.after integerPow onTarget (0 + k) .machine).tdfSim.HasValue value := by
  have falls : (belowTarget.after integerPow onTarget 1 .machine).tdfSim.toRat <
      belowTarget.tdfSim.toRat := by
    decide +kernel
  refine ⟨reports_onTarget, by decide +kernel, by decide +kernel, simSettings_belowTarget,
    holdsSim_belowTarget, by decide +kernel, by decide +kernel, falls, ?_⟩
  rintro ⟨value, stays⟩
  exact falls.ne ((stays 1).2.trans (stays 0).2.symm)

end CpuMonitor

end VirtualAgent
