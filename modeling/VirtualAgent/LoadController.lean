import VirtualAgent.CpuMonitor
import VirtualAgent.Library.SignedPower

/-!
# The direction of the load controller

An iteration in the mode with `TDF_load` takes a sign times a power of an absolute value,
scales it, subtracts it from `tdfLoad` and sets a boundary. On numbers this is the
saturated move by a signed power (`updateLoad_tdfLoad`), for a natural exponent also by
zero and by an even one.

`load_controller_monotone` says that it goes the right way: the new factor falls with the
average of the idle ratios and rises with the old factor, it is not below the old one
when the processors are busier than the target, not above it when they are idler, and the
same when they are on target.
-/

set_option autoImplicit false

namespace VirtualAgent

open ExactFloat Saturation SignedPower
open ExactFloat.LongDouble (HasValue hasValue_ofInt hasValue_one)

/-! ## On numbers -/

/-- What `pow` computes for natural exponents: the power. -/
def IsNatPow (pow : LongDouble → LongDouble → LongDouble) : Prop :=
  ∀ (base exponent : LongDouble) (p : ℚ) (n : ℕ), base.HasValue p → exponent.HasValue n →
    0 ≤ p → (pow base exponent).HasValue (p ^ n)

theorem isNatPow_integerPow : IsNatPow integerPow := by
  intro base exponent p n atBase atExponent nonneg
  have natural : ¬ exponent < .ofInt 0 := by
    rw [atExponent.lt_iff (hasValue_ofInt 0), not_lt]
    exact_mod_cast n.zero_le
  have exponent_eq : exponent.toInt = n := by
    rw [atExponent.toInt]
    exact Truncation.truncate_intCast (n : ℤ)
  rw [integerPow, atBase.1, atExponent.1, exponent_eq, atBase.2, zpow_natCast]
  simpa [natural] using LongDouble.hasValue_ofRat (p ^ n)

/-- The sign of a number. -/
theorem hasValue_sign {t : LongDouble} {q : ℚ} (value : t.HasValue q) :
    (sign t).HasValue (SignType.sign q : ℚ) := by
  have zero : t.isZero = true ↔ q = 0 := value.isZero_iff
  have below : t < .ofInt 0 ↔ q < 0 := by
    rw [value.lt_iff (hasValue_ofInt 0), Int.cast_zero]
  rcases lt_trichotomy q 0 with negative | rfl | positive
  · rw [sign, if_neg (mt zero.mp negative.ne), if_pos (below.mpr negative), sign_neg negative]
    exact hasValue_ofInt (-1)
  · rw [sign, if_pos (zero.mpr rfl), sign_zero]
    exact hasValue_ofInt 0
  · rw [sign, if_neg (mt zero.mp positive.ne'), if_neg (mt below.mp positive.not_gt),
      sign_pos positive]
    exact hasValue_ofInt 1

/-- The settings of the load controller, as numbers. -/
structure Configuration.LoadSettings (c : Configuration) (slope target low high : ℚ)
    (exponent : ℕ) : Prop where
  atSlope : c.changeSlope.HasValue slope
  atExponent : c.nonlinearFactor.HasValue exponent
  atTarget : c.targetLoad.HasValue target
  atMin : c.tdfMin.HasValue low
  atMax : c.tdfMax.HasValue high
  nonneg : 0 ≤ slope
  positive : 0 < target
  atMostOne : target ≤ 1
  ordered : low ≤ high

/-- What `tdfLoad` is lowered by, for an average of the idle ratios. -/
def loadMove (slope target : ℚ) (exponent : ℕ) (average : ℚ) : ℚ :=
  slope * 2 ^ exponent * signedPow exponent ((average - (1 - target)) / target)

section Move

variable {slope target average : ℚ}

theorem loadMove_mono (nonneg : 0 ≤ slope) (positive : 0 < target) (exponent : ℕ) :
    Monotone (loadMove slope target exponent) := by
  intro a b le
  have quotients : (a - (1 - target)) / target ≤ (b - (1 - target)) / target :=
    div_le_div_of_nonneg_right (sub_le_sub_right le _) positive.le
  have scale : 0 ≤ slope * 2 ^ exponent := mul_nonneg nonneg (by positivity)
  exact mul_le_mul_of_nonneg_left (signedPow_mono exponent quotients) scale

theorem loadMove_on_target (slope target : ℚ) (exponent : ℕ) :
    loadMove slope target exponent (1 - target) = 0 := by
  rw [loadMove, sub_self, zero_div, signedPow_zero, mul_zero]

/-- On one side of the target the move has one direction. -/
theorem loadMove_nonpos (nonneg : 0 ≤ slope) (positive : 0 < target) (exponent : ℕ)
    (busy : average ≤ 1 - target) : loadMove slope target exponent average ≤ 0 :=
  (loadMove_mono nonneg positive exponent busy).trans_eq (loadMove_on_target slope target exponent)

theorem loadMove_nonneg (nonneg : 0 ≤ slope) (positive : 0 < target) (exponent : ℕ)
    (idle : 1 - target ≤ average) : 0 ≤ loadMove slope target exponent average :=
  (loadMove_on_target slope target exponent).symm.trans_le
    (loadMove_mono nonneg positive exponent idle)

end Move

/-! ## An iteration -/

namespace CpuMonitor

variable {pow : LongDouble → LongDouble → LongDouble} {m : CpuMonitor} {reading : MonitorReading}
  {slope target low high tdf average : ℚ} {exponent : ℕ}

/-- **A step of the load controller is a saturated move by a signed power.** -/
theorem updateLoad_tdfLoad (isNatPow : IsNatPow pow)
    (settings : m.configuration.LoadSettings slope target low high exponent)
    (atAverage : (m.getAvgMinXCpuIdleRatio reading).HasValue average)
    (atTdf : m.tdfLoad.HasValue tdf) :
    (m.updateLoad pow reading).tdfLoad.HasValue
      (saturated settings.ordered (tdf - loadMove slope target exponent average)) := by
  have atIdle := hasValue_one.sub settings.atTarget
  have atDivisor := hasValue_one.sub atIdle
  rw [sub_sub_cancel] at atDivisor
  have atLinear := (atAverage.sub atIdle).div atDivisor settings.positive.ne'
  have atNonlinear := isNatPow _ _ _ exponent atLinear.fabs settings.atExponent (abs_nonneg _)
  have atTwo := isNatPow _ _ _ exponent (hasValue_ofInt 2) settings.atExponent (by norm_num)
  have moved := ((settings.atSlope.mul atTwo).mul (hasValue_sign atLinear)).mul atNonlinear
  rw [mul_assoc (slope * _)] at moved
  exact hasValue_setBoundary settings.atMin settings.atMax settings.ordered (atTdf.sub moved)

/-- In the mode with `TDF_load` only an iteration is the statements for that. -/
theorem iterate_load (pow : LongDouble → LongDouble → LongDouble) (reading : MonitorReading)
    (monitored : m.configuration.isLoadMonitored = true) (mode : m.configuration.monitorMode = 0) :
    m.iterate pow reading = m.updateLoad pow reading := by
  have movesLoad : m.movesLoad = true := by
    simp [CpuMonitor.movesLoad, Configuration.followsLoad, monitored, mode]
  have movesSim : m.movesSim = false := by
    simp [CpuMonitor.movesSim, Configuration.followsSim, mode]
  rw [iterate, movesLoad, movesSim]
  rfl

end CpuMonitor

/-- `next` gives the new factor for the average of the idle ratios and the old factor, which
is inside the bounds, and goes the right way. -/
structure MovesTowardTarget (target low high : ℚ) (next : ℚ → ℚ → ℚ) : Prop where
  antitone : ∀ tdf, Antitone fun average => next average tdf
  monotone : ∀ average, Monotone (next average)
  raises : ∀ average < 1 - target, ∀ tdf ∈ Set.Icc low high, tdf ≤ next average tdf
  lowers : ∀ average > 1 - target, ∀ tdf ∈ Set.Icc low high, next average tdf ≤ tdf
  keeps : ∀ tdf ∈ Set.Icc low high, next (1 - target) tdf = tdf

theorem movesTowardTarget_saturated {slope target low high : ℚ} (nonneg : 0 ≤ slope)
    (positive : 0 < target) (ordered : low ≤ high) (exponent : ℕ) :
    MovesTowardTarget target low high fun average tdf =>
      saturated ordered (tdf - loadMove slope target exponent average) where
  antitone := by
    intro tdf a b le
    exact saturated_mono ordered (sub_le_sub_left (loadMove_mono nonneg positive exponent le) tdf)
  monotone := by
    intro average a b le
    exact saturated_mono ordered (sub_le_sub_right le _)
  raises := by
    intro average busy tdf inside
    have down := loadMove_nonpos nonneg positive exponent busy.le
    exact le_saturated ordered inside (by linarith)
  lowers := by
    intro average idle tdf inside
    have up := loadMove_nonneg nonneg positive exponent idle.le
    exact saturated_le ordered inside (by linarith)
  keeps := by
    intro tdf inside
    rw [loadMove_on_target, sub_zero, saturated_of_mem ordered inside]

/-- **The load controller moves in the right direction.** For settings in which an
iteration follows the load, the new `tdfLoad` is a function of the average of the idle
ratios and of the old factor, falling in the first and rising in the second, that goes
up below the target idle ratio, down above it, and nowhere on it. -/
theorem load_controller_monotone (pow : LongDouble → LongDouble → LongDouble)
    (isNatPow : IsNatPow pow) {c : Configuration} {slope target low high : ℚ} {exponent : ℕ}
    (monitored : c.isLoadMonitored = true) (mode : c.monitorMode = 0)
    (settings : c.LoadSettings slope target low high exponent) :
    ∃ next, MovesTowardTarget target low high next ∧
      ∀ (m : CpuMonitor) (reading : MonitorReading) (average tdf : ℚ), m.configuration = c →
        (m.getAvgMinXCpuIdleRatio reading).HasValue average → m.tdfLoad.HasValue tdf →
        (m.iterate pow reading).avgMinXCpuIdleRatio.HasValue average ∧
          (m.iterate pow reading).tdfLoad.HasValue (next average tdf) := by
  refine ⟨_, movesTowardTarget_saturated settings.nonneg settings.positive settings.ordered
    exponent, ?_⟩
  rintro m reading average tdf rfl atAverage atTdf
  rw [CpuMonitor.iterate_load pow reading monitored mode]
  exact ⟨atAverage, CpuMonitor.updateLoad_tdfLoad isNatPow settings atAverage atTdf⟩

/-- The settings at first. -/
theorem loadSettings_default : ({} : Configuration).LoadSettings 3 (1 / 2) 1 20 4 where
  atSlope := by decide +kernel
  atExponent := by decide +kernel
  atTarget := by decide +kernel
  atMin := by decide +kernel
  atMax := by decide +kernel
  nonneg := by norm_num
  positive := by norm_num
  atMostOne := by norm_num
  ordered := by norm_num

theorem load_controller_monotone_default :
    ∃ next, MovesTowardTarget (1 / 2) 1 20 next ∧
      ∀ (m : CpuMonitor) (reading : MonitorReading) (average tdf : ℚ), m.configuration = {} →
        (m.getAvgMinXCpuIdleRatio reading).HasValue average → m.tdfLoad.HasValue tdf →
        (m.iterate integerPow reading).avgMinXCpuIdleRatio.HasValue average ∧
          (m.iterate integerPow reading).tdfLoad.HasValue (next average tdf) :=
  load_controller_monotone integerPow isNatPow_integerPow rfl rfl loadSettings_default

end VirtualAgent
