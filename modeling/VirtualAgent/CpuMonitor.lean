import VirtualAgent.MessageProcessor
import VirtualAgent.Library.Saturation

/-!
# The monitor

The loop of `CpuMonitor.cpp`. An iteration takes the average of the idle ratios, moves
one of its two factors, or both, and broadcasts one of them. `tdfLoad` follows the
difference between the load and its target, raised to a power, and `tdfSim` the delay of
the simulators. Each is set back into the bounds when it has moved. The settings are
those of the messages handled between two iterations. The arithmetic is an argument,
exact where none is given.

`setBoundary_spec` and `hasValue_linearIncrement` say what becomes of finite numbers: a
factor set back is inside the bounds, and the quotient that `tdfLoad` moves by has a value
when the target load is not zero. The power function of the mathematical library is a
parameter, `IsPow` says what is asked of it, and `integerPow` is one that is the power for
exponents that are integers.

`monitorStep_receiveTcp` connects a message between two iterations with the message
processor.

The broadcast is the factor here. Its text, with the name of the host in front of it, and
the sleep that ends an iteration have modules of their own.
-/

set_option autoImplicit false

namespace VirtualAgent

open ExactFloat CText Saturation
open ExactFloat.LongDouble (HasValue hasValue_toRat hasValue_ofRat hasValue_ofInt hasValue_one)

/-! ## The power function -/

/-- What `pow` promises on finite numbers: a result that is finite and not negative for a
base that is not negative, but for a zero raised to a negative power. -/
def IsPow (pow : LongDouble → LongDouble → LongDouble) : Prop :=
  ∀ (base exponent : LongDouble) (p q : ℚ), base.HasValue p → exponent.HasValue q → 0 ≤ p →
    (p = 0 → 0 ≤ q) → ∃ r, 0 ≤ r ∧ (pow base exponent).HasValue r

/-- The power, with the fraction of the exponent dropped. -/
def integerPow (base exponent : LongDouble) : LongDouble :=
  if base.isFinite && exponent.isFinite then
    if base.isZero && exponent < .ofInt 0 then .infinite false
    else .ofRat (base.toRat ^ exponent.toInt)
  else .nan

theorem isPow_integerPow : IsPow integerPow := by
  intro base exponent p q atBase atExponent nonneg defined
  have regular : (base.isZero && decide (exponent < .ofInt 0)) = false := by
    rw [Bool.and_eq_false_iff, decide_eq_false_iff_not]
    by_cases zero : p = 0
    · right
      rw [atExponent.lt_iff (hasValue_ofInt 0)]
      simpa using defined zero
    · left
      rwa [Bool.eq_false_iff, ne_eq, atBase.isZero_iff]
  refine ⟨p ^ exponent.toInt, zpow_nonneg nonneg _, ?_⟩
  rw [integerPow, atBase.1, atExponent.1, regular, atBase.2]
  exact hasValue_ofRat _

/-! ## The state -/

/-- `Configuration::targetDelay`, in nanoseconds. -/
def targetDelay : ℤ := 200000

/-- The static members and the local variables of the loop, with the configuration. -/
structure CpuMonitor where
  configuration : Configuration
  avgMinXCpuIdleRatio : LongDouble := 1
  avgSimStateOverheadDelay : ℤ := targetDelay
  tdfLoad : LongDouble
  tdfSim : LongDouble
  deriving DecidableEq

/-- `CpuMonitor::start`, at the beginning of its loop. -/
def CpuMonitor.start (configuration : Configuration) : CpuMonitor where
  configuration
  tdfLoad := configuration.tdfMin
  tdfSim := configuration.tdfMin

/-- What an iteration reads: the least idle ratio of the processors, the state of the
simulators in shared memory, and the clock. -/
structure MonitorReading where
  curMinXCpuIdleRatio : ℚ
  simStateTime : ℕ := 0
  simStateOverheadDelay : ℕ := 0
  currentTime : ℕ := 0
  deriving DecidableEq

/-- The state of the simulators is less than ten seconds away, in either direction. -/
def MonitorReading.isRecent (reading : MonitorReading) : Bool :=
  let timeDiff :=
    if reading.currentTime < reading.simStateTime then
      reading.simStateTime - reading.currentTime
    else reading.currentTime - reading.simStateTime
  timeDiff < 10000000

/-! ## An iteration -/

/-- `CpuMonitor::sign`. -/
def sign (t : LongDouble) : LongDouble :=
  if t.isZero then .ofInt 0 else if t < .ofInt 0 then .ofInt (-1) else .ofInt 1

namespace Configuration

/-- `monitorMode` has `TDF_load` in it. -/
def followsLoad (c : Configuration) : Bool := c.monitorMode = 0 || c.monitorMode = 2

/-- `monitorMode` has `TDF_sim` in it. -/
def followsSim (c : Configuration) : Bool := c.monitorMode = 1 || c.monitorMode = 2

/-- The target CPU idle ratio. -/
def targCpuIdleRatio (c : Configuration) (a : Arithmetic := .exact) : LongDouble :=
  a.double (1 - c.targetLoad)

/-- The linear increment for an average of the idle ratios. -/
def linearIncrement (c : Configuration) (curAvgMinXCpuIdleRatio : LongDouble)
    (a : Arithmetic := .exact) : LongDouble :=
  a.double (a.double (curAvgMinXCpuIdleRatio - c.targCpuIdleRatio a) /
    a.double (1 - c.targCpuIdleRatio a))

/-- Set a boundary. -/
def setBoundary (c : Configuration) (tdf : LongDouble) : LongDouble :=
  if tdf < c.tdfMin then c.tdfMin else if c.tdfMax < tdf then c.tdfMax else tdf

end Configuration

namespace CpuMonitor

/-- `CpuMonitor::getAvgMinXCpuIdleRatio`, the exponential weighted moving average. -/
def getAvgMinXCpuIdleRatio (m : CpuMonitor) (reading : MonitorReading)
    (a : Arithmetic := .exact) : LongDouble :=
  a.double (a.double (a.double (1 - m.configuration.alpha) * m.avgMinXCpuIdleRatio) +
    a.double (m.configuration.alpha * .ofRat reading.curMinXCpuIdleRatio))

/-- The statements of an iteration in the modes with `TDF_load`. -/
def updateLoad (pow : LongDouble → LongDouble → LongDouble) (m : CpuMonitor)
    (reading : MonitorReading) (a : Arithmetic := .exact) : CpuMonitor :=
  let c := m.configuration
  let curAvgMinXCpuIdleRatio := m.getAvgMinXCpuIdleRatio reading a
  let linearIncrement := c.linearIncrement curAvgMinXCpuIdleRatio a
  let nonlinearIncrement := pow linearIncrement.fabs c.nonlinearFactor
  let twoPowOfNonlinearFactor := pow (.ofInt 2) c.nonlinearFactor
  { m with
    avgMinXCpuIdleRatio := curAvgMinXCpuIdleRatio
    tdfLoad := c.setBoundary (a.extended (m.tdfLoad -
      a.double (a.double (a.double (c.changeSlope * twoPowOfNonlinearFactor) *
        sign linearIncrement) * nonlinearIncrement))) }

/-- The statements of an iteration in the modes with `TDF_sim`. -/
def updateSim (m : CpuMonitor) (reading : MonitorReading) (a : Arithmetic := .exact) :
    CpuMonitor :=
  let c := m.configuration
  if reading.isRecent then
    let avgSimStateOverheadDelay := a.toInt64 (a.double (
      a.double (a.double (1 - c.alpha) * a.double (.ofInt m.avgSimStateOverheadDelay)) +
        a.double (c.alpha * a.double (.ofInt reading.simStateOverheadDelay))))
    { m with
      avgSimStateOverheadDelay
      tdfSim := c.setBoundary (a.extended (m.tdfSim +
        a.extended (a.extended (c.tdfSimGain *
          a.extended (.ofInt avgSimStateOverheadDelay - .ofInt targetDelay)) /
            .ofInt targetDelay))) }
  else { m with tdfSim := c.tdfMin }

/-- The required factor of the mode. -/
def rTdf (m : CpuMonitor) : LongDouble :=
  match m.configuration.monitorMode with
  | 0 => m.tdfLoad
  | 1 => m.tdfSim
  | 2 => if m.tdfLoad < m.tdfSim then m.tdfSim else m.tdfLoad
  | _ => m.configuration.tdfMin

/-- The iteration moves `tdfLoad`. -/
def movesLoad (m : CpuMonitor) : Bool :=
  m.configuration.isLoadMonitored && m.configuration.followsLoad

/-- The iteration moves `tdfSim`, or sets it back. -/
def movesSim (m : CpuMonitor) : Bool :=
  m.configuration.isLoadMonitored && m.configuration.followsSim

/-- The state an iteration of `CpuMonitor::start` leaves. -/
def iterate (pow : LongDouble → LongDouble → LongDouble) (m : CpuMonitor)
    (reading : MonitorReading) (a : Arithmetic := .exact) : CpuMonitor :=
  let loaded := if m.movesLoad then m.updateLoad pow reading a else m
  if m.movesSim then loaded.updateSim reading a else loaded

/-- The factor an iteration broadcasts, if it does. -/
def broadcast (pow : LongDouble → LongDouble → LongDouble) (m : CpuMonitor)
    (reading : MonitorReading) : Option LongDouble :=
  if m.configuration.isLoadMonitored then some (m.iterate pow reading).rTdf else none

/-- What an iteration divides by. -/
def divisors (m : CpuMonitor) (reading : MonitorReading) : List LongDouble :=
  (if m.movesLoad then [1 - m.configuration.targCpuIdleRatio] else []) ++
    if m.movesSim && reading.isRecent then [.ofInt targetDelay] else []

/-- What an iteration raises, and to which power. -/
def powers (m : CpuMonitor) (reading : MonitorReading) : List (LongDouble × LongDouble) :=
  let c := m.configuration
  if m.movesLoad then
    [((c.linearIncrement (m.getAvgMinXCpuIdleRatio reading)).fabs, c.nonlinearFactor),
      (.ofInt 2, c.nonlinearFactor)]
  else []

end CpuMonitor

/-! ## Runs -/

/-- An iteration of the loop, or a message handled between two of them. -/
inductive MonitorAction where
  | iteration (reading : MonitorReading)
  | receiveTcp (msg : CString)
  deriving DecidableEq

/-- The step of a run. Of the agent only the configuration concerns the monitor. -/
def monitorStep (pow : LongDouble → LongDouble → LongDouble) (m : CpuMonitor) :
    MonitorAction → Option CpuMonitor
  | .iteration reading => some (m.iterate pow reading)
  | .receiveTcp msg =>
      some { m with configuration :=
        (statementsOf (parseTcpMsg msg)).foldl Statement.onConfiguration m.configuration }

/-- Statements move the configuration one after the other. -/
theorem configuration_of_execAll {statements : List Statement} {a next : Agent}
    {host : HostReading} (done : execAll a host statements = .ok next) :
    next.configuration = statements.foldl Statement.onConfiguration a.configuration := by
  refine execAll_foldl (fun s configuration => s.configuration = configuration)
    Statement.onConfiguration ?_ rfl done
  rintro s _ statement after notified rfl executed
  obtain ⟨-, -, -, configuration_eq, -⟩ := exec_frame executed
  exact configuration_eq

/-- **The monitor sees a message as the message processor performs it.** -/
theorem monitorStep_receiveTcp (pow : LongDouble → LongDouble → LongDouble) (m : CpuMonitor)
    {a next : Agent} {host : HostReading} {msg : CString}
    (done : execAll a host (statementsOf (parseTcpMsg msg)) = .ok next) :
    monitorStep pow { m with configuration := a.configuration } (.receiveTcp msg) =
      some { m with configuration := next.configuration } := by
  rw [configuration_of_execAll done]
  rfl

/-! ## What an iteration does to a factor -/

/-- The settings are finite numbers, and the bounds are in order. -/
structure Configuration.Numeric (c : Configuration) : Prop where
  changeSlope : c.changeSlope.isFinite = true
  nonlinearFactor : c.nonlinearFactor.isFinite = true
  alpha : c.alpha.isFinite = true
  targetLoad : c.targetLoad.isFinite = true
  tdfMin : c.tdfMin.isFinite = true
  tdfMax : c.tdfMax.isFinite = true
  tdfSimGain : c.tdfSimGain.isFinite = true
  ordered : c.tdfMin ≤ c.tdfMax

instance (c : Configuration) : Decidable c.Numeric :=
  decidable_of_iff
    (c.changeSlope.isFinite = true ∧ c.nonlinearFactor.isFinite = true ∧
      c.alpha.isFinite = true ∧ c.targetLoad.isFinite = true ∧ c.tdfMin.isFinite = true ∧
      c.tdfMax.isFinite = true ∧ c.tdfSimGain.isFinite = true ∧ c.tdfMin ≤ c.tdfMax)
    ⟨fun ⟨changeSlope, nonlinearFactor, alpha, targetLoad, tdfMin, tdfMax, tdfSimGain, ordered⟩ =>
        { changeSlope, nonlinearFactor, alpha, targetLoad, tdfMin, tdfMax, tdfSimGain, ordered },
      fun numeric => ⟨numeric.changeSlope, numeric.nonlinearFactor, numeric.alpha,
        numeric.targetLoad, numeric.tdfMin, numeric.tdfMax, numeric.tdfSimGain,
        numeric.ordered⟩⟩

/-- The factor is a finite number inside the bounds in force. -/
structure Configuration.Bounds (c : Configuration) (tdf : LongDouble) : Prop where
  finite : tdf.isFinite = true
  least : c.tdfMin ≤ tdf
  greatest : tdf ≤ c.tdfMax

/-- Setting a boundary saturates the number of the factor. -/
theorem hasValue_setBoundary {c : Configuration} {tdf : LongDouble} {low high q : ℚ}
    (atMin : c.tdfMin.HasValue low) (atMax : c.tdfMax.HasValue high) (ordered : low ≤ high)
    (atTdf : tdf.HasValue q) : (c.setBoundary tdf).HasValue (saturated ordered q) := by
  unfold Configuration.setBoundary
  split
  case isTrue below =>
    rw [atTdf.lt_iff atMin] at below
    rwa [saturated_of_le_low ordered below.le]
  case isFalse notBelow =>
    rw [atTdf.lt_iff atMin, not_lt] at notBelow
    split
    case isTrue above =>
      rw [atMax.lt_iff atTdf] at above
      rwa [saturated_of_high_le ordered above.le]
    case isFalse notAbove =>
      rw [atMax.lt_iff atTdf, not_lt] at notAbove
      rwa [saturated_of_mem ordered ⟨notBelow, notAbove⟩]

namespace Configuration.Numeric

variable {c : Configuration}

theorem bounds_tdfMin (numeric : c.Numeric) : c.Bounds c.tdfMin where
  finite := numeric.tdfMin
  least := by
    have value := hasValue_toRat numeric.tdfMin
    exact (value.le_iff value).mpr le_rfl
  greatest := numeric.ordered

/-- **A finite factor that is set back is inside the bounds.** -/
theorem setBoundary_spec (numeric : c.Numeric) {tdf : LongDouble} (finite : tdf.isFinite = true) :
    c.Bounds (c.setBoundary tdf) := by
  have atMin := hasValue_toRat numeric.tdfMin
  have atMax := hasValue_toRat numeric.tdfMax
  have ordered := (atMin.le_iff atMax).mp numeric.ordered
  have saturated := hasValue_setBoundary atMin atMax ordered (hasValue_toRat finite)
  have inside := saturated_mem ordered tdf.toRat
  exact ⟨saturated.1, (atMin.le_iff saturated).mpr inside.1, (saturated.le_iff atMax).mpr inside.2⟩

theorem hasValue_targCpuIdleRatio (numeric : c.Numeric) :
    c.targCpuIdleRatio.HasValue (1 - c.targetLoad.toRat) :=
  hasValue_one.sub (hasValue_toRat numeric.targetLoad)

/-- The divisor of the linear increment is the target load. -/
theorem hasValue_divisor (numeric : c.Numeric) :
    (1 - c.targCpuIdleRatio).HasValue c.targetLoad.toRat := by
  have value := hasValue_one.sub numeric.hasValue_targCpuIdleRatio
  rwa [sub_sub_cancel] at value

theorem hasValue_linearIncrement (numeric : c.Numeric) (nonzero : c.targetLoad.toRat ≠ 0)
    {average : LongDouble} {a : ℚ} (atAverage : average.HasValue a) :
    (c.linearIncrement average).HasValue
      ((a - (1 - c.targetLoad.toRat)) / c.targetLoad.toRat) :=
  (atAverage.sub numeric.hasValue_targCpuIdleRatio).div numeric.hasValue_divisor nonzero

end Configuration.Numeric

/-- The linear increment vanishes for an average on its target only. -/
theorem abs_increment_eq_zero_iff {a t : ℚ} (nonzero : t ≠ 0) :
    |(a - (1 - t)) / t| = 0 ↔ a = 1 - t := by
  rw [abs_eq_zero, div_eq_zero_iff, or_iff_left nonzero, sub_eq_zero]

theorem isFinite_sign (t : LongDouble) : (sign t).isFinite = true := by
  unfold sign
  split
  · rfl
  · split
    · rfl
    · rfl

namespace CpuMonitor

variable {m : CpuMonitor} {reading : MonitorReading}

/-- The average of the idle ratios and the two factors are finite numbers. -/
structure Finite (m : CpuMonitor) : Prop where
  average : m.avgMinXCpuIdleRatio.isFinite = true
  tdfLoad : m.tdfLoad.isFinite = true
  tdfSim : m.tdfSim.isFinite = true

theorem finite_start {c : Configuration} (numeric : c.Numeric) : (start c).Finite :=
  ⟨rfl, numeric.tdfMin, numeric.tdfMin⟩

/-- The average of the idle ratios after an iteration, as a number. -/
def nextAverage (m : CpuMonitor) (reading : MonitorReading) : ℚ :=
  (1 - m.configuration.alpha.toRat) * m.avgMinXCpuIdleRatio.toRat +
    m.configuration.alpha.toRat * reading.curMinXCpuIdleRatio

theorem hasValue_getAvgMinXCpuIdleRatio (numeric : m.configuration.Numeric) (finite : m.Finite)
    (reading : MonitorReading) :
    (m.getAvgMinXCpuIdleRatio reading).HasValue (m.nextAverage reading) := by
  have atAlpha := hasValue_toRat numeric.alpha
  have kept := (hasValue_one.sub atAlpha).mul (hasValue_toRat finite.average)
  exact kept.add (atAlpha.mul (hasValue_ofRat reading.curMinXCpuIdleRatio))

/-- **`tdfLoad` ends inside the bounds**, when its target is not zero and no zero is raised
to a negative power. -/
theorem updateLoad_spec {pow : LongDouble → LongDouble → LongDouble} (isPow : IsPow pow)
    (numeric : m.configuration.Numeric) (finite : m.Finite)
    (nonzero : m.configuration.targetLoad.toRat ≠ 0)
    (defined : 0 ≤ m.configuration.nonlinearFactor.toRat ∨
      m.nextAverage reading ≠ 1 - m.configuration.targetLoad.toRat) :
    (m.updateLoad pow reading).Finite ∧
      m.configuration.Bounds (m.updateLoad pow reading).tdfLoad := by
  have atAverage := hasValue_getAvgMinXCpuIdleRatio numeric finite reading
  have atLinear := numeric.hasValue_linearIncrement nonzero atAverage
  have atExponent := hasValue_toRat numeric.nonlinearFactor
  obtain ⟨raised, -, atRaised⟩ := isPow _ _ _ _ atLinear.fabs atExponent (abs_nonneg _) (by
    intro zero
    rcases defined with nonneg | apart
    · exact nonneg
    · exact absurd ((abs_increment_eq_zero_iff nonzero).mp zero) apart)
  obtain ⟨twoRaised, -, atTwo⟩ := isPow _ _ _ _ (hasValue_ofInt 2) atExponent (by norm_num)
    (fun impossible => absurd impossible (by norm_num))
  have atSign := hasValue_toRat
    (isFinite_sign (m.configuration.linearIncrement (m.getAvgMinXCpuIdleRatio reading)))
  have atChange :=
    (((hasValue_toRat numeric.changeSlope).mul atTwo).mul atSign).mul atRaised
  have moved := (hasValue_toRat finite.tdfLoad).sub atChange
  have bounds := numeric.setBoundary_spec moved.1
  exact ⟨⟨atAverage.1, bounds.finite, finite.tdfSim⟩, bounds⟩

/-- **`tdfSim` ends inside the bounds.** -/
theorem updateSim_spec (numeric : m.configuration.Numeric) (finite : m.Finite)
    (reading : MonitorReading) :
    (m.updateSim reading).Finite ∧ m.configuration.Bounds (m.updateSim reading).tdfSim := by
  have atTarget := hasValue_ofInt targetDelay
  have nonzero : (targetDelay : ℚ) ≠ 0 := by norm_num [targetDelay]
  unfold updateSim
  split
  case isTrue =>
    let overhead := ((1 - m.configuration.alpha) * .ofInt m.avgSimStateOverheadDelay +
      m.configuration.alpha * .ofInt reading.simStateOverheadDelay).toInt
    have atGain := (hasValue_toRat numeric.tdfSimGain).mul ((hasValue_ofInt overhead).sub atTarget)
    have moved := (hasValue_toRat finite.tdfSim).add (atGain.div atTarget nonzero)
    have bounds := numeric.setBoundary_spec moved.1
    exact ⟨⟨finite.average, finite.tdfLoad, bounds.finite⟩, bounds⟩
  case isFalse =>
    exact ⟨⟨finite.average, finite.tdfLoad, numeric.tdfMin⟩, numeric.bounds_tdfMin⟩

/-- The statements for `tdfSim` change nothing but it and the average of the delay. -/
theorem updateSim_eq (m : CpuMonitor) (reading : MonitorReading) (a : Arithmetic) :
    ∃ avgSimStateOverheadDelay tdfSim,
      m.updateSim reading a = { m with avgSimStateOverheadDelay, tdfSim } := by
  unfold updateSim
  split
  · exact ⟨_, _, rfl⟩
  · exact ⟨_, _, rfl⟩

theorem updateSim_tdfLoad (m : CpuMonitor) (reading : MonitorReading)
    (a : Arithmetic) : (m.updateSim reading a).tdfLoad = m.tdfLoad := by
  obtain ⟨avgSimStateOverheadDelay, tdfSim, changed⟩ := m.updateSim_eq reading a
  rw [changed]

theorem updateSim_configuration (m : CpuMonitor) (reading : MonitorReading)
    (a : Arithmetic) : (m.updateSim reading a).configuration = m.configuration := by
  obtain ⟨avgSimStateOverheadDelay, tdfSim, changed⟩ := m.updateSim_eq reading a
  rw [changed]

end CpuMonitor

end VirtualAgent
