import VirtualAgent.CpuMonitor
import VirtualAgent.Library.Transition

/-!
# The factors the monitor broadcasts

Messages can set the gains, the target and the bounds of the monitor to any numbers
between two iterations, and the factors it carries are set back into the bounds. But the
linear increment is divided by the target load, and its absolute value raised to the
nonlinear factor. At a target load of zero the monitor divides by zero, and at a negative
nonlinear factor it raises zero to a negative power when the average of the idle ratios is
on its target. What comes of that can be no number, which no boundary sets back
(`zero_target_load_broadcasts_nan`).

`broadcasts_in_bounds_iff` says that nothing else goes wrong: a run divides by no zero,
raises no zero to a negative power and broadcasts factors inside the bounds in force
exactly when those two settings are not met by an iteration that follows the load. The
invariant is that the average and both factors are finite numbers; it is kept in every
mode, also for the factor that the mode leaves alone.
-/

set_option autoImplicit false

namespace VirtualAgent

open ExactFloat CText Transition
open ExactFloat.LongDouble (HasValue hasValue_toRat hasValue_ofInt)

/-! ## The property and the condition -/

/-- An iteration divides by no zero, raises no zero to a negative power, and broadcasts a
factor inside the bounds in force. -/
structure CpuMonitor.IteratesInBounds (pow : LongDouble → LongDouble → LongDouble)
    (m : CpuMonitor) (reading : MonitorReading) : Prop where
  divides : ∀ divisor ∈ m.divisors reading, divisor.isZero = false
  raises : ∀ power ∈ m.powers reading, ¬ (power.1.isZero = true ∧ power.2 < .ofInt 0)
  broadcasts : ∀ rTdf ∈ m.broadcast pow reading,
    m.configuration.tdfMin ≤ rTdf ∧ rTdf ≤ m.configuration.tdfMax

/-- An iteration that follows the load has a target load other than zero, and a nonlinear
factor that is not negative unless the average of the idle ratios is off its target. -/
def CpuMonitor.LoadDefined (m : CpuMonitor) (reading : MonitorReading) : Prop :=
  m.movesLoad = true →
    m.configuration.targetLoad.toRat ≠ 0 ∧
      (0 ≤ m.configuration.nonlinearFactor.toRat ∨
        m.nextAverage reading ≠ 1 - m.configuration.targetLoad.toRat)

/-- The same of an action of a run. -/
def IteratesInBounds (pow : LongDouble → LongDouble → LongDouble) (m : CpuMonitor) :
    MonitorAction → Prop
  | .iteration reading => m.IteratesInBounds pow reading
  | .receiveTcp _ => True

def LoadDefined (m : CpuMonitor) : MonitorAction → Prop
  | .iteration reading => m.LoadDefined reading
  | .receiveTcp _ => True

/-- The settings in force in an iteration are finite numbers, with the bounds in order. -/
def NumericSettings (m : CpuMonitor) : MonitorAction → Prop
  | .iteration _ => m.configuration.Numeric
  | .receiveTcp _ => True

instance (m : CpuMonitor) : DecidablePred (LoadDefined m)
  | .iteration _ => inferInstanceAs (Decidable (_ = _ → _ ≠ _ ∧ (_ ≤ _ ∨ _ ≠ _)))
  | .receiveTcp _ => inferInstanceAs (Decidable True)

instance (m : CpuMonitor) : DecidablePred (NumericSettings m)
  | .iteration _ => inferInstanceAs (Decidable (Configuration.Numeric _))
  | .receiveTcp _ => inferInstanceAs (Decidable True)

/-! ## An iteration -/

section Iteration

variable {pow : LongDouble → LongDouble → LongDouble} {m : CpuMonitor}
  {reading : MonitorReading}

theorem configuration_iterate (pow : LongDouble → LongDouble → LongDouble) (m : CpuMonitor)
    (reading : MonitorReading) (a : Arithmetic) :
    (m.iterate pow reading a).configuration = m.configuration := by
  have loaded : (if m.movesLoad then m.updateLoad pow reading a else m).configuration =
      m.configuration := by
    split
    · rfl
    · rfl
  unfold CpuMonitor.iterate
  cases moves : m.movesSim with
  | true => rw [if_pos rfl, CpuMonitor.updateSim_configuration, loaded]
  | false => exact loaded

/-- **An iteration keeps the numbers finite**, and leaves the factors it moves inside the
bounds. -/
theorem iterate_spec (isPow : IsPow pow) (numeric : m.configuration.Numeric)
    (finite : m.Finite) (defined : m.LoadDefined reading) :
    (m.iterate pow reading).Finite ∧
      (m.movesLoad = true → m.configuration.Bounds (m.iterate pow reading).tdfLoad) ∧
      (m.movesSim = true → m.configuration.Bounds (m.iterate pow reading).tdfSim) := by
  -- the state between the two parts of an iteration
  obtain ⟨loaded, between, configuration_eq, loadedFinite, loadBounds⟩ :
      ∃ loaded, (if m.movesLoad then m.updateLoad pow reading else m) = loaded ∧
        loaded.configuration = m.configuration ∧ loaded.Finite ∧
        (m.movesLoad = true → m.configuration.Bounds loaded.tdfLoad) := by
    cases moves : m.movesLoad with
    | false => exact ⟨m, rfl, rfl, finite, fun impossible => nomatch impossible⟩
    | true =>
        obtain ⟨nonzero, regular⟩ := defined moves
        obtain ⟨kept, bounds⟩ := CpuMonitor.updateLoad_spec isPow numeric finite nonzero regular
        exact ⟨_, rfl, rfl, kept, fun _ => bounds⟩
  unfold CpuMonitor.iterate
  rw [between]
  cases moves : m.movesSim with
  | false => exact ⟨loadedFinite, loadBounds, fun impossible => nomatch impossible⟩
  | true =>
      obtain ⟨kept, bounds⟩ :=
        CpuMonitor.updateSim_spec (configuration_eq ▸ numeric) loadedFinite reading
      rw [configuration_eq] at bounds
      refine ⟨kept, ?_, fun _ => bounds⟩
      intro moves
      rw [if_pos rfl, CpuMonitor.updateSim_tdfLoad]
      exact loadBounds moves

/-- The factor of the mode is inside the bounds when those the mode follows are. -/
theorem bounds_rTdf {c : Configuration} (numeric : c.Numeric) (same : m.configuration = c)
    (loadBounds : c.followsLoad = true → c.Bounds m.tdfLoad)
    (simBounds : c.followsSim = true → c.Bounds m.tdfSim) : c.Bounds m.rTdf := by
  unfold CpuMonitor.rTdf
  rw [same]
  split
  case h_1 mode => exact loadBounds (by simp [Configuration.followsLoad, mode])
  case h_2 mode => exact simBounds (by simp [Configuration.followsSim, mode])
  case h_3 mode =>
    split
    · exact simBounds (by simp [Configuration.followsSim, mode])
    · exact loadBounds (by simp [Configuration.followsLoad, mode])
  case h_4 => exact numeric.bounds_tdfMin

/-- The divisions are defined exactly when the target load of an iteration that follows
the load is not zero. -/
theorem divides_iff (numeric : m.configuration.Numeric) :
    (∀ divisor ∈ m.divisors reading, divisor.isZero = false) ↔
      (m.movesLoad = true → m.configuration.targetLoad.toRat ≠ 0) := by
  have atDivisor : (1 - m.configuration.targCpuIdleRatio).isZero = false ↔
      m.configuration.targetLoad.toRat ≠ 0 := by
    rw [Bool.eq_false_iff, ne_eq, numeric.hasValue_divisor.isZero_iff]
  constructor
  · intro divides moves
    apply atDivisor.mp
    apply divides
    simp [CpuMonitor.divisors, moves]
  · intro nonzero divisor member
    rcases List.mem_append.mp member with member | member
    · split at member
      case isTrue moves =>
        obtain rfl := List.mem_singleton.mp member
        exact atDivisor.mpr (nonzero moves)
      case isFalse => cases member
    · split at member
      case isTrue =>
        obtain rfl := List.mem_singleton.mp member
        rw [Bool.eq_false_iff, ne_eq, (hasValue_ofInt targetDelay).isZero_iff]
        norm_num [targetDelay]
      case isFalse => cases member

/-- With these divisions defined, the powers are defined exactly when the nonlinear factor
is not negative or the average is off its target. -/
theorem raises_iff (numeric : m.configuration.Numeric) (finite : m.Finite)
    (moves : m.movesLoad = true) (nonzero : m.configuration.targetLoad.toRat ≠ 0) :
    (∀ power ∈ m.powers reading, ¬ (power.1.isZero = true ∧ power.2 < .ofInt 0)) ↔
      (0 ≤ m.configuration.nonlinearFactor.toRat ∨
        m.nextAverage reading ≠ 1 - m.configuration.targetLoad.toRat) := by
  have atAverage := CpuMonitor.hasValue_getAvgMinXCpuIdleRatio numeric finite reading
  have atBase := (numeric.hasValue_linearIncrement nonzero atAverage).fabs
  have two : (LongDouble.ofInt 2).isZero = false := by decide +kernel
  unfold CpuMonitor.powers
  rw [if_pos moves, List.forall_mem_cons, List.forall_mem_singleton, atBase.isZero_iff,
    abs_increment_eq_zero_iff nonzero,
    (hasValue_toRat numeric.nonlinearFactor).lt_iff (hasValue_ofInt 0), Int.cast_zero, two,
    not_and_or, not_lt, or_comm]
  simp

/-- The broadcast of an iteration that is defined is inside the bounds. -/
theorem broadcast_bounds (isPow : IsPow pow) (numeric : m.configuration.Numeric)
    (finite : m.Finite) (defined : m.LoadDefined reading) {rTdf : LongDouble}
    (broadcast : m.broadcast pow reading = some rTdf) : m.configuration.Bounds rTdf := by
  obtain ⟨-, loadBounds, simBounds⟩ := iterate_spec isPow numeric finite defined
  obtain ⟨monitored, rfl⟩ := Option.ite_some_none_eq_some.mp broadcast
  apply bounds_rTdf numeric (configuration_iterate pow m reading .exact)
  · intro follows
    apply loadBounds
    rw [CpuMonitor.movesLoad, monitored, follows]
    rfl
  · intro follows
    apply simBounds
    rw [CpuMonitor.movesSim, monitored, follows]
    rfl

/-- **An iteration is in bounds exactly when what it computes for the load is defined.** -/
theorem iteratesInBounds_iff (isPow : IsPow pow) (numeric : m.configuration.Numeric)
    (finite : m.Finite) : m.IteratesInBounds pow reading ↔ m.LoadDefined reading := by
  constructor
  · intro inBounds moves
    have nonzero := (divides_iff numeric).mp inBounds.divides moves
    exact ⟨nonzero, (raises_iff numeric finite moves nonzero).mp inBounds.raises⟩
  · intro defined
    refine ⟨?_, ?_, ?_⟩
    · exact (divides_iff numeric).mpr fun moves => (defined moves).1
    · cases moves : m.movesLoad with
      | true =>
          obtain ⟨nonzero, regular⟩ := defined moves
          exact (raises_iff numeric finite moves nonzero).mpr regular
      | false =>
          intro power member
          simp [CpuMonitor.powers, moves] at member
    · intro rTdf broadcast
      have bounds := broadcast_bounds isPow numeric finite defined broadcast
      exact ⟨bounds.least, bounds.greatest⟩

end Iteration

/-! ## Runs -/

/-- **Every iteration of a run is in bounds exactly when every one that follows the load
has a target load other than zero, and no negative nonlinear factor at an average on its
target.** -/
theorem broadcasts_in_bounds_iff (pow : LongDouble → LongDouble → LongDouble)
    (isPow : IsPow pow) (c : Configuration) (numeric : c.Numeric)
    (actions : List MonitorAction)
    (within : Meets (monitorStep pow) NumericSettings (.start c) actions) :
    Meets (monitorStep pow) (IteratesInBounds pow) (.start c) actions ↔
      Meets (monitorStep pow) LoadDefined (.start c) actions := by
  refine meets_congr_of_invariant CpuMonitor.Finite ?_ ?_ (CpuMonitor.finite_start numeric) within
  · intro m action finite settings
    cases action with
    | iteration reading => exact iteratesInBounds_iff isPow settings finite
    | receiveTcp msg => exact Iff.rfl
  · intro m action next finite settings defined stepped
    cases action with
    | iteration reading =>
        cases stepped
        exact (iterate_spec isPow settings finite defined).1
    | receiveTcp msg =>
        cases stepped
        exact ⟨finite.average, finite.tdfLoad, finite.tdfSim⟩

/-- Iterations in each mode, with the bounds moved between them. -/
def allModes : List MonitorAction :=
  [.iteration ⟨0, 0, 0, 0⟩,
    .receiveTcp (ascii "32|1"), .iteration ⟨1, 5, 300000, 7⟩,
    .receiveTcp (ascii "14|2|6"), .receiveTcp (ascii "20|1|-1|0.5"),
    .receiveTcp (ascii "32|2"), .iteration ⟨0, 7, 300000, 9⟩]

theorem broadcasts_in_bounds_all_modes :
    Meets (monitorStep integerPow) (IteratesInBounds integerPow) (.start {}) allModes :=
  (broadcasts_in_bounds_iff integerPow isPow_integerPow {} (by decide +kernel) allModes
    (by decide +kernel)).mpr (by decide +kernel)

/-- The target load is set to zero, while the processors are idle. -/
def zeroTargetLoad : List MonitorAction := [.receiveTcp (ascii "21|0"), .iteration ⟨1, 0, 0, 0⟩]

/-- **At a target load of zero the monitor divides by zero and broadcasts no number.** -/
theorem zero_target_load_broadcasts_nan :
    Meets (monitorStep integerPow) NumericSettings (.start {}) zeroTargetLoad ∧
      ¬ Meets (monitorStep integerPow) (IteratesInBounds integerPow) (.start {})
        zeroTargetLoad ∧
      ∃ m, run (monitorStep integerPow) (.start {}) zeroTargetLoad = some m ∧ m.rTdf = .nan := by
  refine ⟨by decide +kernel, ?_, ?_⟩
  · rintro ⟨-, later⟩
    obtain ⟨inBounds, -⟩ := later _ rfl
    have divisor := inBounds.divides (.finite false 0) (by decide +kernel)
    cases divisor
  · apply exists_of_any
    decide +kernel

end VirtualAgent
