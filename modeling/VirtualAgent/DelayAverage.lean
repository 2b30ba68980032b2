import VirtualAgent.BroadcastTdf
import VirtualAgent.Library.MovingAverage

/-!
# The average of the simulators' delay

The modes with `TDF_sim` keep an exponential weighted moving average of the delay that the
simulators report. It is an `int64_t`, so the update drops the fraction. For the
iterations of `CpuMonitor::start` this is the average of the library
(`updateSim_average`), also in the mode that moves both factors.

`delay_average_settles` is what becomes of it when the simulators keep on reporting one
delay: it moves toward the delay without crossing it and comes to rest. The rest is not
always the delay. From below it is anything nearer than the inverse of `alpha`, because
the last fraction is dropped each time.
-/

set_option autoImplicit false

namespace VirtualAgent

open ExactFloat CText Transition MovingAverage
open ExactFloat.LongDouble (HasValue hasValue_ofInt hasValue_one)

namespace CpuMonitor

variable {pow : LongDouble → LongDouble → LongDouble} {m : CpuMonitor}
  {reading : MonitorReading} {readings : ℕ → MonitorReading}

/-! ## Iterations without a message between them -/

/-- The state after the first iterations of the loop. -/
def after (pow : LongDouble → LongDouble → LongDouble) (readings : ℕ → MonitorReading)
    (m : CpuMonitor) (n : ℕ) (a : Arithmetic := .exact) : CpuMonitor :=
  match n with
  | 0 => m
  | n + 1 => (after pow readings m n a).iterate pow (readings n) a

/-- They are a run of the monitor. -/
theorem run_after (pow : LongDouble → LongDouble → LongDouble)
    (readings : ℕ → MonitorReading) (m : CpuMonitor) (n : ℕ) :
    run (monitorStep pow) m ((List.range n).map fun k => .iteration (readings k)) =
      some (m.after pow readings n) := by
  induction n generalizing m readings with
  | zero => rfl
  | succ n ih =>
      have shifted : ∀ k, (m.iterate pow (readings 0)).after pow (fun i => readings (i + 1)) k =
          m.after pow readings (k + 1) := by
        intro k
        induction k with
        | zero => rfl
        | succ k ihk =>
            rw [after, ihk]
            rfl
      rw [List.range_succ_eq_map, List.map_cons, List.map_map]
      exact (ih (fun i => readings (i + 1)) (m.iterate pow (readings 0))).trans
        (congrArg some (shifted n))

theorem configuration_after (pow : LongDouble → LongDouble → LongDouble)
    (readings : ℕ → MonitorReading) (m : CpuMonitor) (n : ℕ) (a : Arithmetic) :
    (m.after pow readings n a).configuration = m.configuration := by
  induction n with
  | zero => rfl
  | succ n ih => rw [after, configuration_iterate, ih]

theorem movesSim_after (moves : m.movesSim = true) (n : ℕ) (a : Arithmetic) :
    (m.after pow readings n a).movesSim = true := by
  rw [movesSim, configuration_after]
  exact moves

/-! ## The modes with `TDF_sim` -/

/-- What an iteration does to the factor and the average of `TDF_sim` is what their
statements do, whatever becomes of `tdfLoad`. -/
theorem iterate_sim (pow : LongDouble → LongDouble → LongDouble) (reading : MonitorReading)
    (moves : m.movesSim = true) (a : Arithmetic) :
    (m.iterate pow reading a).avgSimStateOverheadDelay =
        (m.updateSim reading a).avgSimStateOverheadDelay ∧
      (m.iterate pow reading a).tdfSim = (m.updateSim reading a).tdfSim := by
  rw [iterate, moves, if_pos rfl]
  split
  · unfold updateSim
    split
    · exact ⟨rfl, rfl⟩
    · exact ⟨rfl, rfl⟩
  · exact ⟨rfl, rfl⟩

/-- **The average of the code is the truncated moving average.** -/
theorem updateSim_average {alpha : ℚ} (atAlpha : m.configuration.alpha.HasValue alpha)
    (recent : reading.isRecent = true) :
    (m.updateSim reading).avgSimStateOverheadDelay =
      average alpha reading.simStateOverheadDelay m.avgSimStateOverheadDelay := by
  have kept := (hasValue_one.sub atAlpha).mul (hasValue_ofInt m.avgSimStateOverheadDelay)
  have added := atAlpha.mul (hasValue_ofInt reading.simStateOverheadDelay)
  rw [updateSim, if_pos recent]
  exact (kept.add added).toInt

/-- The simulators report the same delay in every iteration. -/
def Reports (readings : ℕ → MonitorReading) (delay : ℤ) : Prop :=
  ∀ n, (readings n).isRecent = true ∧ (readings n).simStateOverheadDelay = delay

theorem Reports.nonneg {delay : ℤ} (reports : Reports readings delay) : 0 ≤ delay := by
  rw [← (reports 0).2]
  exact Int.natCast_nonneg _

theorem average_after (pow : LongDouble → LongDouble → LongDouble) {alpha : ℚ} {delay : ℤ}
    (moves : m.movesSim = true)
    (atAlpha : m.configuration.alpha.HasValue alpha) (reports : Reports readings delay) (n : ℕ) :
    (m.after pow readings n).avgSimStateOverheadDelay =
      (average alpha delay)^[n] m.avgSimStateOverheadDelay := by
  induction n with
  | zero => rfl
  | succ n ih =>
      obtain ⟨recent, delay_eq⟩ := reports n
      rw [after, (iterate_sim pow (readings n) (movesSim_after moves n .exact) .exact).1,
        updateSim_average (by rwa [configuration_after]) recent, delay_eq, ih,
        Function.iterate_succ_apply']

/-! ## At rest -/

/-- A sequence of averages approaches a delay from its own side, without crossing it, and
from some place on is one number, at the delay or below it by less than the inverse of the
weight. -/
structure Settles (averages : ℕ → ℤ) (delay : ℤ) (weight : ℚ) : Prop where
  climbs : averages 0 ≤ delay → ∀ n, averages n ≤ averages (n + 1) ∧ averages (n + 1) ≤ delay
  falls : delay ≤ averages 0 → ∀ n, delay ≤ averages (n + 1) ∧ averages (n + 1) ≤ averages n
  rests : ∃ n c, (∀ k, n ≤ k → averages k = c) ∧ (delay : ℚ) - 1 / weight < c ∧ c ≤ delay

theorem settles_iterate {weight : ℚ} {delay a : ℤ} (positive : 0 < weight)
    (atMostOne : weight ≤ 1) (observed : 0 ≤ delay) (start : 0 ≤ a) :
    Settles (fun n => (average weight delay)^[n] a) delay weight := by
  have approaches := approaches_average positive.le atMostOne delay
  refine ⟨approaches.iterate_of_le, approaches.iterate_of_ge, ?_⟩
  obtain ⟨n, -, rests⟩ := approaches.exists_rests a
  have nonneg : 0 ≤ (average weight delay)^[n] a :=
    approaches.le_iterate observed start n
  have place := (average_eq_self_iff positive atMostOne observed nonneg).mp rests
  refine ⟨n, _, ?_, place.2, place.1⟩
  intro k later
  exact iterate_eq_of_rests rests later

/-- **The average of the simulators' delay settles.** Under a constant report it moves
toward the delay from its own side, never crosses it, and rests after finitely many
iterations at a number `c` with `delay - 1 / alpha < c ≤ delay`. -/
theorem delay_average_settles (pow : LongDouble → LongDouble → LongDouble) {alpha : ℚ}
    {delay : ℤ} (moves : m.movesSim = true) (atAlpha : m.configuration.alpha.HasValue alpha)
    (positive : 0 < alpha) (atMostOne : alpha ≤ 1) (start : 0 ≤ m.avgSimStateOverheadDelay)
    (reports : Reports readings delay) :
    Settles (fun n => (m.after pow readings n).avgSimStateOverheadDelay) delay alpha := by
  have averages : (fun n => (m.after pow readings n).avgSimStateOverheadDelay) =
      fun n => (average alpha delay)^[n] m.avgSimStateOverheadDelay := by
    funext n
    exact average_after pow moves atAlpha reports n
  rw [averages]
  exact settles_iterate positive atMostOne reports.nonneg start

/-- The monitor in the mode with `TDF_sim` only, with the other settings at first. -/
def simMonitor : CpuMonitor := .start { monitorMode := 1 }

/-- The simulators are late by one and a half times the target. -/
def lateReports (_ : ℕ) : MonitorReading := ⟨0, 7, 300000, 9⟩

theorem delay_average_settles_late :
    Settles (fun n => (simMonitor.after integerPow lateReports n).avgSimStateOverheadDelay)
      300000 (1 / 8) :=
  delay_average_settles integerPow (by decide +kernel) (by decide +kernel)
    (by norm_num) (by norm_num) (by decide +kernel) fun _ => ⟨rfl, rfl⟩

end CpuMonitor

end VirtualAgent
