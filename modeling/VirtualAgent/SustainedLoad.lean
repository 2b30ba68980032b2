import VirtualAgent.LoadController
import VirtualAgent.Library.Drive
import VirtualAgent.Library.Transition

/-!
# A load that lasts

The load controller has no set point of its own: it keeps moving as long as the average of
the idle ratios is off its target. So a load that lasts drives the factor to one of its
bounds. While every reading is below some ratio below the target, the average comes below
the target, too, and then each iteration raises the factor by a least amount; and the other
way for readings above the target.

`sustained_load_saturates` says that there is a number of iterations after which the factor
that is broadcast is the bound, and stays there, whatever the readings are beyond that and
whatever messages are handled between them that leave the settings alone. The number is
determined by the settings and by where the monitor is at first.
-/

set_option autoImplicit false

namespace VirtualAgent

open ExactFloat Saturation SignedPower CText Transition Drive
open ExactFloat.LongDouble (HasValue hasValue_ofRat hasValue_one hasValue_toRat)

/-! ## Moves of a least amount -/

section Move

variable {slope target average middle tdf low high : ℚ} {exponent : ℕ}

/-- Below the target every average raises the factor. -/
theorem loadMove_neg (steep : 0 < slope) (positive : 0 < target) (exponent : ℕ)
    (busy : average < 1 - target) : loadMove slope target exponent average < 0 := by
  have negative : (average - (1 - target)) / target < 0 :=
    div_neg_of_neg_of_pos (by linarith) positive
  rw [loadMove, signedPow_of_neg exponent negative]
  exact mul_neg_of_pos_of_neg (mul_pos steep (by positivity))
    (neg_neg_of_pos (pow_pos (neg_pos.mpr negative) exponent))

/-- Above the target every average lowers it. -/
theorem loadMove_pos (steep : 0 < slope) (positive : 0 < target) (exponent : ℕ)
    (idle : 1 - target < average) : 0 < loadMove slope target exponent average := by
  have above : 0 < (average - (1 - target)) / target := div_pos (by linarith) positive
  rw [loadMove, signedPow_of_pos exponent above]
  exact mul_pos (mul_pos steep (by positivity)) (pow_pos above exponent)

/-- What is left to the greater bound after a move up by a least amount. -/
theorem high_sub_saturated_le (ordered : low ≤ high) {amount move : ℚ} (least : amount ≤ -move) :
    high - saturated ordered (tdf - move) ≤ max 0 (high - tdf - amount) := by
  rcases le_total high (tdf - move) with reached | short
  · rw [saturated_of_high_le ordered reached, sub_self]
    exact le_max_left _ _
  · have kept : tdf - move ≤ saturated ordered (tdf - move) := by
      rcases le_total low (tdf - move) with inside | below
      · rw [saturated_of_mem ordered ⟨inside, short⟩]
      · rw [saturated_of_le_low ordered below]
        exact below
    exact le_max_of_le_right (by linarith)

/-- What is left to the smaller bound after a move down by a least amount. -/
theorem saturated_sub_low_le (ordered : low ≤ high) {amount move : ℚ} (least : amount ≤ move) :
    saturated ordered (tdf - move) - low ≤ max 0 (tdf - low - amount) := by
  rcases le_total (tdf - move) low with reached | short
  · rw [saturated_of_le_low ordered reached, sub_self]
    exact le_max_left _ _
  · have kept : saturated ordered (tdf - move) ≤ tdf - move := by
      rcases le_total (tdf - move) high with inside | above
      · rw [saturated_of_mem ordered ⟨short, inside⟩]
      · rw [saturated_of_high_le ordered above]
        exact above
    exact le_max_of_le_right (by linarith)

end Move

/-! ## Runs with settings that stay -/

/-- The readings are among some ratios, and the messages leave the settings alone. -/
def SettingsStay (ratios : Set ℚ) (m : CpuMonitor) : MonitorAction → Prop
  | .iteration reading => reading.curMinXCpuIdleRatio ∈ ratios
  | .receiveTcp msg =>
      (statementsOf (parseTcpMsg msg)).foldl Statement.onConfiguration m.configuration =
        m.configuration

/-- Count the iterations. -/
def countIteration (count : ℕ) : MonitorAction → ℕ
  | .iteration _ => count + 1
  | .receiveTcp _ => count

/-- How many iterations a run has. -/
def iterations (actions : List MonitorAction) : ℕ := actions.foldl countIteration 0

theorem le_foldl_countIteration (count : ℕ) (actions : List MonitorAction) :
    count ≤ actions.foldl countIteration count := by
  induction actions generalizing count with
  | nil => exact le_rfl
  | cons action rest ih =>
      have counted : count ≤ countIteration count action := by
        cases action with
        | iteration reading => exact Nat.le_succ count
        | receiveTcp msg => exact le_rfl
      exact counted.trans (ih _)

theorem iterations_le_append (first second : List MonitorAction) :
    iterations first ≤ iterations (first ++ second) := by
  rw [iterations, iterations, List.foldl_append]
  exact le_foldl_countIteration _ _

theorem iterations_replicate (reading : MonitorReading) (count : ℕ) :
    iterations (List.replicate count (.iteration reading)) = count := by
  have counted : ∀ start, (List.replicate count (MonitorAction.iteration reading)).foldl
      countIteration start = start + count := by
    induction count with
    | zero => exact fun _ => rfl
    | succ count ih =>
        intro start
        rw [List.replicate_succ, List.foldl_cons, ih, countIteration]
        omega
  exact (counted 0).trans (Nat.zero_add count)

/-- Settings for the mode with `TDF_load` only, as numbers, in which the controller moves
and the average follows the readings. -/
structure Configuration.FollowsLoad (c : Configuration) (slope target low high alpha : ℚ)
    (exponent : ℕ) : Prop where
  monitored : c.isLoadMonitored = true
  mode : c.monitorMode = 0
  settings : c.LoadSettings slope target low high exponent
  steep : 0 < slope
  atAlpha : c.alpha.HasValue alpha
  weight : 0 < alpha ∧ alpha ≤ 1

section Run

variable {pow : LongDouble → LongDouble → LongDouble} {c : Configuration}
  {slope target low high alpha : ℚ} {exponent : ℕ}

/-- What an error and a gap of the controller have to do with it: for the readings in
question an iteration lets the error shrink, keeps the gap bounded, and closes it by a
least amount while the error is within the margin. -/
structure Pulls (follows : c.FollowsLoad slope target low high alpha exponent) (ratios : Set ℚ)
    (error gap : ℚ → ℚ) (margin amount far : ℚ) : Prop where
  shrinks : ∀ average, ∀ ratio ∈ ratios,
    error ((1 - alpha) * average + alpha * ratio) ≤ (1 - alpha) * error average
  bounded : ∀ tdf ∈ Set.Icc low high, gap tdf ≤ far
  pulled : ∀ average tdf, error average ≤ margin →
    gap (saturated follows.settings.ordered (tdf - loadMove slope target exponent average)) ≤
      max 0 (gap tdf - amount)

/-- What holds of the monitor after a number of iterations. -/
structure Underway (c : Configuration) (low high alpha : ℚ) (error gap : ℚ → ℚ)
    (start margin amount far : ℚ) (m : CpuMonitor) (count : ℕ) : Prop where
  configuration_eq : m.configuration = c
  exists_values : ∃ average tdf, m.avgMinXCpuIdleRatio.HasValue average ∧
    m.tdfLoad.HasValue tdf ∧ (0 < count → tdf ∈ Set.Icc low high) ∧
    Driven alpha start margin amount far count (error average) (gap tdf)

variable {ratios : Set ℚ} {error gap : ℚ → ℚ} {start margin amount far : ℚ}

/-- **Each step of the monitor drives the factor on.** -/
theorem Underway.step (isNatPow : IsNatPow pow)
    (follows : c.FollowsLoad slope target low high alpha exponent)
    (pulls : Pulls follows ratios error gap margin amount far) (nonneg : 0 ≤ start)
    (positive : 0 ≤ amount) {m next : CpuMonitor} {count : ℕ} {action : MonitorAction}
    (underway : Underway c low high alpha error gap start margin amount far m count)
    (stays : SettingsStay ratios m action) (stepped : monitorStep pow m action = some next) :
    Underway c low high alpha error gap start margin amount far next
      (countIteration count action) := by
  obtain ⟨rfl, average, tdf, atAverage, atTdf, inside, driven⟩ := underway
  cases action with
  | receiveTcp msg =>
      cases stepped
      exact ⟨stays, average, tdf, atAverage, atTdf, inside, driven⟩
  | iteration reading =>
      cases stepped
      rw [CpuMonitor.iterate_load pow reading follows.monitored follows.mode]
      have atNext : (m.getAvgMinXCpuIdleRatio reading).HasValue
          ((1 - alpha) * average + alpha * reading.curMinXCpuIdleRatio) :=
        ((hasValue_one.sub follows.atAlpha).mul atAverage).add
          (follows.atAlpha.mul (hasValue_ofRat reading.curMinXCpuIdleRatio))
      have within := saturated_mem follows.settings.ordered
        (tdf - loadMove slope target exponent
          ((1 - alpha) * average + alpha * reading.curMinXCpuIdleRatio))
      refine ⟨rfl, _, _, atNext,
        CpuMonitor.updateLoad_tdfLoad isNatPow follows.settings atNext atTdf, fun _ => within, ?_⟩
      exact driven.next ⟨follows.weight.1.le, follows.weight.2⟩ nonneg positive
        (pulls.shrinks average _ stays) (pulls.bounded _ within) (pulls.pulled _ tdf)

/-- **A load that lasts closes the gap** after a number of iterations. -/
theorem exists_iterations (isNatPow : IsNatPow pow)
    (follows : c.FollowsLoad slope target low high alpha exponent)
    (pulls : Pulls follows ratios error gap margin amount far) (within : 0 < margin)
    (positive : 0 < amount) {m : CpuMonitor} {average tdf : ℚ}
    (configuration_eq : m.configuration = c)
    (atAverage : m.avgMinXCpuIdleRatio.HasValue average) (atTdf : m.tdfLoad.HasValue tdf)
    (near : gap tdf ≤ far) :
    ∃ enough, ∀ (actions : List MonitorAction) (next : CpuMonitor),
      Meets (monitorStep pow) (SettingsStay ratios) m actions →
      run (monitorStep pow) m actions = some next → enough ≤ iterations actions →
      ∃ q ∈ Set.Icc low high, next.tdfLoad.HasValue q ∧ gap q ≤ 0 ∧ next.configuration = c := by
  have nonneg : 0 ≤ max 0 (error average) := le_max_left _ _
  obtain ⟨count, reached⟩ := exists_reached follows.weight nonneg within positive far
  refine ⟨count + 1, ?_⟩
  intro actions next stays ran enough
  have initial :
      Underway c low high alpha error gap (max 0 (error average)) margin amount far m 0 :=
    ⟨configuration_eq, average, tdf, atAverage, atTdf,
      fun impossible => absurd impossible (by simp),
      driven_zero (le_max_right _ _) near⟩
  obtain ⟨kept, _, q, -, atNext, inside, driven⟩ := run_invariant_foldl
    (Underway c low high alpha error gap (max 0 (error average)) margin amount far) countIteration
    (fun _ _ _ _ underway stays stepped =>
      underway.step isNatPow follows pulls nonneg positive.le stays stepped) initial stays ran
  change count + 1 ≤ actions.foldl countIteration 0 at enough
  exact ⟨q, inside (by omega), atNext, reached _ (by omega) _ _ driven, kept⟩

/-! ## Both directions -/

/-- Readings below a ratio that is below the target pull the factor up. -/
theorem pulls_busy (follows : c.FollowsLoad slope target low high alpha exponent) (busy tdf : ℚ) :
    Pulls follows (Set.Iic busy) (fun average => average - busy) (fun tdf => high - tdf)
      ((1 - target - busy) / 2)
      (-loadMove slope target exponent (busy + (1 - target - busy) / 2))
      (max (high - low) (high - tdf)) where
  shrinks := by
    intro average ratio below
    have pull : alpha * (ratio - busy) ≤ 0 :=
      mul_nonpos_of_nonneg_of_nonpos follows.weight.1.le (sub_nonpos.mpr below)
    linarith
  bounded := by
    intro other inside
    have least := inside.1
    exact le_max_of_le_left (by linarith)
  pulled := by
    intro average other near
    refine high_sub_saturated_le follows.settings.ordered (neg_le_neg ?_)
    exact loadMove_mono follows.settings.nonneg follows.settings.positive exponent (by linarith)

/-- Readings above a ratio that is above the target pull the factor down. -/
theorem pulls_idle (follows : c.FollowsLoad slope target low high alpha exponent) (idle tdf : ℚ) :
    Pulls follows (Set.Ici idle) (fun average => idle - average) (fun tdf => tdf - low)
      ((idle - (1 - target)) / 2)
      (loadMove slope target exponent (idle - (idle - (1 - target)) / 2))
      (max (high - low) (tdf - low)) where
  shrinks := by
    intro average ratio above
    have pull : alpha * (idle - ratio) ≤ 0 :=
      mul_nonpos_of_nonneg_of_nonpos follows.weight.1.le (sub_nonpos.mpr above)
    linarith
  bounded := by
    intro other inside
    have most := inside.2
    exact le_max_of_le_left (by linarith)
  pulled := by
    intro average other near
    refine saturated_sub_low_le follows.settings.ordered ?_
    exact loadMove_mono follows.settings.nonneg follows.settings.positive exponent (by linarith)

end Run

/-- **A load that lasts drives the broadcast factor to its bound.** For settings of the mode
with `TDF_load`, a ratio below the target and one above it, and a monitor in any state, some
number of iterations is enough: in every run with as many, in which the messages leave the
settings alone, the factor is the greatest one if all readings are at most the first ratio,
and the least one if all are at least the second. -/
theorem sustained_load_saturates (pow : LongDouble → LongDouble → LongDouble)
    (isNatPow : IsNatPow pow) {c : Configuration} {slope target low high alpha : ℚ}
    {exponent : ℕ} (follows : c.FollowsLoad slope target low high alpha exponent)
    {busy idle : ℚ} (belowTarget : busy < 1 - target) (aboveTarget : 1 - target < idle)
    (m : CpuMonitor) (configuration_eq : m.configuration = c)
    (finiteAverage : m.avgMinXCpuIdleRatio.isFinite = true)
    (finiteTdf : m.tdfLoad.isFinite = true) :
    ∃ enough, ∀ (actions : List MonitorAction) (next : CpuMonitor),
      run (monitorStep pow) m actions = some next → enough ≤ iterations actions →
      (Meets (monitorStep pow) (SettingsStay (Set.Iic busy)) m actions →
        next.rTdf.HasValue high) ∧
      (Meets (monitorStep pow) (SettingsStay (Set.Ici idle)) m actions →
        next.rTdf.HasValue low) := by
  have atAverage := hasValue_toRat finiteAverage
  have atTdf := hasValue_toRat finiteTdf
  have rTdf_eq : ∀ next : CpuMonitor, next.configuration = c → next.rTdf = next.tdfLoad := by
    intro next same
    simp only [CpuMonitor.rTdf, same, follows.mode]
  have raises := loadMove_neg follows.steep follows.settings.positive exponent
    (by linarith : busy + (1 - target - busy) / 2 < 1 - target)
  have lowers := loadMove_pos follows.steep follows.settings.positive exponent
    (by linarith : 1 - target < idle - (idle - (1 - target)) / 2)
  obtain ⟨up, raised⟩ := exists_iterations isNatPow follows
    (pulls_busy follows busy m.tdfLoad.toRat)
    (by linarith) (neg_pos.mpr raises) configuration_eq atAverage atTdf (le_max_right _ _)
  obtain ⟨down, lowered⟩ := exists_iterations isNatPow follows
    (pulls_idle follows idle m.tdfLoad.toRat) (by linarith) lowers configuration_eq atAverage atTdf
    (le_max_right _ _)
  refine ⟨max up down, ?_⟩
  intro actions next ran enough
  constructor
  · intro stays
    obtain ⟨q, inside, value, reached, same⟩ :=
      raised actions next stays ran ((le_max_left _ _).trans enough)
    obtain rfl : q = high := inside.2.antisymm (sub_nonpos.mp reached)
    rwa [rTdf_eq next same]
  · intro stays
    obtain ⟨q, inside, value, reached, same⟩ :=
      lowered actions next stays ran ((le_max_right _ _).trans enough)
    obtain rfl : q = low := (sub_nonpos.mp reached).antisymm inside.1
    rwa [rTdf_eq next same]

theorem followsLoad_default : ({} : Configuration).FollowsLoad 3 (1 / 2) 1 20 (1 / 8) 4 where
  monitored := rfl
  mode := rfl
  settings := loadSettings_default
  steep := by norm_num
  atAlpha := by decide +kernel
  weight := by norm_num

/-- One iteration after another with the same reading. -/
theorem exists_run_replicate (pow : LongDouble → LongDouble → LongDouble) (m : CpuMonitor)
    (reading : MonitorReading) (count : ℕ) :
    ∃ next, run (monitorStep pow) m (List.replicate count (.iteration reading)) = some next := by
  induction count generalizing m with
  | zero => exact ⟨m, rfl⟩
  | succ count ih =>
      obtain ⟨next, ran⟩ := ih (m.iterate pow reading)
      exact ⟨next, run_cons_eq_some.mpr ⟨_, rfl, ran⟩⟩

theorem sustained_load_saturates_default :
    ∃ count busy idle,
      run (monitorStep integerPow) (.start {})
        (List.replicate count (.iteration ⟨1 / 4, 0, 0, 0⟩)) = some busy ∧
      run (monitorStep integerPow) (.start {})
        (List.replicate count (.iteration ⟨3 / 4, 0, 0, 0⟩)) = some idle ∧
      busy.rTdf.HasValue 20 ∧ idle.rTdf.HasValue 1 := by
  obtain ⟨enough, saturates⟩ := sustained_load_saturates integerPow isNatPow_integerPow
    followsLoad_default (by norm_num : (1 / 4 : ℚ) < 1 - 1 / 2)
    (by norm_num : (1 - 1 / 2 : ℚ) < 3 / 4) (.start {}) rfl (by decide +kernel) (by decide +kernel)
  obtain ⟨busy, ranBusy⟩ := exists_run_replicate integerPow (.start {}) ⟨1 / 4, 0, 0, 0⟩ enough
  obtain ⟨idle, ranIdle⟩ := exists_run_replicate integerPow (.start {}) ⟨3 / 4, 0, 0, 0⟩ enough
  have counted := fun reading => (iterations_replicate reading enough).ge
  refine ⟨enough, busy, idle, ranBusy, ranIdle, (saturates _ busy ranBusy (counted _)).1 ?_,
    (saturates _ idle ranIdle (counted _)).2 ?_⟩
  · refine meets_of_forall (fun action member m => ?_) _
    rw [List.eq_of_mem_replicate member]
    exact Set.mem_Iic.mpr le_rfl
  · refine meets_of_forall (fun action member m => ?_) _
    rw [List.eq_of_mem_replicate member]
    exact Set.mem_Ici.mpr le_rfl

end VirtualAgent
