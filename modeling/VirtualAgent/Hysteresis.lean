import VirtualAgent.Agreement

/-!
# The hysteresis of the table

The table adopts its greatest factor when that is away from the factor in use by the
threshold or more, measured against the factor in use. Other operations write, erase
and clear entries, switch the table on and off, and impose a factor.

The gap is computed in `long double`: the difference is rounded and so is its quotient by
the factor in use (`TdfTable.computedGap`). A quotient just below the threshold may be
rounded to it, and then the factor is adopted although the gap is smaller
(`adopts_below_threshold`). Away from the threshold by a part of `2 ^ 62`, the test and the
exact gap agree.

`adopted_factor_tracks_maximum` is what holds after every sequence of operations: setting
an entry of an enabled table leaves the factor in use within the threshold of the greatest
one, now measured against the new factor in use, and broadcasting any entry of the
table again does nothing. The measure can only matter where the factor changes, and
there the two are equal. What the argument needs of the past is that every factor is a
positive number of the format (`TdfTable.OfPositives`).
-/

set_option autoImplicit false

namespace VirtualAgent

open ExactFloat CText Outcome Transition KeyOrder
open Std (ExtTreeMap)
open ExactFloat.LongDouble (HasValue hasValue_ofRat)

/-! ## Operations -/

/-- A positive number that a `long double` holds. -/
structure PositiveNumber where
  value : ℚ
  positive : 0 < value
  isPoint : value ∈ Format.extended.points
  fits : value < 2 ^ (Format.extended.top + 1)

/-- The number as the agent holds it. -/
def PositiveNumber.toLongDouble (q : PositiveNumber) : LongDouble := .ofRat q.value

/-- The factor in use at first. -/
def PositiveNumber.one : PositiveNumber where
  value := 1
  positive := one_pos
  isPoint := by exact_mod_cast Format.extended.intCast_mem_points (n := 1) (by decide)
  fits := one_lt_pow₀ one_lt_two (Nat.succ_ne_zero _)

theorem PositiveNumber.hasValue (q : PositiveNumber) : q.toLongDouble.HasValue q.value :=
  hasValue_ofRat q.value

/-- An operation on the table of factors. -/
inductive TableOperation where
  | set (hostname : CString) (tdfVal : PositiveNumber)
  | erase (hostname : CString)
  | clear
  | enableTable
  | disableTable
  | enforceTdf (tdfVal : PositiveNumber)

/-- Perform an operation. -/
def TableOperation.perform (tdfChangeThreshold : PositiveNumber) (memDb : MemoryDatabase) :
    TableOperation → Except Fault MemoryDatabase
  | .set hostname tdfVal => do
      let (tdfTable, _) ←
        memDb.tdfTable.set tdfChangeThreshold.toLongDouble hostname tdfVal.toLongDouble .machine
      return { memDb with tdfTable }
  | .erase hostname => return { memDb with tdfTable := memDb.tdfTable.erase hostname }
  | .clear => return { memDb with tdfTable := memDb.tdfTable.clear }
  | .enableTable => return { memDb with tdfTable := memDb.tdfTable.enableTable }
  | .disableTable => return { memDb with tdfTable := memDb.tdfTable.disableTable }
  | .enforceTdf tdfVal => return memDb.enforceTdf tdfVal.toLongDouble

/-- The step of a run of operations. -/
def tableStep (tdfChangeThreshold : PositiveNumber) (memDb : MemoryDatabase)
    (operation : TableOperation) : Option MemoryDatabase :=
  (operation.perform tdfChangeThreshold memDb).toOption

/-! ## Positive factors -/

/-- Every factor of the table and the one in use are positive numbers. -/
structure TdfTable.OfPositives (t : TdfTable) : Prop where
  entries : ∀ (name : CString) (pointer : Option TdfEntry), t.tdfMap[name]? = some pointer →
    ∃ q : PositiveNumber, pointer = some ⟨q.toLongDouble⟩
  latest : ∃ q : PositiveNumber, t.latestTdf = q.toLongDouble

/-- The numbers in the table. -/
def TdfTable.numbers (t : TdfTable) : Set ℚ :=
  { q | ∃ name : CString, t.tdfMap[name]? = some (some ⟨.ofRat q⟩) }

/-! ### The gap as it is computed -/

/-- The relative gap in `long double`: the difference is rounded, and so is its quotient. -/
def computedGap (latest maxVal : ℚ) : ℚ :=
  Format.extended.rounded (|Format.extended.rounded (maxVal - latest)| / latest)

theorem computedGap_nonneg (latest maxVal : PositiveNumber) :
    0 ≤ computedGap latest.value maxVal.value :=
  Format.rounded_nonneg (div_nonneg (abs_nonneg _) latest.positive.le)

namespace TdfTable.OfPositives

variable {t : TdfTable}

theorem nonNull (positives : t.OfPositives) : NonNull t.tdfMap := by
  intro name null
  obtain ⟨q, pointer⟩ := positives.entries name none null
  cases pointer

theorem written (positives : t.OfPositives) (hostname : CString) (tdfVal : PositiveNumber) :
    (t.written hostname tdfVal.toLongDouble).OfPositives := by
  refine ⟨?_, positives.latest⟩
  intro name pointer found
  rw [TdfTable.written, ExtTreeMap.getElem?_insert] at found
  split at found
  · cases found
    exact ⟨tdfVal, rfl⟩
  · exact positives.entries name pointer found

theorem erase (positives : t.OfPositives) (hostname : CString) :
    (t.erase hostname).OfPositives := by
  refine ⟨?_, positives.latest⟩
  intro name pointer found
  rw [TdfTable.erase, ExtTreeMap.getElem?_erase] at found
  split at found
  · cases found
  · exact positives.entries name pointer found

theorem setLatestTdf (positives : t.OfPositives) (q : PositiveNumber) :
    (t.setLatestTdf q.toLongDouble).OfPositives := ⟨positives.entries, q, rfl⟩

/-- The greatest factor of a table that has one is a positive number, and it is the
greatest as a number. -/
theorem maxTdf_written (positives : t.OfPositives) (hostname : CString)
    (tdfVal : PositiveNumber) :
    ∃ maxVal : PositiveNumber,
      (t.written hostname tdfVal.toLongDouble).maxTdf = .ok maxVal.toLongDouble ∧
      IsGreatest (t.written hostname tdfVal.toLongDouble).numbers maxVal.value := by
  obtain ⟨maxVal, greatest, ⟨name, entry, found, value⟩, least⟩ :=
    TdfTable.maxTdf_written positives.nonNull hostname tdfVal.toLongDouble
  obtain ⟨q, pointer⟩ := (positives.written hostname tdfVal).entries name _ found
  cases pointer
  cases value
  refine ⟨q, greatest, ⟨name, found⟩, ?_⟩
  rintro other ⟨otherName, otherFound⟩
  have notAbove := least otherName _ otherFound
  rw [PositiveNumber.toLongDouble, LongDouble.ofRat_lt, not_lt] at notAbove
  exact notAbove

/-- **The test of the threshold is that of the gap as it is computed.** What overflows is
no less than a number that does not. -/
theorem le_gap_iff {latest : PositiveNumber} (latest_eq : t.latestTdf = latest.toLongDouble)
    (maxVal threshold : PositiveNumber) :
    threshold.toLongDouble ≤ t.gap maxVal.toLongDouble .machine ↔
      threshold.value ≤ computedGap latest.value maxVal.value := by
  have upper : maxVal.value - latest.value ≤ maxVal.value := sub_le_self _ latest.positive.le
  have lower : latest.value - maxVal.value ≤ latest.value := sub_le_self _ maxVal.positive.le
  have fits : |Format.extended.rounded (maxVal.value - latest.value)| <
      2 ^ (Format.extended.top + 1) := by
    have above := (Format.rounded_le maxVal.isPoint upper).trans_lt maxVal.fits
    have below := (Format.rounded_le latest.isPoint lower).trans_lt latest.fits
    rw [← neg_sub, Format.rounded_neg] at below
    exact abs_lt.mpr ⟨neg_lt.mp below, above⟩
  have difference :=
    (Format.extended.hasValue_round (maxVal.hasValue.sub latest.hasValue) fits).fabs
  have quotient := difference.div latest.hasValue latest.positive.ne'
  simp only [TdfTable.gap, latest_eq, Arithmetic.machine_extended]
  by_cases small : |computedGap latest.value maxVal.value| < 2 ^ (Format.extended.top + 1)
  · exact threshold.hasValue.le_iff (Format.extended.hasValue_round quotient small)
  · rw [not_lt] at small
    have nonneg := computedGap_nonneg latest maxVal
    have notNegative : ¬ |Format.extended.rounded (maxVal.value - latest.value)| /
        latest.value < 0 := not_lt.mpr (div_nonneg (abs_nonneg _) latest.positive.le)
    have infinite := Format.extended.round_of_overflow quotient small
    rw [decide_eq_false notNegative] at infinite
    rw [abs_of_nonneg nonneg] at small
    refine iff_of_true ?_ (threshold.fits.le.trans small)
    rw [infinite]
    exact rfl

/-- **What setting an entry does to a table of positive numbers.** -/
theorem set (positives : t.OfPositives) (threshold : PositiveNumber) (hostname : CString)
    (tdfVal : PositiveNumber) :
    ∃ next notified,
      t.set threshold.toLongDouble hostname tdfVal.toLongDouble .machine =
        .ok (next, notified) ∧ next.OfPositives := by
  obtain ⟨next, notified, done⟩ := TdfTable.set_ok positives.nonNull threshold.toLongDouble
    hostname tdfVal.toLongDouble .machine
  refine ⟨next, notified, done, ?_⟩
  obtain ⟨rfl, -⟩ | ⟨maxVal, greatest, rfl, -⟩ := TdfTable.set_cases done
  · exact positives.written hostname tdfVal
  · obtain ⟨q, greatest', -⟩ := positives.maxTdf_written hostname tdfVal
    obtain rfl : maxVal = q.toLongDouble := Except.ok.inj (greatest.symm.trans greatest')
    exact (positives.written hostname tdfVal).setLatestTdf q

/-- An operation has a result, again of positive numbers. -/
theorem perform {memDb : MemoryDatabase} (positives : memDb.tdfTable.OfPositives)
    (threshold : PositiveNumber) (operation : TableOperation) :
    ∃ next, operation.perform threshold memDb = .ok next ∧ next.tdfTable.OfPositives := by
  cases operation with
  | set hostname tdfVal =>
      obtain ⟨next, notified, done, kept⟩ := positives.set threshold hostname tdfVal
      exact ⟨_, bind_eq_ok.mpr ⟨_, done, rfl⟩, kept⟩
  | erase hostname => exact ⟨_, rfl, positives.erase hostname⟩
  | clear =>
      refine ⟨_, rfl, ⟨?_, positives.latest⟩⟩
      intro name pointer found
      simp [TdfTable.clear] at found
  | enableTable => exact ⟨_, rfl, ⟨positives.entries, positives.latest⟩⟩
  | disableTable => exact ⟨_, rfl, ⟨positives.entries, positives.latest⟩⟩
  | enforceTdf tdfVal => exact ⟨_, rfl, ⟨positives.entries, tdfVal, rfl⟩⟩

end TdfTable.OfPositives

/-- The table at first. -/
theorem ofPositives_initial : ({} : MemoryDatabase).tdfTable.OfPositives := by
  refine ⟨?_, .one, rfl⟩
  intro name pointer found
  simp at found

/-- Every sequence of operations has a result, of positive numbers. -/
theorem run_tableStep (threshold : PositiveNumber) (operations : List TableOperation)
    {memDb : MemoryDatabase} (positives : memDb.tdfTable.OfPositives) :
    ∃ after, run (tableStep threshold) memDb operations = some after ∧
      after.tdfTable.OfPositives := by
  induction operations generalizing memDb with
  | nil => exact ⟨memDb, rfl, positives⟩
  | cons operation rest ih =>
      obtain ⟨next, done, kept⟩ := positives.perform threshold operation
      obtain ⟨after, ran, holds⟩ := ih kept
      exact ⟨after, run_cons_eq_some.mpr ⟨next, toOption_eq_some.mpr done, ran⟩, holds⟩

/-! ## The factor in use -/

/-- A difference of numbers of the format is nearly the one that is computed. -/
theorem abs_computed_sub_le (latest maxVal : PositiveNumber) :
    |(|Format.extended.rounded (maxVal.value - latest.value)| - |maxVal.value - latest.value|)| ≤
      |maxVal.value - latest.value| / 2 ^ 64 := by
  have close := Format.extended.abs_rounded_add_sub_le maxVal.isPoint
    (Format.extended.neg_mem_points latest.isPoint)
  rw [← sub_eq_add_neg] at close
  refine (abs_abs_sub_abs_le _ _).trans (close.trans_eq ?_)
  norm_num [Format.extended]

/-- **The computed gap is nearly the exact one.** -/
theorem abs_computedGap_sub_le (latest maxVal : PositiveNumber) :
    |computedGap latest.value maxVal.value - |maxVal.value - latest.value| / latest.value| ≤
      |maxVal.value - latest.value| / latest.value / 2 ^ 62 + (2 : ℚ) ^ (-16445 : ℤ) := by
  let difference := |Format.extended.rounded (maxVal.value - latest.value)| / latest.value
  let exact := |maxVal.value - latest.value| / latest.value
  have nonneg : 0 ≤ exact := div_nonneg (abs_nonneg _) latest.positive.le
  have first : |difference - exact| ≤ exact / 2 ^ 64 := by
    have close := abs_computed_sub_le latest maxVal
    rw [← sub_div, abs_div, abs_of_pos latest.positive, div_right_comm]
    exact div_le_div_of_nonneg_right close latest.positive.le
  have second : |computedGap latest.value maxVal.value - difference| ≤
      difference / 2 ^ 64 + (2 : ℚ) ^ (-16445 : ℤ) := by
    have close := Format.extended.abs_rounded_sub_le difference
    rw [abs_of_nonneg (div_nonneg (abs_nonneg _) latest.positive.le)] at close
    have unit : (0 : ℚ) < (2 : ℚ) ^ (-16445 : ℤ) := zpow_pos two_pos _
    have halved : difference / (2 * 2 ^ Format.extended.digits) = difference / 2 ^ 64 := by
      norm_num [Format.extended]
    have least : Format.extended.least = -16445 := rfl
    rw [halved, least] at close
    refine close.trans ?_
    linarith
  obtain ⟨below, above⟩ := abs_le.mp first
  obtain ⟨below', above'⟩ := abs_le.mp second
  rw [abs_le]
  constructor
  · linarith
  · linarith

/-- What a set does to an enabled table: the greatest factor `maxVal` after it, the factor
in use before it and after it, and whether the waiters are notified. -/
structure Tracks (threshold before maxVal after : ℚ) (notified : Bool) : Prop where
  within : |Format.extended.rounded (maxVal - after)| < threshold * after
  near : |maxVal - after| < threshold * after * (1 + 1 / 2 ^ 63)
  adopts : threshold ≤ computedGap before maxVal → notified = true ∧ after = maxVal
  keeps : computedGap before maxVal < threshold → notified = false ∧ after = before
  accurate : |computedGap before maxVal - |maxVal - before| / before| ≤
    |maxVal - before| / before / 2 ^ 62 + (2 : ℚ) ^ (-16445 : ℤ)

/-- A computed gap below the threshold bounds the difference. -/
theorem within_of_computedGap_lt {threshold latest maxVal : PositiveNumber}
    (below : computedGap latest.value maxVal.value < threshold.value) :
    |Format.extended.rounded (maxVal.value - latest.value)| < threshold.value * latest.value ∧
      |maxVal.value - latest.value| < threshold.value * latest.value * (1 + 1 / 2 ^ 63) := by
  have within : |Format.extended.rounded (maxVal.value - latest.value)| <
      threshold.value * latest.value := by
    rw [← div_lt_iff₀ latest.positive]
    by_contra away
    exact absurd below (not_lt.mpr (Format.le_rounded threshold.isPoint (not_lt.mp away)))
  refine ⟨within, ?_⟩
  obtain ⟨low, -⟩ := abs_le.mp (abs_computed_sub_le latest maxVal)
  have positive := mul_pos threshold.positive latest.positive
  linarith

/-- The computed gap of a factor to itself is zero. -/
theorem computedGap_self (latest : ℚ) : computedGap latest latest = 0 := by
  rw [computedGap, sub_self, Format.rounded_zero, abs_zero, zero_div, Format.rounded_zero]

theorem tracks_of_set {t next : TdfTable} (positives : t.OfPositives) {threshold : PositiveNumber}
    {hostname : CString} {tdfVal : PositiveNumber} {notified : Bool}
    (enabled : t.isTableEnabled = true)
    (done : t.set threshold.toLongDouble hostname tdfVal.toLongDouble .machine =
      .ok (next, notified)) :
    ∃ before maxVal after : PositiveNumber, t.latestTdf = before.toLongDouble ∧
      next.maxTdf = .ok maxVal.toLongDouble ∧ IsGreatest next.numbers maxVal.value ∧
      next.latestTdf = after.toLongDouble ∧
      Tracks threshold.value before.value maxVal.value after.value notified := by
  obtain ⟨before, before_eq⟩ := positives.latest
  obtain ⟨maxVal, greatest, isGreatest⟩ := positives.maxTdf_written hostname tdfVal
  have tested := TdfTable.OfPositives.le_gap_iff before_eq maxVal threshold
  have accurate := abs_computedGap_sub_le before maxVal
  obtain ⟨rfl, silent, near⟩ | ⟨found, greatest', rfl, loud, -, away⟩ := TdfTable.set_cases done
  · obtain ⟨found, greatest', close⟩ := near enabled
    obtain rfl : found = maxVal.toLongDouble := Except.ok.inj (greatest'.symm.trans greatest)
    rw [tested, not_le] at close
    obtain ⟨within, bound⟩ := within_of_computedGap_lt close
    refine ⟨before, maxVal, before, before_eq, greatest, isGreatest, before_eq, within, bound, ?_,
      ?_, accurate⟩
    · intro away
      exact absurd close (not_lt.mpr away)
    · intro _
      exact ⟨silent, rfl⟩
  · obtain rfl : found = maxVal.toLongDouble := Except.ok.inj (greatest'.symm.trans greatest)
    rw [tested] at away
    have below : computedGap maxVal.value maxVal.value < threshold.value := by
      rw [computedGap_self]
      exact threshold.positive
    obtain ⟨within, bound⟩ := within_of_computedGap_lt below
    refine ⟨before, maxVal, maxVal, before_eq, greatest, isGreatest, rfl, within, bound, ?_, ?_,
      accurate⟩
    · intro _
      exact ⟨loud, rfl⟩
    · intro close
      exact absurd away (not_le.mpr close)

/-- Broadcasting an entry again does nothing when the greatest factor is close. -/
theorem set_again {t : TdfTable} {threshold maxVal : LongDouble} {arithmetic : Arithmetic}
    (greatest : t.maxTdf = .ok maxVal) (close : ¬ threshold ≤ t.gap maxVal arithmetic)
    (enabled : t.isTableEnabled = true) {hostname : CString} {tdfVal : LongDouble}
    (present : t.tdfMap[hostname]? = some (some ⟨tdfVal⟩)) :
    t.set threshold hostname tdfVal arithmetic = .ok (t, false) := by
  have same : t.written hostname tdfVal = t := by
    rw [TdfTable.written, insert_of_getElem?_eq_some present]
  rw [TdfTable.set_of_enabled enabled, same, greatest, ok_bind, if_neg close]

/-- What the factor in use tracks is close to it, by the test of the code too. -/
theorem Tracks.not_le_gap {threshold before maxVal after : PositiveNumber} {notified : Bool}
    (tracks : Tracks threshold.value before.value maxVal.value after.value notified)
    {t : TdfTable} (latest_eq : t.latestTdf = after.toLongDouble) :
    ¬ threshold.toLongDouble ≤ t.gap maxVal.toLongDouble .machine := by
  rw [TdfTable.OfPositives.le_gap_iff latest_eq, not_le]
  rcases lt_or_ge (computedGap before.value maxVal.value) threshold.value with close | away
  · rwa [(tracks.keeps close).2]
  · rw [(tracks.adopts away).2, computedGap_self]
    exact threshold.positive

/-- **The factor in use tracks the greatest one.** After any sequence of operations, a set
has a result. On an enabled table the greatest factor is the greatest number of the
table and the factor in use is within the threshold of it; it changes, to the greatest
factor, and the waiters are notified, exactly when the gap before, as `long double`
computes it, was the threshold or more; and setting any entry of the table again changes
nothing and notifies nobody. On a disabled table the factor in use stays. -/
theorem adopted_factor_tracks_maximum (threshold : PositiveNumber)
    (operations : List TableOperation) (hostname : CString) (tdfVal : PositiveNumber) :
    ∃ memDb next notified, run (tableStep threshold) {} operations = some memDb ∧
      memDb.tdfTable.set threshold.toLongDouble hostname tdfVal.toLongDouble .machine =
        .ok (next, notified) ∧
      (memDb.tdfTable.isTableEnabled = true →
        (∃ before maxVal after : PositiveNumber,
          memDb.tdfTable.latestTdf = before.toLongDouble ∧
          next.maxTdf = .ok maxVal.toLongDouble ∧
          IsGreatest next.numbers maxVal.value ∧
          next.latestTdf = after.toLongDouble ∧
          Tracks threshold.value before.value maxVal.value after.value notified) ∧
        ∀ (otherHost : CString) (value : LongDouble),
          next.tdfMap[otherHost]? = some (some ⟨value⟩) →
          next.set threshold.toLongDouble otherHost value .machine = .ok (next, false)) ∧
      (memDb.tdfTable.isTableEnabled = false →
        next.latestTdf = memDb.tdfTable.latestTdf ∧ notified = false) := by
  obtain ⟨memDb, ran, positives⟩ := run_tableStep threshold operations ofPositives_initial
  obtain ⟨next, notified, done, -⟩ := positives.set threshold hostname tdfVal
  refine ⟨memDb, next, notified, ran, done, ?_, ?_⟩
  · intro enabled
    obtain ⟨before, maxVal, after, before_eq, greatest, isGreatest, after_eq, tracks⟩ :=
      tracks_of_set positives enabled done
    refine ⟨⟨before, maxVal, after, before_eq, greatest, isGreatest, after_eq, tracks⟩, ?_⟩
    have enabledNext : next.isTableEnabled = true := by
      obtain ⟨rfl, -⟩ | ⟨maxVal, -, rfl, -⟩ := TdfTable.set_cases done
      · exact enabled
      · exact enabled
    intro otherHost value present
    exact set_again greatest (tracks.not_le_gap after_eq) enabledNext present
  · intro disabled
    rw [TdfTable.set_of_disabled disabled] at done
    cases done
    exact ⟨rfl, rfl⟩

/-- A number with 64 digits and a unit of the format. -/
def PositiveNumber.ofDigits (digits : ℕ) (k : ℕ) (positive : 0 < digits)
    (few : digits ≤ 2 ^ 64) (least : k ≤ 16445) : PositiveNumber where
  value := digits / 2 ^ k
  positive := by positivity
  isPoint := by
    have magnitude : |(digits : ℚ) / 2 ^ k| = digits * ((2 : ℕ) : ℚ) ^ (-k : ℤ) := by
      rw [abs_of_nonneg (by positivity), zpow_neg, zpow_natCast, div_eq_mul_inv, Nat.cast_ofNat]
    exact ⟨digits, -k, by simp [Format.extended]; omega, few, magnitude⟩
  fits := by
    have small : (digits : ℚ) ≤ 2 ^ 64 := by exact_mod_cast few
    refine (div_le_self (Nat.cast_nonneg _) (one_le_pow₀ one_le_two)).trans_lt ?_
    exact small.trans_lt (pow_lt_pow_right₀ one_lt_two (by decide))

/-- Seven hundredths, as a `double`. -/
def sevenHundredths : PositiveNumber :=
  .ofDigits 1261007895663739 54 (by decide) (by decide) (by decide)

/-- The factor in use, as a `double`: 16.007. -/
def inUse : PositiveNumber := .ofDigits 4505569952207471 48 (by decide) (by decide) (by decide)

/-- A factor that is greater by a little less than seven hundredths: 17.12749. -/
def justBelow : PositiveNumber := .ofDigits 2410479924430997 47 (by decide) (by decide) (by decide)

/-- **A gap below the threshold may be taken for the threshold.** The three numbers are read
from their decimal texts. The exact gap is below the threshold by three parts of `10 ^ 21`,
the computed one is the threshold, and the greater factor is adopted. -/
theorem adopts_below_threshold :
    atof (ascii "0.07") = sevenHundredths.toLongDouble ∧
      atof (ascii "16.007") = inUse.toLongDouble ∧
      atof (ascii "17.12749") = justBelow.toLongDouble ∧
      |justBelow.value - inUse.value| / inUse.value < sevenHundredths.value ∧
      ∃ memDb next, run (tableStep sevenHundredths) {} [.enforceTdf inUse, .enableTable] =
          some memDb ∧
        memDb.tdfTable.latestTdf = inUse.toLongDouble ∧
        memDb.tdfTable.set sevenHundredths.toLongDouble (ascii "a") justBelow.toLongDouble
          .machine = .ok (next, true) ∧ next.latestTdf = justBelow.toLongDouble := by
  refine ⟨by decide +kernel, by decide +kernel, by decide +kernel, by decide +kernel, ?_⟩
  have computed : (run (tableStep sevenHundredths) {} [.enforceTdf inUse, .enableTable]).any
      (fun memDb => decide (memDb.tdfTable.latestTdf = inUse.toLongDouble ∧
        (memDb.tdfTable.set sevenHundredths.toLongDouble (ascii "a") justBelow.toLongDouble
          .machine).toOption.any (fun result =>
            decide (result.2 = true ∧ result.1.latestTdf = justBelow.toLongDouble)) = true)) =
        true := by
    decide +kernel
  obtain ⟨memDb, ran, latest_eq, adopted⟩ := exists_of_any computed
  obtain ⟨⟨next, notified⟩, done, rfl, adopted_eq⟩ := exists_of_any adopted
  exact ⟨memDb, next, ran, latest_eq, toOption_eq_some.mp done, adopted_eq⟩

end VirtualAgent
