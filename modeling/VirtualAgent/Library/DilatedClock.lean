import VirtualAgent.Library.Truncation
import Mathlib.Algebra.Order.BigOperators.Group.List
import Mathlib.Tactic.Linarith
import Mathlib.Tactic.Positivity
import Mathlib.Tactic.Ring

/-!
# A clock that runs slower than its host

A dilated clock shows a whole number of units. While it runs, it advances by one
unit in `rate` units of the host clock; while it is stopped, it keeps its value.

* The value never decreases: not with the host clock (`read_mono`), not when the
  clock is stopped or resumed (`read_stop`, `read_resume`), and not when the
  rate changes while it is stopped (`read_setRate_of_stopped`) or is lowered
  while it runs (`read_setRate_of_le`). Raising the rate of a running clock is
  the one operation left, and it sets the clock back.
* The value is accounted for by a `Ledger` of the segments in which the clock
  ran (`Agrees.read_eq`), each cut down to a whole number of units on its own,
  so that a segment loses less than one unit (`Ledger.exact_sub_total`).
* The value keeps behind the host clock (`Slower.read_le`), even where a change of the
  rate sets it back or forth, if no rate is below a least one.
-/

set_option autoImplicit false

namespace DilatedClock

open Truncation

variable {K : Type*} [Field K] [LinearOrder K] [FloorRing K]

/-- The value at the last change, the host time since which the clock runs
unless it is stopped, and the host units in one of its own. -/
structure Clock (K : Type*) where
  base : ℤ
  start : Option ℤ
  rate : K

namespace Clock

/-- The value shown at a host time. -/
def read (c : Clock K) (t : ℤ) : ℤ :=
  match c.start with
  | none => c.base
  | some r => truncate ((c.base : K) + ((t - r : ℤ) : K) / c.rate)

/-- Keep the value shown at a host time. -/
def stop (c : Clock K) (t : ℤ) : Clock K := { c with base := c.read t, start := none }

/-- Run on from the value kept. A running clock is left alone. -/
def resume (c : Clock K) (t : ℤ) : Clock K := { c with start := some (c.start.getD t) }

/-- Run at another rate from now on. -/
def setRate (c : Clock K) (rate : K) : Clock K := { c with rate := rate }

/-- The clock was not started after the host time. -/
def StartedBy (c : Clock K) (t : ℤ) : Prop := ∀ r ∈ c.start, r ≤ t

omit [Field K] [LinearOrder K] [FloorRing K] in
theorem StartedBy.mono {c : Clock K} {s t : ℤ} (started : c.StartedBy s) (le : s ≤ t) :
    c.StartedBy t :=
  fun r member => (started r member).trans le

omit [Field K] [LinearOrder K] [FloorRing K] in
theorem StartedBy.resume {c : Clock K} {t : ℤ} (started : c.StartedBy t) :
    (c.resume t).StartedBy t := by
  intro r member
  cases running : c.start with
  | none => simp_all [Clock.resume]
  | some s =>
      have := started s (by simp [running])
      simp_all [Clock.resume]

@[simp] theorem read_stop (c : Clock K) (s t : ℤ) : (c.stop s).read t = c.read s := rfl

theorem read_setRate_of_stopped {c : Clock K} (stopped : c.start = none) (rate : K) (t : ℤ) :
    (c.setRate rate).read t = c.read t := by
  simp [read, setRate, stopped]

variable [IsStrictOrderedRing K]

/-- **The value does not decrease as the host clock advances.** -/
theorem read_mono {c : Clock K} (positive : 0 < c.rate) {s t : ℤ} (le : s ≤ t) :
    c.read s ≤ c.read t := by
  unfold read
  cases c.start with
  | none => exact le_refl _
  | some r =>
      have elapsed : ((s - r : ℤ) : K) ≤ ((t - r : ℤ) : K) := by
        exact_mod_cast sub_le_sub_right le r
      have scaled := div_le_div_of_nonneg_right elapsed positive.le
      exact truncate_mono (add_le_add_right scaled _)

theorem base_le_read {c : Clock K} (positive : 0 < c.rate) {t : ℤ} (started : c.StartedBy t) :
    c.base ≤ c.read t := by
  cases running : c.start with
  | none => simp [read, running]
  | some r =>
      have value : c.read r = c.base := by simp [read, running]
      rw [← value]
      exact read_mono positive (started r (by simp [running]))

theorem read_resume (c : Clock K) (t : ℤ) : (c.resume t).read t = c.read t := by
  unfold read resume
  cases c.start with
  | none => simp
  | some r => rfl

/-- A lower rate does not set a running clock back. -/
theorem read_setRate_of_le {c : Clock K} {rate : K} (positive : 0 < rate) (le : rate ≤ c.rate)
    {t : ℤ} (started : c.StartedBy t) : c.read t ≤ (c.setRate rate).read t := by
  unfold read setRate
  cases running : c.start with
  | none => exact le_refl _
  | some r =>
      have elapsed : (0 : K) ≤ ((t - r : ℤ) : K) := by
        exact_mod_cast sub_nonneg.mpr (started r (by simp [running]))
      have scaled := div_le_div_of_nonneg_left elapsed positive le
      exact truncate_mono (add_le_add_right scaled _)

end Clock

/-! ## Accounting -/

/-- A stretch of host time in which the clock ran at one rate. -/
structure Segment (K : Type*) where
  start : ℤ
  finish : ℤ
  rate : K

namespace Segment

/-- The dilated length. -/
def length (s : Segment K) : K := ((s.finish - s.start : ℤ) : K) / s.rate

/-- The whole units in the dilated length. -/
def ticks (s : Segment K) : ℤ := ⌊s.length⌋

end Segment

/-- The segments completed so far, latest first, and the one in progress. -/
structure Ledger (K : Type*) where
  completed : List (Segment K)
  running : Option ℤ
  rate : K

namespace Ledger

/-- The segment in progress, as far as a host time. -/
def current (l : Ledger K) (t : ℤ) : List (Segment K) :=
  (l.running.map fun r => ⟨r, t, l.rate⟩).toList

/-- The whole units of all segments up to a host time. -/
def total (l : Ledger K) (t : ℤ) : ℤ := ((l.current t ++ l.completed).map Segment.ticks).sum

/-- The dilated length of all segments up to a host time. -/
def exact (l : Ledger K) (t : ℤ) : K := ((l.current t ++ l.completed).map Segment.length).sum

/-- Book the end of the segment in progress. -/
def stop (l : Ledger K) (t : ℤ) : Ledger K :=
  { l with completed := l.current t ++ l.completed, running := none }

/-- Book the start of a segment, unless one is in progress. -/
def resume (l : Ledger K) (t : ℤ) : Ledger K := { l with running := some (l.running.getD t) }

/-- Book another rate. -/
def setRate (l : Ledger K) (rate : K) : Ledger K := { l with rate := rate }

theorem total_eq (l : Ledger K) (t : ℤ) :
    l.total t = (l.completed.map Segment.ticks).sum
      + l.running.elim 0 fun r => ⌊((t - r : ℤ) : K) / l.rate⌋ := by
  unfold total current
  cases l.running with
  | none => simp
  | some r => exact add_comm _ _

variable [IsStrictOrderedRing K]

/-- **Every segment loses less than one unit.** -/
theorem exact_sub_total (l : Ledger K) (t : ℤ) :
    0 ≤ l.exact t - l.total t ∧
      l.exact t - l.total t ≤ ((l.current t ++ l.completed).length : K) ∧
      (l.current t ++ l.completed ≠ [] →
        l.exact t - l.total t < ((l.current t ++ l.completed).length : K)) := by
  unfold exact total
  generalize l.current t ++ l.completed = segments
  induction segments with
  | nil => simp
  | cons s rest ih =>
      obtain ⟨lower, upper, -⟩ := ih
      have floor_le : ((s.ticks : ℤ) : K) ≤ s.length := Int.floor_le _
      have lt_floor : s.length < s.ticks + 1 := Int.lt_floor_add_one _
      simp only [List.map_cons, List.sum_cons, List.length_cons, Int.cast_add, Nat.cast_add,
        Nat.cast_one]
      refine ⟨by linarith, by linarith, fun _ => by linarith⟩

end Ledger

/-- The clock shows the initial value and what the ledger books. -/
structure Agrees (initial : ℤ) (c : Clock K) (l : Ledger K) (t : ℤ) : Prop where
  start_eq : c.start = l.running
  rate_eq : c.rate = l.rate
  rate_pos : 0 < c.rate
  base_eq : c.base = initial + (l.completed.map Segment.ticks).sum
  base_nonneg : 0 ≤ c.base
  started : c.StartedBy t

namespace Agrees

variable [IsStrictOrderedRing K] {initial : ℤ} {c : Clock K} {l : Ledger K} {t : ℤ}

/-- **The value shown is the initial value plus the whole units of every segment.** -/
theorem read_eq (agrees : Agrees initial c l t) {s : ℤ} (le : t ≤ s) :
    c.read s = initial + l.total s := by
  obtain ⟨start_eq, rate_eq, rate_pos, base_eq, base_nonneg, started⟩ := agrees
  unfold Clock.read Ledger.total Ledger.current
  rw [← start_eq, ← rate_eq]
  cases running : c.start with
  | none => simpa using base_eq
  | some r =>
      have elapsed : (0 : K) ≤ ((s - r : ℤ) : K) := by
        exact_mod_cast sub_nonneg.mpr ((started r (by simp [running])).trans le)
      have progress : 0 ≤ ((s - r : ℤ) : K) / c.rate := div_nonneg elapsed rate_pos.le
      simp only [truncate_intCast_add base_nonneg progress, Option.map_some, Option.toList_some,
        List.singleton_append, List.map_cons, List.sum_cons, Segment.ticks, Segment.length]
      linarith

theorem read_nonneg (agrees : Agrees initial c l t) {s : ℤ} (le : t ≤ s) : 0 ≤ c.read s :=
  agrees.base_nonneg.trans (Clock.base_le_read agrees.rate_pos (agrees.started.mono le))

omit [IsStrictOrderedRing K] in
theorem advance (agrees : Agrees initial c l t) {s : ℤ} (le : t ≤ s) : Agrees initial c l s :=
  { agrees with started := agrees.started.mono le }

theorem stop (agrees : Agrees initial c l t) : Agrees initial (c.stop t) (l.stop t) t where
  start_eq := rfl
  rate_eq := agrees.rate_eq
  rate_pos := agrees.rate_pos
  base_eq := agrees.read_eq (le_refl t)
  base_nonneg := agrees.read_nonneg (le_refl t)
  started := by simp [Clock.StartedBy, Clock.stop]

omit [IsStrictOrderedRing K] in
theorem resume (agrees : Agrees initial c l t) :
    Agrees initial (c.resume t) (l.resume t) t where
  start_eq := by simp [Clock.resume, Ledger.resume, agrees.start_eq]
  rate_eq := agrees.rate_eq
  rate_pos := agrees.rate_pos
  base_eq := agrees.base_eq
  base_nonneg := agrees.base_nonneg
  started := agrees.started.resume

omit [IsStrictOrderedRing K] in
theorem setRate (agrees : Agrees initial c l t) (stopped : c.start = none) {rate : K}
    (positive : 0 < rate) : Agrees initial (c.setRate rate) (l.setRate rate) t where
  start_eq := agrees.start_eq
  rate_eq := rfl
  rate_pos := positive
  base_eq := agrees.base_eq
  base_nonneg := agrees.base_nonneg
  started := by simp [Clock.StartedBy, Clock.setRate, stopped]

end Agrees

/-! ## Behind the host -/

/-- Since a host time at which it showed a value, the clock has advanced by no more than
one unit in `least` units of the host, as far as its last change of running. -/
structure Slower (least : K) (shown since : ℤ) (c : Clock K) (t : ℤ) : Prop where
  least_pos : 0 < least
  least_le : least ≤ c.rate
  /-- Below zero truncation would set the clock forth. -/
  base_nonneg : 0 ≤ c.base
  started : c.StartedBy t
  booked : least * ((c.base - shown : ℤ) : K) ≤ ((c.start.getD t - since : ℤ) : K)

namespace Slower

variable [IsStrictOrderedRing K] {least : K} {shown since : ℤ} {c : Clock K} {t : ℤ}

omit [FloorRing K] [IsStrictOrderedRing K] in
theorem rate_pos (slower : Slower least shown since c t) : 0 < c.rate :=
  slower.least_pos.trans_le slower.least_le

omit [FloorRing K] [IsStrictOrderedRing K] in
theorem refl (positive : 0 < least) {c : Clock K} (least_le : least ≤ c.rate)
    (base_nonneg : 0 ≤ c.base) (stopped : c.start = none) (t : ℤ) :
    Slower least c.base t c t where
  least_pos := positive
  least_le := least_le
  base_nonneg := base_nonneg
  started := by simp [Clock.StartedBy, stopped]
  booked := by simp [stopped]

theorem advance (slower : Slower least shown since c t) {s : ℤ} (le : t ≤ s) :
    Slower least shown since c s where
  least_pos := slower.least_pos
  least_le := slower.least_le
  base_nonneg := slower.base_nonneg
  started := slower.started.mono le
  booked := by
    refine slower.booked.trans ?_
    cases running : c.start with
    | none => exact_mod_cast sub_le_sub_right le since
    | some r => exact le_rfl

theorem read_nonneg (slower : Slower least shown since c t) : 0 ≤ c.read t :=
  slower.base_nonneg.trans (Clock.base_le_read slower.rate_pos slower.started)

/-- **The clock keeps behind its host.** -/
theorem read_le (slower : Slower least shown since c t) :
    least * ((c.read t - shown : ℤ) : K) ≤ ((t - since : ℤ) : K) := by
  have booked := slower.booked
  unfold Clock.read
  cases running : c.start with
  | none => simpa [running] using booked
  | some r =>
      have elapsed : (0 : K) ≤ ((t - r : ℤ) : K) := by
        exact_mod_cast sub_nonneg.mpr (slower.started r (by simp [running]))
      have progress : 0 ≤ ((t - r : ℤ) : K) / c.rate := div_nonneg elapsed slower.rate_pos.le
      have floor_le : (⌊((t - r : ℤ) : K) / c.rate⌋ : K) ≤ ((t - r : ℤ) : K) / c.rate :=
        Int.floor_le _
      have dilated : least * (((t - r : ℤ) : K) / c.rate) ≤ ((t - r : ℤ) : K) := by
        rw [mul_div_left_comm]
        exact mul_le_of_le_one_right elapsed ((div_le_one slower.rate_pos).mpr slower.least_le)
      simp only [running, Option.getD_some] at booked
      simp only [truncate_intCast_add slower.base_nonneg progress]
      calc least * ((c.base + ⌊((t - r : ℤ) : K) / c.rate⌋ - shown : ℤ) : K)
          = least * ((c.base - shown : ℤ) : K)
              + least * (⌊((t - r : ℤ) : K) / c.rate⌋ : K) := by push_cast; ring
        _ ≤ ((r - since : ℤ) : K) + ((t - r : ℤ) : K) :=
            add_le_add booked
              ((mul_le_mul_of_nonneg_left floor_le slower.least_pos.le).trans dilated)
        _ = ((t - since : ℤ) : K) := by push_cast; ring

theorem stop (slower : Slower least shown since c t) :
    Slower least shown since (c.stop t) t where
  least_pos := slower.least_pos
  least_le := slower.least_le
  base_nonneg := slower.read_nonneg
  started := by simp [Clock.StartedBy, Clock.stop]
  booked := slower.read_le

omit [FloorRing K] [IsStrictOrderedRing K] in
theorem resume (slower : Slower least shown since c t) :
    Slower least shown since (c.resume t) t where
  least_pos := slower.least_pos
  least_le := slower.least_le
  base_nonneg := slower.base_nonneg
  started := slower.started.resume
  booked := slower.booked

omit [FloorRing K] [IsStrictOrderedRing K] in
/-- Another rate, whether the clock runs or not. -/
theorem setRate (slower : Slower least shown since c t) {rate : K} (least_le : least ≤ rate) :
    Slower least shown since (c.setRate rate) t where
  least_pos := slower.least_pos
  least_le := least_le
  base_nonneg := slower.base_nonneg
  started := slower.started
  booked := slower.booked

end Slower

end DilatedClock
