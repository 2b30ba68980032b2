import VirtualAgent.ClockAccounting
import VirtualAgent.Library.MixedUnits
import VirtualAgent.RoundedClock
import Mathlib.Data.Rat.Floor

/-!
# The time of day of the guests

`vm_gettimeofday` gives the virtual time, in nanoseconds, as seconds and microseconds. It
divides twice, and C rounds a quotient toward zero, so below zero the microseconds would be
negative and the two numbers no time of day.

As long as `int64_t` holds what is computed (`CallFits`, `ClockState.ReadFits`) the virtual
clock never comes there: it starts at a value that is not negative and never goes back,
with the roundings of the processor too (`NeverBehind.run`, from what each call keeps). So the
result is normalised and counts the whole microseconds of the virtual time, and later
results are not earlier (`vmGettimeofday_spec`). Beyond that the conversion to `int64_t`
gives the least integer, and the microseconds are negative (`vmGettimeofday_overflow`).
-/

set_option autoImplicit false

namespace VirtualAgent

open ExactFloat Transition TimersState MixedUnits

/-- `struct timeval`. -/
structure Timeval where
  tvSec : ℤ
  tvUsec : ℤ
  deriving DecidableEq

/-- The seconds, and among equal seconds the microseconds. -/
def Timeval.key (tv : Timeval) : ℤ ×ₗ ℤ := toLex (tv.tvSec, tv.tvUsec)

/-- The time of day is normalised and counts the whole microseconds of a virtual time. -/
structure Timeval.Counts (tv : Timeval) (vmTime : ℤ) : Prop where
  tvUsec_nonneg : 0 ≤ tv.tvUsec
  tvUsec_lt : tv.tvUsec < 1000000
  total : tv.tvSec * 1000000 + tv.tvUsec = ⌊(vmTime : ℚ) / 1000⌋

/-- `vm_gettimeofday`, which does not look at the time zone and always returns zero. -/
def TimersState.vmGettimeofday (ts : TimersState) (tdf : LongDouble) (host : HostReading)
    (a : Arithmetic := .exact) : Timeval :=
  let vmTime := ts.cpuGetClock tdf host a
  let tvSec := vmTime.tdiv 1000000000
  { tvSec, tvUsec := (vmTime - tvSec * 1000000000).tdiv 1000 }

/-- **From zero on the time of day counts the microseconds**, in seconds and the rest. -/
theorem key_vmGettimeofday {ts : TimersState} {tdf : LongDouble} {host : HostReading}
    {a : Arithmetic} (nonneg : 0 ≤ ts.cpuGetClock tdf host a) :
    (ts.vmGettimeofday tdf host a).key = inUnits 1000000 (ts.cpuGetClock tdf host a / 1000) := by
  have rest : 0 ≤ ts.cpuGetClock tdf host a -
      ts.cpuGetClock tdf host a / 1000000000 * 1000000000 := by
    have le := Int.ediv_mul_le (ts.cpuGetClock tdf host a) (b := 1000000000) (by decide)
    linarith
  rw [inUnits_div (by decide), Timeval.key, vmGettimeofday]
  dsimp only
  rw [Int.tdiv_eq_ediv_of_nonneg nonneg, Int.tdiv_eq_ediv_of_nonneg rest]
  rfl

theorem counts_vmGettimeofday {ts : TimersState} {tdf : LongDouble} {host : HostReading}
    {a : Arithmetic} (nonneg : 0 ≤ ts.cpuGetClock tdf host a) :
    (ts.vmGettimeofday tdf host a).Counts (ts.cpuGetClock tdf host a) := by
  have microseconds : ⌊(ts.cpuGetClock tdf host a : ℚ) / 1000⌋ = ts.cpuGetClock tdf host a / 1000 :=
    Rat.floor_intCast_div_natCast _ 1000
  obtain ⟨tvSec_eq, tvUsec_eq⟩ := Prod.ext_iff.mp (toLex_inj.mp (key_vmGettimeofday nonneg))
  dsimp only at tvSec_eq tvUsec_eq
  have rest := rest_bounds (by decide : (0 : ℤ) < 1000000) (ts.cpuGetClock tdf host a / 1000)
  refine ⟨?_, ?_, ?_⟩
  · rw [tvUsec_eq]
    exact rest.1
  · rw [tvUsec_eq]
    exact rest.2
  · rw [tvSec_eq, tvUsec_eq, microseconds]
    exact Int.ediv_mul_add_emod _ _

/-! ## What `int64_t` holds -/

/-- A reading at a host time can be computed: the time since the restart, and the frozen
value with its quotient rounded up. -/
def ClockState.ReadFits (s : ClockState) (host : HostReading) : Prop :=
  s.timers.cpuTicksEnabled = true →
    host.clock - s.timers.cpuClockRestart < 2 ^ 63 ∧
      s.timers.cpuClockOffset + s.timers.cpuClockRestart +
        ⌈quotient s.timers.cpuClockRestart host.clock s.tdf.toRat⌉ < 2 ^ 63

/-- What a call computes: the offset of a clock that is started, and the value of one that is
stopped. -/
def CallFits (s : ClockState) : ClockCall → Prop
  | .enable host => s.timers.cpuTicksEnabled = false →
      |host.clock| ≤ 2 ^ 63 ∧ |s.timers.cpuClockOffset - host.clock| ≤ 2 ^ 63
  | .disable host => s.ReadFits host
  | _ => True

instance (s : ClockState) (host : HostReading) : Decidable (s.ReadFits host) :=
  inferInstanceAs (Decidable (_ = _ → _ < _ ∧ _ < _))

instance (s : ClockState) : DecidablePred (CallFits s)
  | .enable _ => inferInstanceAs (Decidable (_ = _ → _ ≤ _ ∧ _ ≤ _))
  | .disable host => inferInstanceAs (Decidable (s.ReadFits host))
  | .setTdf _ | .read _ => inferInstanceAs (Decidable True)

/-! ## Runs -/

/-- The virtual time that is read. -/
def ClockState.vmTime (s : ClockState) (host : HostReading) : ℤ :=
  s.timers.cpuGetClock s.tdf host .machine

/-- The clock is stopped at a value from zero on, or was started at one in the past, and runs at
a positive factor. -/
structure ClockState.Sound (s : ClockState) : Prop where
  exists_tdf : ∃ tdf : ℚ, s.tdf = .ofRat tdf ∧ 0 < tdf
  stopped : s.timers.cpuTicksEnabled = false → 0 ≤ s.timers.cpuClockOffset
  running : s.timers.cpuTicksEnabled = true →
    0 ≤ s.timers.cpuClockOffset + s.timers.cpuClockRestart ∧
      s.timers.cpuClockRestart ≤ s.now ∧ |s.timers.cpuClockRestart| ≤ 2 ^ 63 ∧
      |s.timers.cpuClockOffset| ≤ 2 ^ 63

/-- What the clock shows from now on is not less than a value. -/
structure NeverBehind (value : ℤ) (s : ClockState) : Prop where
  sound : s.Sound
  le_vmTime : ∀ host : HostReading, s.now ≤ host.clock → s.ReadFits host → value ≤ s.vmTime host

section Call

variable {value : ℤ} {s : ClockState} {host : HostReading}

theorem ClockState.vmTime_of_disabled (disabled : s.timers.cpuTicksEnabled = false) :
    s.vmTime host = s.timers.cpuClockOffset := by
  simp [ClockState.vmTime, cpuGetClock, disabled]

theorem ClockState.readFits_of_disabled (disabled : s.timers.cpuTicksEnabled = false) :
    s.ReadFits host := by
  intro enabled
  rw [disabled] at enabled
  cases enabled

namespace ClockState.Sound

/-- Time passes. -/
theorem advance (sound : s.Sound) {now : ℤ} (later : s.now ≤ now) : { s with now }.Sound := by
  refine ⟨sound.exists_tdf, sound.stopped, fun enabled => ?_⟩
  obtain ⟨base, started, bounds⟩ := sound.running enabled
  exact ⟨base, started.trans later, bounds⟩

/-- What a running clock computes for a reading. -/
theorem vmTime_of_enabled (sound : s.Sound) (enabled : s.timers.cpuTicksEnabled = true)
    (later : s.now ≤ host.clock) (readFits : s.ReadFits host) :
    0 < s.tdf.toRat ∧
      Fits s.timers.cpuClockRestart host.clock s.timers.cpuClockOffset s.tdf.toRat ∧
      s.vmTime host = dilated s.timers.cpuClockRestart host.clock s.timers.cpuClockOffset
        (.ofRat s.tdf.toRat) .machine := by
  obtain ⟨tdf, tdf_eq, positive⟩ := sound.exists_tdf
  obtain ⟨base, started, restart_le, offset_le⟩ := sound.running enabled
  obtain ⟨elapsed, result⟩ := readFits enabled
  have value_eq : s.tdf.toRat = tdf := by
    rw [tdf_eq]
    exact (LongDouble.hasValue_ofRat tdf).2
  refine ⟨value_eq ▸ positive, ⟨started.trans later, base, restart_le, offset_le, elapsed, result⟩,
    ?_⟩
  rw [value_eq, ← tdf_eq, ClockState.vmTime, cpuGetClock, enabled]
  rfl

/-- **A reading is not less than the value the clock was started from.** -/
theorem base_le_vmTime (sound : s.Sound) (enabled : s.timers.cpuTicksEnabled = true)
    (later : s.now ≤ host.clock) (readFits : s.ReadFits host) :
    s.timers.cpuClockOffset + s.timers.cpuClockRestart ≤ s.vmTime host := by
  obtain ⟨positive, fits, value_eq⟩ := sound.vmTime_of_enabled enabled later readFits
  have low := (fits.dilated_bounds positive).1
  have whole := Int.floor_nonneg.mpr (fits.quotient_nonneg positive)
  rw [value_eq]
  omega

/-- **What is read is not negative.** -/
theorem vmTime_nonneg (sound : s.Sound) (later : s.now ≤ host.clock)
    (readFits : s.ReadFits host) : 0 ≤ s.vmTime host := by
  cases enabled : s.timers.cpuTicksEnabled with
  | false =>
      rw [ClockState.vmTime_of_disabled enabled]
      exact sound.stopped enabled
  | true => exact (sound.running enabled).1.trans (sound.base_le_vmTime enabled later readFits)

end ClockState.Sound

theorem neverBehind_initial (created : HostReading) (nonneg : 0 ≤ created.clock) (now : ℤ) :
    NeverBehind created.clock (ClockState.initial created now) where
  sound := ⟨⟨1, rfl, one_pos⟩, fun _ => nonneg, fun enabled => absurd enabled Bool.false_ne_true⟩
  le_vmTime _ _ _ := le_refl _

namespace NeverBehind

/-- Time passes without setting the clock back. -/
theorem advance (kept : NeverBehind value s) {now : ℤ} (later : s.now ≤ now) :
    NeverBehind value { s with now } :=
  ⟨kept.sound.advance later, fun host afterwards => kept.le_vmTime host (later.trans afterwards)⟩

/-- **What is read later is not less.** -/
theorem read (kept : NeverBehind value s) (later : s.now ≤ host.clock)
    (readFits : s.ReadFits host) : NeverBehind (s.vmTime host) { s with now := host.clock } := by
  refine ⟨kept.sound.advance later, fun after afterwards afterFits => ?_⟩
  change s.vmTime host ≤ s.vmTime after
  cases enabled : s.timers.cpuTicksEnabled with
  | false => rw [ClockState.vmTime_of_disabled enabled, ClockState.vmTime_of_disabled enabled]
  | true =>
      obtain ⟨positive, fits, value_eq⟩ :=
        kept.sound.vmTime_of_enabled enabled later readFits
      obtain ⟨-, fitsAfter, value_eq'⟩ :=
        kept.sound.vmTime_of_enabled enabled (later.trans afterwards) afterFits
      rw [value_eq, value_eq']
      exact fitsAfter.dilated_mono fits positive afterwards

/-- A clock that is started goes on from the value it was stopped at. -/
theorem enable (kept : NeverBehind value s) (later : s.now ≤ host.clock)
    (fits : CallFits s (.enable host)) :
    NeverBehind value { s with timers := s.timers.cpuEnableTicks host, now := host.clock } := by
  cases enabled : s.timers.cpuTicksEnabled with
  | true =>
      rw [cpuEnableTicks_of_enabled enabled]
      exact kept.advance later
  | false =>
      obtain ⟨clock_le, offset_le⟩ := fits enabled
      have shown := kept.le_vmTime host later (ClockState.readFits_of_disabled enabled)
      rw [ClockState.vmTime_of_disabled enabled] at shown
      rw [cpuEnableTicks_of_disabled enabled]
      have sound : ClockState.Sound { s with
          timers := { s.timers with
            cpuTicksOffset := s.timers.cpuTicksOffset - host.ticks
            cpuTicksRestart := host.ticks
            cpuClockOffset := s.timers.cpuClockOffset - host.clock
            cpuClockRestart := host.clock
            cpuTicksEnabled := true }
          now := host.clock } := by
        refine ⟨kept.sound.exists_tdf, fun disabled => absurd disabled.symm Bool.false_ne_true,
          fun _ => ?_⟩
        have base := kept.sound.stopped enabled
        exact ⟨by simpa using base, le_rfl, clock_le, offset_le⟩
      refine ⟨sound, fun after afterwards readFits => ?_⟩
      have started := sound.base_le_vmTime rfl afterwards readFits
      rw [sub_add_cancel] at started
      exact shown.trans started

/-- A clock that is stopped keeps the value it shows. -/
theorem disable (kept : NeverBehind value s) (later : s.now ≤ host.clock)
    (readFits : s.ReadFits host) :
    NeverBehind value
      { s with timers := s.timers.cpuDisableTicks s.tdf host .machine, now := host.clock } := by
  cases enabled : s.timers.cpuTicksEnabled with
  | false =>
      rw [cpuDisableTicks_of_disabled enabled]
      exact kept.advance later
  | true =>
      have frozen : (s.timers.cpuDisableTicks s.tdf host .machine).cpuClockOffset =
          s.vmTime host := by
        by_cases back : s.timers.cpuTicksPrev > host.ticks <;>
          simp [cpuDisableTicks, cpuGetTicks, cpuGetClock, ClockState.vmTime, enabled, back]
      have stopped := cpuDisableTicks_enabled s.timers s.tdf host .machine
      refine ⟨⟨kept.sound.exists_tdf, fun _ => ?_, fun running => ?_⟩, fun after _ _ => ?_⟩
      · rw [frozen]
        exact kept.sound.vmTime_nonneg later readFits
      · rw [stopped] at running
        cases running
      · rw [ClockState.vmTime_of_disabled stopped, frozen]
        exact kept.le_vmTime host later readFits

/-- **No call sets the clock back.** The factor is written only while the clock is stopped. -/
theorem step {next : ClockState} {call : ClockCall} (kept : NeverBehind value s)
    (fits : CallFits s call) (stepped : clockStepIn .machine s call = some next) :
    NeverBehind value next := by
  cases call with
  | enable host =>
      obtain ⟨later, rfl⟩ := Option.ite_some_none_eq_some.mp stepped
      exact kept.enable later fits
  | disable host =>
      obtain ⟨later, rfl⟩ := Option.ite_some_none_eq_some.mp stepped
      exact kept.disable later fits
  | setTdf tdf =>
      obtain ⟨⟨disabled, positive⟩, rfl⟩ := Option.ite_some_none_eq_some.mp stepped
      refine ⟨⟨⟨tdf, rfl, positive⟩, kept.sound.stopped, kept.sound.running⟩,
        fun host later _ => ?_⟩
      have shown := kept.le_vmTime host later (ClockState.readFits_of_disabled disabled)
      rw [ClockState.vmTime_of_disabled disabled] at shown
      rwa [ClockState.vmTime_of_disabled (s := { s with tdf := .ofRat tdf }) disabled]
  | read host =>
      obtain ⟨later, rfl⟩ := Option.ite_some_none_eq_some.mp stepped
      exact kept.advance later

/-- **No history sets the clock back** while `int64_t` holds what its calls compute. -/
theorem run {t : ClockState} {calls : List ClockCall} (kept : NeverBehind value s)
    (fits : Meets (clockStepIn .machine) CallFits s calls)
    (ran : Transition.run (clockStepIn .machine) s calls = some t) : NeverBehind value t :=
  run_invariant_of_meets (NeverBehind value)
    (fun _ _ _ kept fits stepped => kept.step fits stepped) kept fits ran

end NeverBehind

end Call

/-- **The time of day is normalised and never goes back.** At every point of a history that
starts at a virtual time from zero on and in which `int64_t` holds what is computed, the
result counts the whole microseconds of the virtual time, and no result of a later call
is before it. -/
theorem vmGettimeofday_spec (created : HostReading) (nonneg : 0 ≤ created.clock) (now : ℤ)
    (calls : List ClockCall) (s : ClockState)
    (fits : Meets (clockStepIn .machine) CallFits (ClockState.initial created now) calls)
    (ran : run (clockStepIn .machine) (ClockState.initial created now) calls = some s)
    (host : HostReading) (later : s.now ≤ host.clock) (readFits : s.ReadFits host) :
    (s.timers.vmGettimeofday s.tdf host .machine).Counts
        (s.timers.cpuGetClock s.tdf host .machine) ∧
      ∀ (rest : List ClockCall) (t : ClockState),
        Meets (clockStepIn .machine) CallFits { s with now := host.clock } rest →
        run (clockStepIn .machine) { s with now := host.clock } rest = some t →
        ∀ after : HostReading, t.now ≤ after.clock → t.ReadFits after →
          (s.timers.vmGettimeofday s.tdf host .machine).key ≤
            (t.timers.vmGettimeofday t.tdf after .machine).key := by
  have kept := (neverBehind_initial created nonneg now).run fits ran
  have read_nonneg : 0 ≤ s.timers.cpuGetClock s.tdf host .machine :=
    kept.sound.vmTime_nonneg later readFits
  refine ⟨counts_vmGettimeofday read_nonneg, ?_⟩
  intro rest t fitsRest ranRest after afterwards afterFits
  have read_le : s.timers.cpuGetClock s.tdf host .machine ≤
      t.timers.cpuGetClock t.tdf after .machine :=
    ((kept.read later readFits).run fitsRest ranRest).le_vmTime after afterwards afterFits
  rw [key_vmGettimeofday read_nonneg, key_vmGettimeofday (read_nonneg.trans read_le),
    inUnits_le_inUnits (by decide)]
  exact Int.ediv_le_ediv (by decide) read_le

/-- A read just before a full second, and one after it, at a factor that has been raised. -/
theorem vmGettimeofday_spec_fullSecond :
    (Timeval.mk 2 999999).Counts 2999999999 ∧
      (Timeval.mk 2 999999).key ≤ (Timeval.mk 3 0).key := by
  let s : ClockState := ⟨⟨0, 0, 0, 1999999990, 10, true⟩, .ofRat 1, 10⟩
  let t : ClockState := ⟨⟨1, 0, 1, 1999999990, 1000000009, true⟩, .ofRat 4, 1000000009⟩
  have ran : run (clockStepIn .machine) (ClockState.initial ⟨2000000000, 0⟩ 7)
      [.enable ⟨10, 0⟩] = some s := by
    decide +kernel
  have ranRest : run (clockStepIn .machine) { s with now := 1000000009 }
      [.disable ⟨1000000009, 1⟩, .setTdf 4, .enable ⟨1000000009, 1⟩] = some t := by decide +kernel
  obtain ⟨counts, notBack⟩ := vmGettimeofday_spec ⟨2000000000, 0⟩ (by decide) 7 _ _
    (by decide +kernel) ran ⟨1000000009, 0⟩ (by decide) (by decide +kernel)
  have before : s.timers.vmGettimeofday s.tdf ⟨1000000009, 0⟩ .machine = ⟨2, 999999⟩ := by
    decide +kernel
  have shown : s.timers.cpuGetClock s.tdf ⟨1000000009, 0⟩ .machine = 2999999999 := by
    decide +kernel
  have after : t.timers.vmGettimeofday t.tdf ⟨1000000013, 1⟩ .machine = ⟨3, 0⟩ := by
    decide +kernel
  rw [before, shown] at counts
  have le := notBack _ _ (by decide +kernel) ranRest ⟨1000000013, 1⟩ (by decide) (by decide +kernel)
  rw [before, after] at le
  exact ⟨counts, le⟩

/-- **Out of the range of `int64_t` the time of day is negative.** At a factor of `1 / 2 ^ 30`
eight seconds of the host are more than `2 ^ 63` nanoseconds. -/
theorem vmGettimeofday_overflow :
    ∃ s, run (clockStepIn .machine) (ClockState.initial ⟨1700000000000000000, 0⟩ 0)
        [.setTdf (1 / 2 ^ 30), .enable ⟨0, 0⟩] = some s ∧
      s.timers.vmGettimeofday s.tdf ⟨0, 0⟩ .machine = ⟨1700000000, 0⟩ ∧
      s.timers.vmGettimeofday s.tdf ⟨8000000000, 0⟩ .machine = ⟨-9223372036, -854775⟩ := by
  apply exists_of_any
  decide +kernel

end VirtualAgent
