import VirtualAgent.Library.DilatedClock
import VirtualAgent.Library.FloatFormat

/-!
# The virtual clock in shared memory

`shared/qemu-timer.c` keeps a virtual clock and a virtual tick counter in shared
memory, where the agent and every guest read them. Both are scaled by the time
dilation factor next to them. The state has one offset and one restart reading
for each: while the ticks are disabled the offset is the frozen value itself,
and while they are enabled it is the frozen value less the restart reading.

The functions are those of the source on one state, with the readings of the
host's monotonic clock and cycle counter as an argument. What rounds the
`long double` results and converts them to `int64_t` is an argument as well, the
exact arithmetic where none is given. The differences of `int64_t` values, for which
C has no result when they overflow, are those of the integers.

`toClock` reads a state as a dilated clock, and the functions are the operations
of that clock on it (`cpuGetClock_eq`, `toClock_cpuEnableTicks`,
`toClock_cpuDisableTicks`).
-/

set_option autoImplicit false

namespace VirtualAgent

open ExactFloat

/-- A reading of the host: `get_clock()` and `cpu_get_real_ticks()`. -/
structure HostReading where
  clock : ℤ
  ticks : ℤ
  deriving DecidableEq

/-- `struct TimersState`, without the two log fields and the padding, which only
`timers_state_create` writes and nothing reads. -/
structure TimersState where
  cpuTicksPrev : ℤ
  cpuTicksOffset : ℤ
  cpuTicksRestart : ℤ
  cpuClockOffset : ℤ
  cpuClockRestart : ℤ
  cpuTicksEnabled : Bool
  deriving DecidableEq

namespace TimersState

/-- `timers_state_create`, on fresh shared memory, which is zero. -/
def create (host : HostReading) : TimersState where
  cpuTicksPrev := host.ticks
  cpuTicksOffset := host.ticks
  cpuTicksRestart := 0
  cpuClockOffset := host.clock
  cpuClockRestart := host.clock
  cpuTicksEnabled := false

/-- `restart + (now - restart) / *tdf + offset`, converted to `int64_t`. -/
def dilated (restart now offset : ℤ) (tdf : LongDouble) (a : Arithmetic := .exact) : ℤ :=
  let quotient := a.extended (LongDouble.ofInt (now - restart) / tdf)
  a.toInt64 (a.extended (a.extended (LongDouble.ofInt restart + quotient)
    + LongDouble.ofInt offset))

/-- `cpu_get_ticks`, and `__cpu_get_ticks`, the copy of it in `cpu_disable_ticks`.
On a state nobody else writes, each test of the flag gives the same answer. -/
def cpuGetTicks (ts : TimersState) (tdf : LongDouble) (host : HostReading)
    (a : Arithmetic := .exact) : ℤ × TimersState :=
  if !ts.cpuTicksEnabled then (ts.cpuTicksOffset, ts)
  else
    -- the counter may step back when the host is suspended
    let ts := if ts.cpuTicksPrev > host.ticks then
        { ts with cpuTicksOffset := a.toInt64 (a.extended (LongDouble.ofInt ts.cpuTicksOffset
            + a.extended (LongDouble.ofInt (ts.cpuTicksPrev - host.ticks) / tdf))) }
      else ts
    let ts := { ts with cpuTicksPrev := host.ticks }
    (dilated ts.cpuTicksRestart host.ticks ts.cpuTicksOffset tdf a, ts)

/-- `cpu_get_clock`, and `__cpu_get_clock`, the copy of it in `cpu_disable_ticks`. -/
def cpuGetClock (ts : TimersState) (tdf : LongDouble) (host : HostReading)
    (a : Arithmetic := .exact) : ℤ :=
  if !ts.cpuTicksEnabled then ts.cpuClockOffset
  else dilated ts.cpuClockRestart host.clock ts.cpuClockOffset tdf a

/-- `cpu_enable_ticks`. -/
def cpuEnableTicks (ts : TimersState) (host : HostReading) : TimersState :=
  if !ts.cpuTicksEnabled then
    { ts with
      cpuTicksOffset := ts.cpuTicksOffset - host.ticks
      cpuTicksRestart := host.ticks
      cpuClockOffset := ts.cpuClockOffset - host.clock
      cpuClockRestart := host.clock
      cpuTicksEnabled := true }
  else ts

/-- `cpu_disable_ticks`. -/
def cpuDisableTicks (ts : TimersState) (tdf : LongDouble) (host : HostReading)
    (a : Arithmetic := .exact) : TimersState :=
  if ts.cpuTicksEnabled then
    let (ticks, ts) := ts.cpuGetTicks tdf host a
    let ts := { ts with cpuTicksOffset := ticks }
    let ts := { ts with cpuClockOffset := ts.cpuGetClock tdf host a }
    { ts with cpuTicksEnabled := false }
  else ts

@[simp] theorem cpuEnableTicks_enabled (ts : TimersState) (host : HostReading) :
    (ts.cpuEnableTicks host).cpuTicksEnabled = true := by
  unfold cpuEnableTicks
  split <;> simp_all

@[simp] theorem cpuDisableTicks_enabled (ts : TimersState) (tdf : LongDouble)
    (host : HostReading) (a : Arithmetic) :
    (ts.cpuDisableTicks tdf host a).cpuTicksEnabled = false := by
  unfold cpuDisableTicks
  split <;> simp_all

/-- Enabling an enabled state does nothing. -/
theorem cpuEnableTicks_of_enabled {ts : TimersState} (enabled : ts.cpuTicksEnabled = true)
    (host : HostReading) : ts.cpuEnableTicks host = ts := by
  simp [cpuEnableTicks, enabled]

theorem cpuEnableTicks_of_disabled {ts : TimersState} (disabled : ts.cpuTicksEnabled = false)
    (host : HostReading) :
    ts.cpuEnableTicks host = { ts with
      cpuTicksOffset := ts.cpuTicksOffset - host.ticks
      cpuTicksRestart := host.ticks
      cpuClockOffset := ts.cpuClockOffset - host.clock
      cpuClockRestart := host.clock
      cpuTicksEnabled := true } := by
  simp [cpuEnableTicks, disabled]

/-- Disabling a disabled state does nothing. -/
theorem cpuDisableTicks_of_disabled {ts : TimersState} (disabled : ts.cpuTicksEnabled = false)
    (tdf : LongDouble) (host : HostReading) (a : Arithmetic) :
    ts.cpuDisableTicks tdf host a = ts := by
  simp [cpuDisableTicks, disabled]

theorem cpuGetTicks_of_disabled {ts : TimersState} (disabled : ts.cpuTicksEnabled = false)
    (tdf : LongDouble) (host : HostReading) (a : Arithmetic) :
    ts.cpuGetTicks tdf host a = (ts.cpuTicksOffset, ts) := by
  simp [cpuGetTicks, disabled]

/-! ## The state as a dilated clock -/

/-- The clock a state stands for, at a factor that is a rational number. The
value frozen last is the offset, plus the restart reading while it runs. -/
def toClock (ts : TimersState) (tdf : ℚ) : DilatedClock.Clock ℚ where
  base := if ts.cpuTicksEnabled then ts.cpuClockOffset + ts.cpuClockRestart else ts.cpuClockOffset
  start := if ts.cpuTicksEnabled then some ts.cpuClockRestart else none
  rate := tdf

theorem toClock_start_eq_none {ts : TimersState} {tdf : ℚ} :
    (ts.toClock tdf).start = none ↔ ts.cpuTicksEnabled = false := by
  simp [toClock]

/-- On a positive rational factor the formula truncates the rational value. -/
theorem dilated_ofRat (restart now offset : ℤ) {tdf : ℚ} (positive : 0 < tdf) :
    dilated restart now offset (.ofRat tdf) =
      Truncation.truncate (((offset + restart : ℤ) : ℚ) + ((now - restart : ℤ) : ℚ) / tdf) := by
  simp only [dilated, LongDouble.ofInt, Arithmetic.exact_extended, Arithmetic.exact_toInt64]
  rw [LongDouble.ofRat_div _ positive, LongDouble.ofRat_add, LongDouble.ofRat_add,
    LongDouble.toInt_ofRat]
  congr 1
  push_cast
  ring

variable (ts : TimersState) {tdf : ℚ} (host : HostReading)

/-- **`cpu_get_clock` reads the dilated clock.** -/
theorem cpuGetClock_eq (positive : 0 < tdf) :
    ts.cpuGetClock (.ofRat tdf) host = (ts.toClock tdf).read host.clock := by
  unfold cpuGetClock DilatedClock.Clock.read toClock
  cases ts.cpuTicksEnabled with
  | false => rfl
  | true => exact dilated_ofRat _ _ _ positive

/-- **`cpu_enable_ticks` resumes the dilated clock.** -/
theorem toClock_cpuEnableTicks :
    (ts.cpuEnableTicks host).toClock tdf = (ts.toClock tdf).resume host.clock := by
  unfold cpuEnableTicks toClock DilatedClock.Clock.resume
  cases enabled : ts.cpuTicksEnabled <;> simp [enabled]

/-- **`cpu_disable_ticks` stops the dilated clock.** -/
theorem toClock_cpuDisableTicks (positive : 0 < tdf) :
    (ts.cpuDisableTicks (.ofRat tdf) host).toClock tdf = (ts.toClock tdf).stop host.clock := by
  have value := ts.cpuGetClock_eq host positive
  unfold DilatedClock.Clock.stop
  rw [← value]
  unfold cpuDisableTicks toClock cpuGetTicks cpuGetClock
  cases enabled : ts.cpuTicksEnabled with
  | false => simp [enabled]
  | true =>
      -- the tick counter has its own fields, whichever way its reading goes
      by_cases back : ts.cpuTicksPrev > host.ticks <;> simp [enabled, back]

/-! ## The tick counter

Unlike the clock, the counter of the host may step back. A read then adds what the step
is worth to the offset, cut to an integer. -/

/-- What a step back to a reading is worth in virtual ticks. -/
def backStep (ts : TimersState) (tdf : ℚ) (host : HostReading) : ℚ :=
  ((ts.cpuTicksPrev - host.ticks : ℤ) : ℚ) / tdf

/-- What a read adds to the offset. The sum is truncated, so a sum below zero rounds the
step up. -/
def compensation (ts : TimersState) (tdf : ℚ) (host : HostReading) : ℤ :=
  if host.ticks < ts.cpuTicksPrev then
    if 0 ≤ (ts.cpuTicksOffset : ℚ) + ts.backStep tdf host then ⌊ts.backStep tdf host⌋
    else ⌈ts.backStep tdf host⌉
  else 0

/-- The virtual ticks at the last reading, before they are cut to an integer. -/
def exactTicks (ts : TimersState) (tdf : ℚ) : ℚ :=
  ((ts.cpuTicksOffset + ts.cpuTicksRestart : ℤ) : ℚ)
    + ((ts.cpuTicksPrev - ts.cpuTicksRestart : ℤ) : ℚ) / tdf

/-- The state after a read while the ticks are enabled. -/
def afterRead (ts : TimersState) (tdf : ℚ) (host : HostReading) : TimersState :=
  { ts with
    cpuTicksOffset := ts.cpuTicksOffset + ts.compensation tdf host
    cpuTicksPrev := host.ticks }

/-- **What `cpu_get_ticks` does while the ticks are enabled.** -/
theorem cpuGetTicks_of_enabled (enabled : ts.cpuTicksEnabled = true) (positive : 0 < tdf) :
    ts.cpuGetTicks (.ofRat tdf) host =
      (Truncation.truncate ((ts.afterRead tdf host).exactTicks tdf), ts.afterRead tdf host) := by
  have shifted : (LongDouble.ofInt ts.cpuTicksOffset
      + LongDouble.ofInt (ts.cpuTicksPrev - host.ticks) / .ofRat tdf).toInt =
        ts.cpuTicksOffset + if 0 ≤ (ts.cpuTicksOffset : ℚ) + ts.backStep tdf host
          then ⌊ts.backStep tdf host⌋ else ⌈ts.backStep tdf host⌉ := by
    unfold LongDouble.ofInt
    rw [LongDouble.ofRat_div _ positive, LongDouble.ofRat_add, LongDouble.toInt_ofRat]
    exact Truncation.truncate_intCast_add_eq _ _
  unfold cpuGetTicks afterRead exactTicks compensation
  simp only [enabled, Bool.not_true, Bool.false_eq_true, if_false, Arithmetic.exact_extended,
    Arithmetic.exact_toInt64, shifted]
  by_cases back : host.ticks < ts.cpuTicksPrev
  · simp only [if_pos back, dilated_ofRat _ _ _ positive]
  · simp only [if_neg back, dilated_ofRat _ _ _ positive, add_zero, enabled]

/-- A read moves the exact ticks by the step of the counter and the compensation. -/
theorem exactTicks_afterRead :
    (ts.afterRead tdf host).exactTicks tdf =
      ts.exactTicks tdf - ts.backStep tdf host + ts.compensation tdf host := by
  unfold exactTicks afterRead backStep
  push_cast
  ring

end TimersState

end VirtualAgent
