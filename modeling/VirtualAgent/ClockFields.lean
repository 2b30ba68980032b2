import VirtualAgent.Library.Transition
import VirtualAgent.QemuTimer
import Mathlib.Logic.Function.Basic

/-!
# The virtual clock, one field access at a time

Guests read the virtual clock with no lock, while the agent enables and disables it. Here
every read and every write of a field is a step of its own, in the order of the source,
and so is every reading of the host clock. One thread calls `cpu_enable_ticks` and
`cpu_disable_ticks`, and any number of threads call `cpu_get_clock`.

The fields of the tick counter are left out: `cpu_get_clock` does not read them, and no
access to them moves the clock. A call that nothing interrupts does what the function of
`QemuTimer` does (`enable_alone`, `disable_alone`, `read_alone`).
-/

set_option autoImplicit false

namespace VirtualAgent

open ExactFloat TimersState DilatedClock

/-- The fields of `struct TimersState` that `cpu_get_clock` reads. -/
structure ClockFields where
  enabled : Bool
  offset : ℤ
  restart : ℤ
  deriving DecidableEq

def TimersState.clockFields (ts : TimersState) : ClockFields :=
  ⟨ts.cpuTicksEnabled, ts.cpuClockOffset, ts.cpuClockRestart⟩

/-- `restart + (ti - restart) / *tdf + offset`, which loads the restart reading twice. -/
def computed (tdf : LongDouble) (ti restart again offset : ℤ) : ℤ :=
  (LongDouble.ofInt restart + LongDouble.ofInt (ti - again) / tdf
    + LongDouble.ofInt offset).toInt

theorem computed_same (tdf : LongDouble) (ti restart offset : ℤ) :
    computed tdf ti restart restart offset = dilated restart ti offset tdf := rfl

/-! ## The writer -/

/-- The next access of the thread that enables and disables the clock. -/
inductive WriterPc where
  | idle
  /-- `if (!timers_state->cpu_ticks_enabled)` in `cpu_enable_ticks`. -/
  | enableTest
  | enableGetClock
  /-- `timers_state->cpu_clock_offset -= real_clock`, its load and its store. -/
  | loadOffset (realClock : ℤ)
  | storeOffset (realClock offset : ℤ)
  | storeRestart (realClock : ℤ)
  | setEnabled
  /-- `if (timers_state->cpu_ticks_enabled)` in `cpu_disable_ticks`. -/
  | disableTest
  /-- `if (!timers_state->cpu_ticks_enabled)` in `__cpu_get_clock`. -/
  | getClockTest
  | getFrozen
  | getClock
  | getRestart (ti : ℤ)
  | getRestartAgain (ti restart : ℤ)
  | getOffset (ti restart again : ℤ)
  | freezeOffset (retval : ℤ)
  | clearEnabled
  deriving DecidableEq

/-- The fields, the host clock, and the place of the writer. -/
structure SharedFields extends ClockFields where
  now : ℤ
  writer : WriterPc
  deriving DecidableEq

/-- Perform the next access of the writer. -/
def SharedFields.write (tdf : LongDouble) (s : SharedFields) : SharedFields :=
  match s.writer with
  | .idle => s
  | .enableTest => { s with writer := if !s.enabled then .enableGetClock else .idle }
  | .enableGetClock => { s with writer := .loadOffset s.now }
  | .loadOffset realClock => { s with writer := .storeOffset realClock s.offset }
  | .storeOffset realClock offset =>
      { s with offset := offset - realClock, writer := .storeRestart realClock }
  | .storeRestart realClock => { s with restart := realClock, writer := .setEnabled }
  | .setEnabled => { s with enabled := true, writer := .idle }
  | .disableTest => { s with writer := if s.enabled then .getClockTest else .idle }
  | .getClockTest => { s with writer := if !s.enabled then .getFrozen else .getClock }
  | .getFrozen => { s with writer := .freezeOffset s.offset }
  | .getClock => { s with writer := .getRestart s.now }
  | .getRestart ti => { s with writer := .getRestartAgain ti s.restart }
  | .getRestartAgain ti restart => { s with writer := .getOffset ti restart s.restart }
  | .getOffset ti restart again =>
      { s with writer := .freezeOffset (computed tdf ti restart again s.offset) }
  | .freezeOffset retval => { s with offset := retval, writer := .clearEnabled }
  | .clearEnabled => { s with enabled := false, writer := .idle }

/-- The same fields, later. -/
def SharedFields.elapse (s : SharedFields) (nanoseconds : ℕ) : SharedFields :=
  { s with now := s.now + nanoseconds }

/-! ## The readers -/

/-- The next access of a thread that reads the clock. -/
inductive ReaderPc where
  | idle
  /-- `if (!timers_state->cpu_ticks_enabled)` -/
  | testFrozen
  | getFrozen
  /-- The second test of the flag, after the frozen value is loaded. -/
  | retestFrozen (retval : ℤ)
  /-- `if(timers_state->cpu_ticks_enabled)` -/
  | testRunning
  | getClock
  | getRestart (ti : ℤ)
  | getRestartAgain (ti restart : ℤ)
  | getOffset (ti restart again : ℤ)
  /-- The second test of the flag, after the value is computed. -/
  | retestRunning (retval : ℤ)
  deriving DecidableEq

/-- Perform the next access of `cpu_get_clock`. An idle reader calls it. -/
def ReaderPc.next (tdf : LongDouble) (s : SharedFields) : ReaderPc → ReaderPc
  | .idle => .testFrozen
  | .testFrozen => if !s.enabled then .getFrozen else .testRunning
  | .getFrozen => .retestFrozen s.offset
  | .retestFrozen _ => if !s.enabled then .idle else .testRunning
  | .testRunning => if s.enabled then .getClock else .testFrozen
  | .getClock => .getRestart s.now
  | .getRestart ti => .getRestartAgain ti s.restart
  | .getRestartAgain ti restart => .getOffset ti restart s.restart
  | .getOffset ti restart again => .retestRunning (computed tdf ti restart again s.offset)
  | .retestRunning _ => if s.enabled then .idle else .testFrozen

/-- The value returned by the next access, when it is the test that ends the loop. -/
def ReaderPc.returns (s : SharedFields) : ReaderPc → Option ℤ
  | .retestFrozen retval => if !s.enabled then some retval else none
  | .retestRunning retval => if s.enabled then some retval else none
  | _ => none

/-! ## Steps -/

variable {ι : Type*} [DecidableEq ι]

/-- The shared fields, and the place of each reader. -/
structure FieldSystem (ι : Type*) where
  shared : SharedFields
  readers : ι → ReaderPc

/-- After `timers_state_create`, with nobody calling. -/
def FieldSystem.initial (created : HostReading) (now : ℤ) : FieldSystem ι where
  shared := { (create created).clockFields with now, writer := .idle }
  readers := fun _ => .idle

inductive FieldAction (ι : Type*) where
  | elapse (nanoseconds : ℕ)
  /-- The writer calls `cpu_enable_ticks`. -/
  | enable
  /-- The writer calls `cpu_disable_ticks`. -/
  | disable
  | write
  | read (reader : ι)

/-- Let time pass, begin a call, or perform one access of a call. -/
def fieldStep (tdf : LongDouble) (s : FieldSystem ι) : FieldAction ι → Option (FieldSystem ι)
  | .elapse nanoseconds => some { s with shared := s.shared.elapse nanoseconds }
  | .enable =>
      if s.shared.writer = .idle then
        some { s with shared := { s.shared with writer := .enableTest } }
      else none
  | .disable =>
      if s.shared.writer = .idle then
        some { s with shared := { s.shared with writer := .disableTest } }
      else none
  | .write =>
      if s.shared.writer = .idle then none else some { s with shared := s.shared.write tdf }
  | .read i =>
      some { s with
        readers := Function.update s.readers i ((s.readers i).next tdf s.shared) }

/-! ## Calls that nothing interrupts -/

section

variable (ts : TimersState) (tdf : LongDouble) (host : HostReading)

/-- The fields of a state, at a host reading. -/
def TimersState.shared (writer : WriterPc) : SharedFields :=
  { ts.clockFields with now := host.clock, writer }

theorem enable_alone :
    (SharedFields.write tdf)^[if ts.cpuTicksEnabled then 1 else 6] (ts.shared host .enableTest)
      = (ts.cpuEnableTicks host).shared host .idle := by
  cases enabled : ts.cpuTicksEnabled <;>
    simp [TimersState.shared, clockFields, SharedFields.write, cpuEnableTicks, enabled]

theorem disable_alone :
    (SharedFields.write tdf)^[if ts.cpuTicksEnabled then 8 else 1] (ts.shared host .disableTest)
      = (ts.cpuDisableTicks tdf host).shared host .idle := by
  cases enabled : ts.cpuTicksEnabled with
  | false =>
      simp [TimersState.shared, clockFields, SharedFields.write, cpuDisableTicks, enabled]
  | true =>
      by_cases back : ts.cpuTicksPrev > host.ticks <;>
        simp [TimersState.shared, clockFields, SharedFields.write, cpuDisableTicks, cpuGetTicks,
          cpuGetClock, computed_same, enabled, back]

theorem read_alone :
    ((ReaderPc.next tdf (ts.shared host .idle))^[if ts.cpuTicksEnabled then 7 else 3] .idle).returns
      (ts.shared host .idle) = some (ts.cpuGetClock tdf host) := by
  cases enabled : ts.cpuTicksEnabled <;>
    simp [TimersState.shared, clockFields, ReaderPc.next, ReaderPc.returns, cpuGetClock,
      computed_same, enabled]

end

end VirtualAgent
