import VirtualAgent.Library.CText
import VirtualAgent.Library.Transition
import VirtualAgent.RoundedClock

/-!
# Virtual ticks across a stop

`cpu_disable_ticks` freezes the virtual ticks and `cpu_enable_ticks` starts them again
from the frozen value, at the counter reading of that moment. The first read after the
start returns the frozen value plus what the counter is worth since then, at the factor
in force. The `long double` results are rounded, so where the counter is worth nearly a
whole number of ticks the last one may be counted early (`resumed_value_rounded_up`).

A history is a sequence of calls with any counter readings, in the arithmetic of the
processor. Beside it `TickRecord` keeps the reading made last by a read or a disabling
call, and the frozen value and the reading of an enabling call until the first read after
it. `resumed_value` says what that read returns when the counter is not behind the reading
made last. Behind it the read takes the difference for a step back of a running counter,
also where the counter was reset during the stop (`reset_leaks_into_ticks`).
-/

set_option autoImplicit false

namespace VirtualAgent

open ExactFloat CText Transition TimersState

/-- A use of the virtual ticks, with the host reading it makes. -/
inductive TickCall where
  | enable (host : HostReading)
  | disable (host : HostReading)
  | setTdf (tdf : ℚ)
  | get (host : HostReading)
  deriving DecidableEq

/-- The shared state of the virtual ticks, and the factor. -/
structure TickState where
  timers : TimersState
  tdf : ℚ
  deriving DecidableEq

/-- The state left by `timers_state_create` and `SharedMemory::create`. -/
def TickState.initial (created : HostReading) : TickState := ⟨create created, 1⟩

/-- What `cpu_get_ticks` returns. -/
def TickState.ticks (s : TickState) (host : HostReading) : ℤ :=
  (s.timers.cpuGetTicks (.ofRat s.tdf) host .machine).1

/-- Perform a call. A positive factor is written while the ticks are disabled. -/
def tickStep (s : TickState) : TickCall → Option TickState
  | .enable host => some { s with timers := s.timers.cpuEnableTicks host }
  | .disable host =>
      some { s with timers := s.timers.cpuDisableTicks (.ofRat s.tdf) host .machine }
  | .setTdf tdf =>
      if s.timers.cpuTicksEnabled = false ∧ 0 < tdf then some { s with tdf } else none
  | .get host => some { s with timers := (s.timers.cpuGetTicks (.ofRat s.tdf) host .machine).2 }

/-- What is remembered of a history. -/
structure TickRecord where
  /-- the counter reading made last by a read or a disabling call, or at creation -/
  lastRead : ℤ
  /-- the frozen value and the reading it was resumed at, until the next read -/
  resumed : Option (ℤ × ℤ)
  deriving DecidableEq

/-- Remember a call. Enabled ticks are not enabled again, and disabled ones read no
counter. -/
def recordTicks (s : TickState) (r : TickRecord) : TickCall → TickRecord
  | .enable host =>
      if s.timers.cpuTicksEnabled then r
      else { r with resumed := some (s.ticks host, host.ticks) }
  | .disable host => if s.timers.cpuTicksEnabled then ⟨host.ticks, none⟩ else r
  | .setTdf _ => r
  | .get host => if s.timers.cpuTicksEnabled then ⟨host.ticks, none⟩ else r

/-- The state holds what the record says: the kept reading is still there after a stop. -/
structure Remembers (s : TickState) (r : TickRecord) : Prop where
  positive : 0 < s.tdf
  lastRead : s.timers.cpuTicksPrev = r.lastRead
  resumed : ∀ frozen restart, r.resumed = some (frozen, restart) →
    s.timers.cpuTicksEnabled = true ∧ s.timers.cpuTicksRestart = restart ∧
      s.timers.cpuTicksOffset = frozen - restart

theorem remembers_initial (created : HostReading) :
    Remembers (.initial created) ⟨created.ticks, none⟩ where
  positive := one_pos
  lastRead := rfl
  resumed := fun _ _ impossible => nomatch impossible

/-- A read of enabled ticks keeps the reading, and what they were started with. -/
theorem cpuGetTicks_frame {ts : TimersState} (enabled : ts.cpuTicksEnabled = true)
    (tdf : LongDouble) (host : HostReading) (arithmetic : Arithmetic) :
    (ts.cpuGetTicks tdf host arithmetic).2.cpuTicksPrev = host.ticks := by
  by_cases back : ts.cpuTicksPrev > host.ticks <;> simp [cpuGetTicks, enabled, back]

/-- A read at a reading that is not behind the one made last has nothing to compensate. -/
theorem cpuGetTicks_of_onward {ts : TimersState} (enabled : ts.cpuTicksEnabled = true)
    {host : HostReading} (onward : ts.cpuTicksPrev ≤ host.ticks) (tdf : LongDouble)
    (arithmetic : Arithmetic) :
    ts.cpuGetTicks tdf host arithmetic =
      (dilated ts.cpuTicksRestart host.ticks ts.cpuTicksOffset tdf arithmetic,
        { ts with cpuTicksPrev := host.ticks }) := by
  simp [cpuGetTicks, enabled, not_lt.mpr onward]

/-- **A disabling call freezes what a read would return**, and keeps the reading. -/
theorem cpuDisableTicks_ticks {ts : TimersState} (enabled : ts.cpuTicksEnabled = true)
    (tdf : LongDouble) (host : HostReading) (arithmetic : Arithmetic) :
    (ts.cpuDisableTicks tdf host arithmetic).cpuTicksOffset =
        (ts.cpuGetTicks tdf host arithmetic).1 ∧
      (ts.cpuDisableTicks tdf host arithmetic).cpuTicksPrev = host.ticks := by
  have kept := cpuGetTicks_frame enabled tdf host arithmetic
  simp [cpuDisableTicks, enabled, kept]

namespace Remembers

variable {s : TickState} {r : TickRecord}

/-- **An enabling call records the value it starts from.** -/
theorem enable (remembers : Remembers s r) (host : HostReading) :
    Remembers { s with timers := s.timers.cpuEnableTicks host }
      (recordTicks s r (.enable host)) := by
  cases enabled : s.timers.cpuTicksEnabled with
  | true =>
      simp only [recordTicks, enabled, if_true, cpuEnableTicks_of_enabled enabled]
      exact remembers
  | false =>
      have frozen : s.ticks host = s.timers.cpuTicksOffset := by
        rw [TickState.ticks, cpuGetTicks_of_disabled enabled]
      simp only [recordTicks, enabled, Bool.false_eq_true, if_false, frozen,
        cpuEnableTicks_of_disabled enabled]
      refine ⟨remembers.positive, remembers.lastRead, ?_⟩
      rintro _ _ ⟨⟩
      exact ⟨rfl, rfl, rfl⟩

/-- A disabling call reads the counter. -/
theorem disable (remembers : Remembers s r) (host : HostReading) :
    Remembers { s with timers := s.timers.cpuDisableTicks (.ofRat s.tdf) host .machine }
      (recordTicks s r (.disable host)) := by
  cases enabled : s.timers.cpuTicksEnabled with
  | false =>
      simp only [recordTicks, enabled, Bool.false_eq_true, if_false,
        cpuDisableTicks_of_disabled enabled]
      exact remembers
  | true =>
      simp only [recordTicks, enabled, if_true]
      obtain ⟨-, prev⟩ := cpuDisableTicks_ticks enabled (.ofRat s.tdf) host .machine
      refine ⟨remembers.positive, prev, ?_⟩
      rintro _ _ ⟨⟩

/-- So does a read of enabled ticks. -/
theorem get (remembers : Remembers s r) (host : HostReading) :
    Remembers { s with timers := (s.timers.cpuGetTicks (.ofRat s.tdf) host .machine).2 }
      (recordTicks s r (.get host)) := by
  cases enabled : s.timers.cpuTicksEnabled with
  | false =>
      simp only [recordTicks, enabled, Bool.false_eq_true, if_false,
        cpuGetTicks_of_disabled enabled]
      exact remembers
  | true =>
      simp only [recordTicks, enabled, if_true]
      refine ⟨remembers.positive, cpuGetTicks_frame enabled _ host .machine, ?_⟩
      rintro _ _ ⟨⟩

/-- Every call keeps the record. -/
theorem step {next : TickState} {call : TickCall} (remembers : Remembers s r)
    (stepped : tickStep s call = some next) : Remembers next (recordTicks s r call) := by
  cases call with
  | enable host =>
      cases stepped
      exact remembers.enable host
  | disable host =>
      cases stepped
      exact remembers.disable host
  | setTdf tdf =>
      obtain ⟨⟨-, positive⟩, rfl⟩ := Option.ite_some_none_eq_some.mp stepped
      exact ⟨positive, remembers.lastRead, remembers.resumed⟩
  | get host =>
      cases stepped
      exact remembers.get host

end Remembers

/-- Every history keeps the record. -/
theorem remembers_of_run {created : HostReading} {calls : List TickCall} {s : TickState}
    {r : TickRecord}
    (ran : run (withHistory tickStep recordTicks)
      (.initial created, ⟨created.ticks, none⟩) calls = some (s, r)) : Remembers s r := by
  refine run_invariant (fun state : TickState × TickRecord => Remembers state.1 state.2) ?_
    (remembers_initial created) ran
  intro state call next remembers stepped
  obtain ⟨moved, recorded⟩ := withHistory_eq_some.mp stepped
  rw [recorded]
  exact remembers.step moved

/-! ## The first read after a start -/

/-- What the counter is worth since the restart. -/
def TickState.worth (s : TickState) (restart : ℤ) (host : HostReading) : ℚ :=
  quotient restart host.ticks s.tdf

/-- A read at `host`, and a disabling call, goes on from the frozen value by the whole ticks
the counter is worth since the restart, or by one more where it is worth nearly that. -/
structure TickState.ResumesAt (s : TickState) (frozen restart : ℤ) (host : HostReading) :
    Prop where
  value : s.ticks host = frozen + ⌊s.worth restart host⌋ ∨
    s.ticks host = frozen + ⌊s.worth restart host⌋ + 1
  wholeTicks : (|(restart : ℚ)| + frozen + s.worth restart host + 2) / 2 ^ 62 <
    ⌊s.worth restart host⌋ + 1 - s.worth restart host →
      s.ticks host = frozen + ⌊s.worth restart host⌋
  freezes : (s.timers.cpuDisableTicks (.ofRat s.tdf) host .machine).cpuTicksOffset = s.ticks host

/-- **The ticks resume where they stopped.** After every history with any counter readings,
let the ticks be enabled at `restart` from the frozen value `frozen` and not be read since.
A read or a disabling call at a reading not before `restart` and not behind the one kept
from before the stop goes on from the frozen value. -/
theorem resumed_value {created : HostReading} {calls : List TickCall} {s : TickState}
    {r : TickRecord}
    (ran : run (withHistory tickStep recordTicks)
      (.initial created, ⟨created.ticks, none⟩) calls = some (s, r))
    {frozen restart : ℤ} (resumed : r.resumed = some (frozen, restart)) {host : HostReading}
    (fits : Fits restart host.ticks (frozen - restart) s.tdf)
    (onward : r.lastRead ≤ host.ticks) : s.ResumesAt frozen restart host := by
  have remembers := remembers_of_run ran
  obtain ⟨enabled, restart_eq, offset_eq⟩ := remembers.resumed frozen restart resumed
  have positive := remembers.positive
  have read : s.ticks host =
      dilated restart host.ticks (frozen - restart) (.ofRat s.tdf) .machine := by
    rw [TickState.ticks, cpuGetTicks_of_onward enabled (remembers.lastRead ▸ onward), restart_eq,
      offset_eq]
  obtain ⟨low, high⟩ := fits.dilated_bounds positive
  have ceil := Int.ceil_le_floor_add_one (quotient restart host.ticks s.tdf)
  rw [sub_add_cancel, ← read] at low high
  refine ⟨?_, ?_, (cpuDisableTicks_ticks enabled _ host .machine).1⟩
  · rw [TickState.worth]
    omega
  · intro clear
    have down := fits.dilated_eq positive (by push_cast; rwa [sub_add_cancel])
    rwa [sub_add_cancel, ← read] at down

/-- A counter that goes on across the stop. -/
theorem resumed_value_after_pause :
    ∃ s r, run (withHistory tickStep recordTicks) (.initial ⟨0, 0⟩, ⟨0, none⟩)
        [.setTdf 2, .enable ⟨0, 0⟩, .get ⟨1, 100⟩, .disable ⟨2, 101⟩, .enable ⟨3, 200⟩] =
          some (s, r) ∧ r.resumed = some (50, 200) ∧ s.ResumesAt 50 200 ⟨4, 205⟩ := by
  have computed : (run (withHistory tickStep recordTicks) (.initial ⟨0, 0⟩, ⟨0, none⟩)
      [.setTdf 2, .enable ⟨0, 0⟩, .get ⟨1, 100⟩, .disable ⟨2, 101⟩, .enable ⟨3, 200⟩]).any
        (fun state => decide (state.2.resumed = some (50, 200) ∧ state.2.lastRead = 101 ∧
          state.1.tdf = 2)) = true := by
    decide +kernel
  obtain ⟨⟨s, r⟩, ran, resumed, lastRead, tdf_eq⟩ := exists_of_any computed
  have fits : Fits 200 205 (50 - 200) s.tdf := by
    rw [tdf_eq]
    exact ⟨by decide, by decide, by decide, by decide, by decide, by decide +kernel⟩
  exact ⟨s, r, ran, resumed, resumed_value ran resumed fits (by rw [lastRead]; decide)⟩

/-- The factor 1.1, as a `double`. -/
def elevenTenths : ℚ := 2476979795053773 / 2251799813685248

/-- **The last tick may be counted early.** At the factor 1.1 eleven counts are worth a little
less than ten ticks, and the read returns ten more than the frozen value. -/
theorem resumed_value_rounded_up :
    LongDouble.ofRat elevenTenths = atof (ascii "1.1") ∧
      ∃ s r, run (withHistory tickStep recordTicks)
        (.initial ⟨0, 1000000000000000⟩, ⟨1000000000000000, none⟩)
          [.setTdf elevenTenths, .enable ⟨1, 1000000000002000⟩] = some (s, r) ∧
        r.resumed = some (1000000000000000, 1000000000002000) ∧
        r.lastRead ≤ 1000000000002011 ∧
        ⌊s.worth 1000000000002000 ⟨2, 1000000000002011⟩⌋ = 9 ∧
        s.ticks ⟨2, 1000000000002011⟩ = 1000000000000000 + 10 := by
  refine ⟨by decide +kernel, ?_⟩
  have computed : (run (withHistory tickStep recordTicks)
      (.initial ⟨0, 1000000000000000⟩, ⟨1000000000000000, none⟩)
        [.setTdf elevenTenths, .enable ⟨1, 1000000000002000⟩]).any
        (fun state => decide (state.2.resumed = some (1000000000000000, 1000000000002000) ∧
          state.2.lastRead ≤ 1000000000002011 ∧
          ⌊state.1.worth 1000000000002000 ⟨2, 1000000000002011⟩⌋ = 9 ∧
          state.1.ticks ⟨2, 1000000000002011⟩ = 1000000000000000 + 10)) = true := by
    decide +kernel
  obtain ⟨⟨s, r⟩, ran, holds⟩ := exists_of_any computed
  exact ⟨s, r, ran, holds⟩

/-- **A counter that is reset during the stop leaks into the ticks.** They were frozen at a
thousand, and the first read after the restart, at the reading of the restart itself,
returns 1990. -/
theorem reset_leaks_into_ticks :
    ∃ s r, run (withHistory tickStep recordTicks) (.initial ⟨0, 0⟩, ⟨0, none⟩)
        [.enable ⟨0, 0⟩, .get ⟨1, 1000⟩, .disable ⟨2, 1000⟩, .enable ⟨3, 10⟩] = some (s, r) ∧
      r.resumed = some (1000, 10) ∧ s.ticks ⟨4, 10⟩ = 1990 ∧
      ¬ s.ResumesAt 1000 10 ⟨4, 10⟩ := by
  have computed : (run (withHistory tickStep recordTicks) (.initial ⟨0, 0⟩, ⟨0, none⟩)
      [.enable ⟨0, 0⟩, .get ⟨1, 1000⟩, .disable ⟨2, 1000⟩, .enable ⟨3, 10⟩]).any
        (fun state => decide (state.2.resumed = some (1000, 10) ∧
          state.1.ticks ⟨4, 10⟩ = 1990)) = true := by
    decide +kernel
  obtain ⟨⟨s, r⟩, ran, resumed, ticks⟩ := exists_of_any computed
  refine ⟨s, r, ran, resumed, ticks, ?_⟩
  rintro ⟨value, -, -⟩
  rw [ticks, TickState.worth, quotient, sub_self, Int.cast_zero, zero_div, Int.floor_zero] at value
  omega

end VirtualAgent
