import VirtualAgent.Library.Transition
import VirtualAgent.QemuTimer

/-!
# Exact accounting of dilated time

A history of the virtual clock is a sequence of `cpu_enable_ticks`,
`cpu_disable_ticks`, `cpu_get_clock` and writes of the dilation factor, with the
host readings the calls make. `clockStepIn` admits the histories in which the
host clock does not go back and the factor, always positive, is written only
while the clock is disabled.

The ledger of a history books the stretches of host time between an enabling and
the next disabling call, each with its factor (`book`). It says nothing of the
offset and the restart reading the code keeps. The clock shows the initial value
plus what the ledger books (`cpuGetClock_accounting`).
-/

set_option autoImplicit false

namespace VirtualAgent

open ExactFloat Transition TimersState

/-- A use of the virtual clock, with the host reading it makes. -/
inductive ClockCall where
  | enable (host : HostReading)
  | disable (host : HostReading)
  | setTdf (tdf : ℚ)
  | read (host : HostReading)
  deriving DecidableEq

/-- The shared clock state and factor, and the last host clock reading. -/
structure ClockState where
  timers : TimersState
  tdf : LongDouble
  now : ℤ
  deriving DecidableEq

/-- The state left by `timers_state_create` and `SharedMemory::create`. The host
clock read at creation is not the one read later, so it bounds nothing. -/
def ClockState.initial (created : HostReading) (now : ℤ) : ClockState :=
  ⟨create created, .ofRat 1, now⟩

/-- Perform a call whose host reading is not in the past, and a write of a
positive factor while the clock is disabled. -/
def clockStepIn (a : Arithmetic) (s : ClockState) : ClockCall → Option ClockState
  | .enable host =>
      if s.now ≤ host.clock then
        some { s with timers := s.timers.cpuEnableTicks host, now := host.clock }
      else none
  | .disable host =>
      if s.now ≤ host.clock then
        some { s with timers := s.timers.cpuDisableTicks s.tdf host a, now := host.clock }
      else none
  | .setTdf tdf =>
      if s.timers.cpuTicksEnabled = false ∧ 0 < tdf then some { s with tdf := .ofRat tdf }
      else none
  | .read host => if s.now ≤ host.clock then some { s with now := host.clock } else none

/-- The step of a history in exact arithmetic. -/
abbrev clockStep : ClockState → ClockCall → Option ClockState := clockStepIn .exact

/-- What a call books. -/
def book (l : DilatedClock.Ledger ℚ) : ClockCall → DilatedClock.Ledger ℚ
  | .enable host => l.resume host.clock
  | .disable host => l.stop host.clock
  | .setTdf tdf => l.setRate tdf
  | .read _ => l

/-- The ledger of a history. -/
def ledger (calls : List ClockCall) : DilatedClock.Ledger ℚ := calls.foldl book ⟨[], none, 1⟩

/-- The clock state is the dilated clock the ledger accounts for. -/
def Accounted (initial : ℤ) (s : ClockState) (l : DilatedClock.Ledger ℚ) : Prop :=
  ∃ tdf : ℚ, s.tdf = .ofRat tdf ∧ DilatedClock.Agrees initial (s.timers.toClock tdf) l s.now

theorem accounted_initial {created : HostReading} (nonneg : 0 ≤ created.clock) (now : ℤ) :
    Accounted created.clock (ClockState.initial created now) ⟨[], none, 1⟩ := by
  refine ⟨1, rfl, rfl, rfl, one_pos, ?_, nonneg, ?_⟩
  · simp [ClockState.initial, toClock, create]
  · simp [DilatedClock.Clock.StartedBy, ClockState.initial, toClock, create]

/-- **Each call keeps the account.** -/
theorem Accounted.step {initial : ℤ} {s next : ClockState} {l : DilatedClock.Ledger ℚ}
    {call : ClockCall} (accounted : Accounted initial s l)
    (stepped : clockStep s call = some next) : Accounted initial next (book l call) := by
  obtain ⟨tdf, tdf_eq, agrees⟩ := accounted
  have positive : 0 < tdf := agrees.rate_pos
  cases call with
  | enable host =>
      obtain ⟨later, rfl⟩ := Option.ite_some_none_eq_some.mp stepped
      refine ⟨tdf, tdf_eq, ?_⟩
      rw [toClock_cpuEnableTicks]
      exact (agrees.advance later).resume
  | disable host =>
      obtain ⟨later, rfl⟩ := Option.ite_some_none_eq_some.mp stepped
      refine ⟨tdf, tdf_eq, ?_⟩
      rw [tdf_eq, toClock_cpuDisableTicks _ _ positive]
      exact (agrees.advance later).stop
  | setTdf changed =>
      obtain ⟨⟨disabled, changed_pos⟩, rfl⟩ := Option.ite_some_none_eq_some.mp stepped
      exact ⟨changed, rfl, agrees.setRate (toClock_start_eq_none.mpr disabled) changed_pos⟩
  | read host =>
      obtain ⟨later, rfl⟩ := Option.ite_some_none_eq_some.mp stepped
      exact ⟨tdf, tdf_eq, agrees.advance later⟩

/-- **Every history keeps the account.** -/
theorem Accounted.run {initial : ℤ} {s t : ClockState} {l : DilatedClock.Ledger ℚ}
    {calls : List ClockCall} (accounted : Accounted initial s l)
    (ran : run clockStep s calls = some t) : Accounted initial t (calls.foldl book l) := by
  refine run_foldl (Accounted initial) book ?_ accounted ran
  intro s l call next accounted stepped
  exact accounted.step stepped

/-! ## Reads -/

/-- A call that is not a read. -/
def ClockCall.isWrite : ClockCall → Bool
  | .read _ => false
  | _ => true

/-- The same clock and factor, last used no later. -/
structure Precedes (earlier s : ClockState) : Prop where
  timers_eq : earlier.timers = s.timers
  tdf_eq : earlier.tdf = s.tdf
  now_le : earlier.now ≤ s.now

theorem Precedes.step {earlier s next : ClockState} {call : ClockCall}
    (precedes : Precedes earlier s) (stepped : clockStep s call = some next) :
    if call.isWrite then ∃ after, clockStep earlier call = some after ∧ Precedes after next
    else Precedes earlier next := by
  obtain ⟨timers_eq, tdf_eq, now_le⟩ := precedes
  cases call with
  | enable host =>
      obtain ⟨admitted, rfl⟩ := Option.ite_some_none_eq_some.mp stepped
      exact ⟨_, if_pos (now_le.trans admitted), by rw [timers_eq], tdf_eq, le_refl _⟩
  | disable host =>
      obtain ⟨admitted, rfl⟩ := Option.ite_some_none_eq_some.mp stepped
      exact ⟨_, if_pos (now_le.trans admitted), by rw [timers_eq, tdf_eq], tdf_eq, le_refl _⟩
  | setTdf tdf =>
      obtain ⟨admitted, rfl⟩ := Option.ite_some_none_eq_some.mp stepped
      exact ⟨_, if_pos (by rwa [timers_eq]), timers_eq, rfl, now_le⟩
  | read host =>
      obtain ⟨admitted, rfl⟩ := Option.ite_some_none_eq_some.mp stepped
      exact ⟨timers_eq, tdf_eq, now_le.trans admitted⟩

/-- **The reads of a history can be left out.** -/
theorem Precedes.run {earlier s t : ClockState} {calls : List ClockCall}
    (precedes : Precedes earlier s) (ran : run clockStep s calls = some t) :
    ∃ u, run clockStep earlier (calls.filter ClockCall.isWrite) = some u ∧ Precedes u t := by
  induction calls generalizing s earlier with
  | nil =>
      cases ran
      exact ⟨earlier, rfl, precedes⟩
  | cons call rest ih =>
      obtain ⟨next, stepped, later⟩ := run_cons_eq_some.mp ran
      have moved := precedes.step stepped
      by_cases write : call.isWrite = true
      · rw [if_pos write] at moved
        obtain ⟨after, steppedEarlier, precedesNext⟩ := moved
        obtain ⟨u, ranWrites, same⟩ := ih precedesNext later
        rw [List.filter_cons_of_pos write]
        exact ⟨u, run_cons_eq_some.mpr ⟨after, steppedEarlier, ranWrites⟩, same⟩
      · rw [if_neg write] at moved
        rw [List.filter_cons_of_neg write]
        exact ih moved later

/-! ## The account -/

/-- **The virtual clock shows the initial value plus, for every stretch of host
time in which it was enabled, the whole nanoseconds of that stretch divided by
the factor in force.** While it is disabled it shows one value at every host
time, the reads of the history can be left out, and what the whole nanoseconds
fall short of the exact quotients is less than one for each stretch. -/
theorem cpuGetClock_accounting (created : HostReading) (nonneg : 0 ≤ created.clock) (now : ℤ)
    (calls : List ClockCall) (s : ClockState)
    (ran : run clockStep (ClockState.initial created now) calls = some s)
    (host : HostReading) (later : s.now ≤ host.clock) :
    s.timers.cpuGetClock s.tdf host = created.clock
        + ((ledger calls).completed.map DilatedClock.Segment.ticks).sum
        + ((ledger calls).running.elim 0
            fun start => ⌊((host.clock - start : ℤ) : ℚ) / (ledger calls).rate⌋) ∧
      (s.timers.cpuTicksEnabled = false →
        ∀ other, s.timers.cpuGetClock s.tdf other = s.timers.cpuGetClock s.tdf host) ∧
      (∃ u, run clockStep (ClockState.initial created now) (calls.filter ClockCall.isWrite)
          = some u ∧ u.timers = s.timers ∧ u.tdf = s.tdf) ∧
      0 ≤ (ledger calls).exact host.clock - (ledger calls).total host.clock ∧
      ((ledger calls).current host.clock ++ (ledger calls).completed ≠ [] →
        (ledger calls).exact host.clock - (ledger calls).total host.clock <
          ((ledger calls).current host.clock ++ (ledger calls).completed).length) := by
  obtain ⟨tdf, tdf_eq, agrees⟩ := (accounted_initial nonneg now).run ran
  obtain ⟨lower, -, upper⟩ := (ledger calls).exact_sub_total host.clock
  obtain ⟨u, ranWrites, same⟩ := Precedes.run ⟨rfl, rfl, le_refl _⟩ ran
  refine ⟨?_, ?_, ⟨u, ranWrites, same.timers_eq, same.tdf_eq⟩, lower, upper⟩
  · have positive : 0 < tdf := agrees.rate_pos
    rw [tdf_eq, cpuGetClock_eq _ _ positive, agrees.read_eq later, DilatedClock.Ledger.total_eq,
      ← add_assoc]
    rfl
  · intro disabled other
    simp [cpuGetClock, disabled]

/-- Five units at factor one, then ten at factor four, of which two count. -/
theorem cpuGetClock_accounting_twoSegments :
    ∃ s, run clockStep (ClockState.initial ⟨100, 0⟩ 7)
        [.enable ⟨10, 0⟩, .disable ⟨15, 3⟩, .setTdf 4, .read ⟨16, 4⟩, .enable ⟨20, 1⟩]
        = some s ∧ s.timers.cpuGetClock s.tdf ⟨30, 9⟩ = 107 := by
  have ran : run clockStep (ClockState.initial ⟨100, 0⟩ 7)
      [.enable ⟨10, 0⟩, .disable ⟨15, 3⟩, .setTdf 4, .read ⟨16, 4⟩, .enable ⟨20, 1⟩] =
        some ⟨⟨3, 2, 1, 85, 20, true⟩, .ofRat 4, 20⟩ := by decide +kernel
  refine ⟨_, ran, ?_⟩
  exact (cpuGetClock_accounting ⟨100, 0⟩ (by decide) 7 _ _ ran ⟨30, 9⟩ (by decide)).1.trans
    (by decide +kernel)

end VirtualAgent
