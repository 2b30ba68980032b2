import VirtualAgent.ClockAccounting

/-!
# Virtual time between two threads

The update cycle disables the clock, writes the dilation factor and enables the clock,
and the messages Protocol-30 and Protocol-31 disable and enable it on another thread
without a lock between them. A Protocol-31 message that comes between the cycle's
disabling and its writing of the factor has the factor written while the clock runs,
which sets the clock back when the factor is raised (`resume_before_setTdf`). A call is one
step here.

In every other order the values read never decrease (`run_reads_sorted`): the factor may
be lowered while the clock runs, and changed at will while it is stopped.
-/

set_option autoImplicit false

namespace VirtualAgent

open ExactFloat Transition TimersState DilatedClock

/-- The next call of the virtual time thread. -/
inductive CyclePc where
  /-- At the start, and after the factor is written. -/
  | enable
  | disable
  | setTdf
  deriving DecidableEq

/-- The clock, the place of the virtual time thread, and the values read so far, latest
first. -/
structure SharedClock where
  state : ClockState
  cycle : CyclePc
  reads : List ℤ
  deriving DecidableEq

/-- The clock as `timers_state_create` leaves it, before `VirtualTime::start`. -/
def SharedClock.initial (created : HostReading) (now : ℤ) : SharedClock :=
  ⟨.initial created now, .enable, []⟩

/-- A call by the virtual time thread, by a message, or by a reader. -/
inductive SharedCall where
  | cycleEnable (host : HostReading)
  | cycleDisable (host : HostReading)
  | cycleSetTdf (tdf : ℚ)
  /-- Protocol-30 -/
  | suspend (host : HostReading)
  /-- Protocol-31 -/
  | resume (host : HostReading)
  | read (host : HostReading)
  deriving DecidableEq

/-- `cpu_enable_ticks`, at a host reading that is not in the past. -/
def ClockState.enable (s : ClockState) (host : HostReading) : ClockState :=
  { s with timers := s.timers.cpuEnableTicks host, now := host.clock }

/-- `cpu_disable_ticks`, at a host reading that is not in the past. -/
def ClockState.disable (s : ClockState) (host : HostReading) : ClockState :=
  { s with timers := s.timers.cpuDisableTicks s.tdf host, now := host.clock }

/-- Perform a call whose turn it is, with a host clock that does not go back and a factor
that is positive. -/
def sharedStep (s : SharedClock) : SharedCall → Option SharedClock
  | .cycleEnable host =>
      if s.cycle = .enable ∧ s.state.now ≤ host.clock then
        some { s with state := s.state.enable host, cycle := .disable }
      else none
  | .cycleDisable host =>
      if s.cycle = .disable ∧ s.state.now ≤ host.clock then
        some { s with state := s.state.disable host, cycle := .setTdf }
      else none
  | .cycleSetTdf tdf =>
      if s.cycle = .setTdf ∧ 0 < tdf then
        some { s with state := { s.state with tdf := .ofRat tdf }, cycle := .enable }
      else none
  | .suspend host =>
      if s.state.now ≤ host.clock then some { s with state := s.state.disable host } else none
  | .resume host =>
      if s.state.now ≤ host.clock then some { s with state := s.state.enable host } else none
  | .read host =>
      if s.state.now ≤ host.clock then
        some { s with
          state := { s.state with now := host.clock }
          reads := s.state.timers.cpuGetClock s.state.tdf host :: s.reads }
      else none

/-- The factor is not raised while the clock is enabled. -/
def RaisesStopped (s : SharedClock) : SharedCall → Prop
  | .cycleSetTdf tdf => s.state.timers.cpuTicksEnabled = true → .ofRat tdf ≤ s.state.tdf
  | _ => True

instance (s : SharedClock) : DecidablePred (RaisesStopped s)
  | .cycleSetTdf tdf => inferInstanceAs (Decidable (_ = true → .ofRat tdf ≤ s.state.tdf))
  | .cycleEnable _ | .cycleDisable _ | .suspend _ | .resume _ | .read _ =>
      inferInstanceAs (Decidable True)

/-! ## The invariant -/

/-- The clock is stopped, or started in the past, and shows at least a value, at a positive
factor. -/
structure ShowsAtRate (s : ClockState) (value : ℤ) (tdf : ℚ) : Prop where
  tdf_eq : s.tdf = .ofRat tdf
  positive : 0 < tdf
  started : (s.timers.toClock tdf).StartedBy s.now
  le_read : value ≤ (s.timers.toClock tdf).read s.now

/-- The clock shows at least a value. -/
def Shows (s : ClockState) (value : ℤ) : Prop := ∃ tdf : ℚ, ShowsAtRate s value tdf

theorem shows_initial (created : HostReading) (now : ℤ) :
    Shows (ClockState.initial created now) created.clock := by
  refine ⟨1, rfl, one_pos, ?_, le_refl _⟩
  intro r member
  cases member

section

variable {s : ClockState} {value : ℤ}

/-- **Time passes without setting the clock back.** -/
theorem Shows.advance (shows : Shows s value) {now : ℤ} (later : s.now ≤ now) :
    Shows { s with now } value := by
  obtain ⟨tdf, tdf_eq, positive, started, le_read⟩ := shows
  exact ⟨tdf, tdf_eq, positive, started.mono later,
    le_read.trans (Clock.read_mono positive later)⟩

theorem Shows.enable (shows : Shows s value) {host : HostReading} (later : s.now ≤ host.clock) :
    Shows (s.enable host) value := by
  obtain ⟨tdf, tdf_eq, positive, started, le_read⟩ := shows.advance later
  refine ⟨tdf, tdf_eq, positive, ?_, ?_⟩
  · rw [ClockState.enable, toClock_cpuEnableTicks]
    exact started.resume
  · rw [ClockState.enable, toClock_cpuEnableTicks, Clock.read_resume]
    exact le_read

theorem Shows.disable (shows : Shows s value) {host : HostReading} (later : s.now ≤ host.clock) :
    Shows (s.disable host) value := by
  obtain ⟨tdf, tdf_eq, positive, started, le_read⟩ := shows.advance later
  have stopped : ((s.disable host).timers.toClock tdf)
      = (s.timers.toClock tdf).stop host.clock := by
    rw [ClockState.disable, show s.tdf = .ofRat tdf from tdf_eq,
      toClock_cpuDisableTicks _ _ positive]
  refine ⟨tdf, tdf_eq, positive, ?_, ?_⟩
  · rw [stopped]
    intro r member
    cases member
  · rw [stopped, Clock.read_stop]
    exact le_read

/-- **Another factor does not set the clock back while it is stopped, nor a lower one while it
runs.** -/
theorem Shows.setTdf (shows : Shows s value) {changed : ℚ} (positive : 0 < changed)
    (unraised : s.timers.cpuTicksEnabled = true → .ofRat changed ≤ s.tdf) :
    Shows { s with tdf := .ofRat changed } value := by
  obtain ⟨tdf, tdf_eq, -, started, le_read⟩ := shows
  refine ⟨changed, rfl, positive, started, le_read.trans ?_⟩
  cases enabled : s.timers.cpuTicksEnabled with
  | false => exact (Clock.read_setRate_of_stopped (toClock_start_eq_none.mpr enabled) changed _).ge
  | true =>
      have le : changed ≤ tdf := by
        have := unraised enabled
        rwa [tdf_eq, LongDouble.ofRat_le] at this
      exact Clock.read_setRate_of_le positive le started

/-- What a reader gets is what the clock shows. -/
theorem Shows.read (shows : Shows s value) {host : HostReading} (later : s.now ≤ host.clock) :
    value ≤ s.timers.cpuGetClock s.tdf host ∧
      Shows { s with now := host.clock } (s.timers.cpuGetClock s.tdf host) := by
  obtain ⟨tdf, tdf_eq, positive, started, le_read⟩ := shows.advance later
  have read_eq : s.timers.cpuGetClock s.tdf host = (s.timers.toClock tdf).read host.clock := by
    rw [show s.tdf = .ofRat tdf from tdf_eq, cpuGetClock_eq _ _ positive]
  exact ⟨le_read.trans read_eq.ge, tdf, tdf_eq, positive, started, read_eq.le⟩

end

/-- The values read do not decrease, and the clock shows at least the latest of them. -/
structure NeverBack (s : SharedClock) : Prop where
  sorted : s.reads.Pairwise (· ≥ ·)
  exists_shows : ∃ value, Shows s.state value ∧ ∀ past ∈ s.reads, past ≤ value

theorem neverBack_initial (created : HostReading) (now : ℤ) :
    NeverBack (SharedClock.initial created now) := by
  refine ⟨List.Pairwise.nil, created.clock, shows_initial created now, ?_⟩
  intro past member
  cases member

/-- **Every call keeps the clock from going back**, if it does not raise the factor while the
clock runs. -/
theorem NeverBack.step {s next : SharedClock} {call : SharedCall} (kept : NeverBack s)
    (raisesStopped : RaisesStopped s call) (stepped : sharedStep s call = some next) :
    NeverBack next := by
  obtain ⟨sorted, value, shows, le_value⟩ := kept
  cases call with
  | cycleEnable host =>
      obtain ⟨⟨-, later⟩, rfl⟩ := Option.ite_some_none_eq_some.mp stepped
      exact ⟨sorted, value, shows.enable later, le_value⟩
  | cycleDisable host =>
      obtain ⟨⟨-, later⟩, rfl⟩ := Option.ite_some_none_eq_some.mp stepped
      exact ⟨sorted, value, shows.disable later, le_value⟩
  | cycleSetTdf tdf =>
      obtain ⟨⟨-, positive⟩, rfl⟩ := Option.ite_some_none_eq_some.mp stepped
      exact ⟨sorted, value, shows.setTdf positive raisesStopped, le_value⟩
  | suspend host =>
      obtain ⟨later, rfl⟩ := Option.ite_some_none_eq_some.mp stepped
      exact ⟨sorted, value, shows.disable later, le_value⟩
  | resume host =>
      obtain ⟨later, rfl⟩ := Option.ite_some_none_eq_some.mp stepped
      exact ⟨sorted, value, shows.enable later, le_value⟩
  | read host =>
      obtain ⟨later, rfl⟩ := Option.ite_some_none_eq_some.mp stepped
      obtain ⟨value_le, showsRead⟩ := shows.read later
      have le_read := fun past member => (le_value past member).trans value_le
      refine ⟨List.pairwise_cons.mpr ⟨le_read, sorted⟩, _, showsRead, ?_⟩
      intro past member
      rcases List.mem_cons.mp member with rfl | earlier
      · exact le_refl _
      · exact le_read past earlier

/-! ## Runs -/

/-- **The values read never decrease**, whatever the order of the virtual time thread's calls,
the messages and the reads, if the factor is not raised while the clock is enabled. -/
theorem run_reads_sorted (created : HostReading) (now : ℤ) (calls : List SharedCall)
    (s : SharedClock)
    (raisesStopped : Meets sharedStep RaisesStopped (SharedClock.initial created now) calls)
    (ran : run sharedStep (SharedClock.initial created now) calls = some s) :
    s.reads.reverse.Pairwise (· ≤ ·) := by
  have kept : NeverBack s := run_invariant_of_meets NeverBack
    (fun _ _ _ kept condition stepped => kept.step condition stepped)
    (neverBack_initial created now) raisesStopped ran
  exact List.pairwise_reverse.mpr kept.sorted

/-- A suspension inside the cycle, and a resumption after it. -/
theorem run_reads_sorted_suspended :
    ∃ s, run sharedStep (SharedClock.initial ⟨0, 0⟩ 0)
        [.cycleEnable ⟨0, 0⟩, .read ⟨100, 0⟩, .cycleDisable ⟨100, 0⟩, .suspend ⟨120, 0⟩,
          .cycleSetTdf 2, .resume ⟨130, 0⟩, .read ⟨150, 0⟩] = some s ∧
      s.reads = [110, 100] ∧ s.reads.reverse.Pairwise (· ≤ ·) := by
  have computed : (run sharedStep (SharedClock.initial ⟨0, 0⟩ 0)
      [.cycleEnable ⟨0, 0⟩, .read ⟨100, 0⟩, .cycleDisable ⟨100, 0⟩, .suspend ⟨120, 0⟩,
        .cycleSetTdf 2, .resume ⟨130, 0⟩, .read ⟨150, 0⟩]).any
      (fun s => decide (s.reads = [110, 100])) = true := by decide +kernel
  obtain ⟨s, ran, values⟩ := exists_of_any computed
  exact ⟨s, ran, values,
    run_reads_sorted ⟨0, 0⟩ 0 _ s (by decide +kernel) ran⟩

/-- A Protocol-31 message comes between the cycle's disabling and its writing of the factor.
The clock shows 200 at host time 200, and 150 at the same time once the factor is 2. -/
theorem resume_before_setTdf :
    ∃ s, run sharedStep (SharedClock.initial ⟨0, 0⟩ 0)
        [.cycleEnable ⟨0, 0⟩, .cycleDisable ⟨100, 0⟩, .resume ⟨100, 0⟩, .read ⟨200, 0⟩,
          .cycleSetTdf 2, .read ⟨200, 0⟩] = some s ∧
      s.reads.reverse = [200, 150] ∧ ¬ s.reads.reverse.Pairwise (· ≤ ·) := by
  apply exists_of_any
  decide +kernel

end VirtualAgent
