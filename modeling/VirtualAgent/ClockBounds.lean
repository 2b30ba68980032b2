import VirtualAgent.ThreadClock

/-!
# What the threads leave of the clock

Two bounds on virtual time that hold under the threads, carried down to them from the
clock they refine, with each call on the clock as one step.

The clock keeps behind its host: since the start it has advanced by no more than the time
of the host divided by the least factor received (`clock_behind_host`). That a factor is
raised or lowered while the clock runs does not matter, for the time kept is what the
factor before made of it.

The clock does not go back (`clock_not_back`), if no Protocol-31 message is performed
between the cycle's disabling of the clock and its writing of the factor. The clock is
then stopped whenever a factor is written.
-/

set_option autoImplicit false

namespace VirtualAgent

open ExactFloat Transition TimersState DilatedClock CText

/-! ## Behind the host -/

/-- The clock has advanced by no more than one unit in `least` units of the host. -/
def KeepsBehind (least : ℚ) (shown since : ℤ) (s : SharedClock) : Prop :=
  ∃ tdf : ℚ, s.state.tdf = .ofRat tdf ∧
    Slower least shown since (s.state.timers.toClock tdf) s.state.now

theorem keepsBehind_initial {least : ℚ} (positive : 0 < least) (le_one : least ≤ 1)
    {created : HostReading} (nonneg : 0 ≤ created.clock) (now : ℤ) :
    KeepsBehind least created.clock now (SharedClock.initial created now) := by
  have stopped := Slower.refl (c := (create created).toClock 1) positive le_one nonneg rfl now
  exact ⟨1, rfl, stopped⟩

namespace KeepsBehind

variable {least : ℚ} {shown since : ℤ} {s next : SharedClock}

/-- The value a reader gets. -/
theorem read_le (behind : KeepsBehind least shown since s) {host : HostReading}
    (later : s.state.now ≤ host.clock) :
    least * ((s.state.timers.cpuGetClock s.state.tdf host - shown : ℤ) : ℚ)
      ≤ ((host.clock - since : ℤ) : ℚ) := by
  obtain ⟨tdf, tdf_eq, slower⟩ := behind
  have positive : 0 < tdf := slower.rate_pos
  rw [tdf_eq, cpuGetClock_eq _ _ positive]
  exact (slower.advance later).read_le

theorem enable (behind : KeepsBehind least shown since s) {host : HostReading}
    (later : s.state.now ≤ host.clock) {place : CyclePc} :
    KeepsBehind least shown since { s with state := s.state.enable host, cycle := place } := by
  obtain ⟨tdf, tdf_eq, slower⟩ := behind
  refine ⟨tdf, tdf_eq, ?_⟩
  rw [ClockState.enable, toClock_cpuEnableTicks]
  exact (slower.advance later).resume

theorem disable (behind : KeepsBehind least shown since s) {host : HostReading}
    (later : s.state.now ≤ host.clock) {place : CyclePc} :
    KeepsBehind least shown since { s with state := s.state.disable host, cycle := place } := by
  obtain ⟨tdf, tdf_eq, slower⟩ := behind
  have positive : 0 < tdf := slower.rate_pos
  refine ⟨tdf, tdf_eq, ?_⟩
  rw [ClockState.disable, tdf_eq, toClock_cpuDisableTicks _ _ positive]
  exact (slower.advance later).stop

/-- **Every call keeps the clock behind its host**, a change of the factor of a running
clock included. -/
theorem step (behind : KeepsBehind least shown since s) {places : CyclePc → Prop}
    {call : SharedCall} (within : call.Within least places s)
    (stepped : sharedStep s call = some next) : KeepsBehind least shown since next := by
  cases call with
  | cycleEnable host =>
      obtain ⟨⟨-, later⟩, rfl⟩ := Option.ite_some_none_eq_some.mp stepped
      exact behind.enable later
  | cycleDisable host =>
      obtain ⟨⟨-, later⟩, rfl⟩ := Option.ite_some_none_eq_some.mp stepped
      exact behind.disable later
  | cycleSetTdf changed =>
      obtain ⟨-, rfl⟩ := Option.ite_some_none_eq_some.mp stepped
      obtain ⟨tdf, -, slower⟩ := behind
      exact ⟨changed, rfl, slower.setRate within⟩
  | suspend host =>
      obtain ⟨later, rfl⟩ := Option.ite_some_none_eq_some.mp stepped
      exact behind.disable later
  | resume host =>
      obtain ⟨later, rfl⟩ := Option.ite_some_none_eq_some.mp stepped
      exact behind.enable later
  | read host =>
      obtain ⟨later, rfl⟩ := Option.ite_some_none_eq_some.mp stepped
      obtain ⟨tdf, tdf_eq, slower⟩ := behind
      exact ⟨tdf, tdf_eq, slower.advance later⟩

end KeepsBehind

/-- What the shared clock shows. -/
def World.clock (w : World) : ℤ := w.agent.timersState.cpuGetClock w.agent.sharedTdf w.host

/-- **Virtual time keeps behind the host.** In every interleaving of the threads and the
messages, if the factors received are numbers from `least` on, virtual time has advanced
since the start by no more than the time of the host divided by `least`. -/
theorem clock_behind_host (least : ℚ) (positive : 0 < least) (le_one : least ≤ 1)
    (created host : HostReading) (nonneg : 0 ≤ created.clock) (actions : List ThreadAction)
    (received : ∀ action ∈ actions, ∀ tdf ∈ action.brings, IsFactor least tdf)
    (w : World) (ran : run threadStep (World.initial created host) actions = some w) :
    least * ((w.clock - created.clock : ℤ) : ℚ) ≤ ((w.host.clock - host.clock : ℤ) : ℚ) := by
  have meets : Meets threadStep (FactorsFrom least fun _ => True)
      (World.initial created host) actions :=
    meets_of_forall (fun action member _ => ⟨received action member, fun _ _ => trivial⟩) _
  obtain ⟨calls, s, called, ⟨clockOf, -, -⟩, within⟩ :=
    (clocked_initial le_one created host).run_of_meets positive meets ran
  have behind : KeepsBehind least created.clock host.clock s :=
    run_invariant_of_meets _ (fun _ _ _ kept holds stepped => kept.step holds stepped)
      (keepsBehind_initial positive le_one nonneg host.clock) within called
  have bound := behind.read_le clockOf.now_le
  rwa [clockOf.timers_eq, clockOf.tdf_eq] at bound

/-- The host is 200 units on and the clock 150, of which the last 50 are at factor 2. -/
theorem clock_behind_host_adopted :
    ∃ w, run threadStep (World.initial ⟨7, 0⟩ ⟨1000, 0⟩)
        (startUp ++ receive (ascii "12") ++ [.advance 100 0, .receiveUdp (ascii "10|a|2"),
          .message] ++ turns 8 ++ [.advance 100 0]) = some w ∧
      w.clock = 157 ∧ w.host.clock = 1200 ∧
      1 * ((w.clock - 7 : ℤ) : ℚ) ≤ ((w.host.clock - 1000 : ℤ) : ℚ) := by
  obtain ⟨w, ran, shown, passed⟩ :
      ∃ w, run threadStep (World.initial ⟨7, 0⟩ ⟨1000, 0⟩)
        (startUp ++ receive (ascii "12") ++ [.advance 100 0, .receiveUdp (ascii "10|a|2"),
          .message] ++ turns 8 ++ [.advance 100 0]) = some w ∧
        w.clock = 157 ∧ w.host.clock = 1200 := by
    apply exists_of_any
    decide +kernel
  have received : ∀ action ∈ startUp ++ receive (ascii "12") ++ [.advance 100 0,
      .receiveUdp (ascii "10|a|2"), .message] ++ turns 8 ++ [.advance 100 0],
      ∀ tdf ∈ action.brings, tdf = .ofRat 2 := by decide +kernel
  refine ⟨w, ran, shown, passed, clock_behind_host 1 one_pos le_rfl ⟨7, 0⟩ ⟨1000, 0⟩ (by decide)
    _ ?_ w ran⟩
  intro action member tdf brought
  exact ⟨2, one_le_two, received action member tdf brought⟩

/-! ## Not back -/

/-- The clock shows at least a value, and is stopped when the factor is to be written. -/
structure StoppedToSet (value : ℤ) (s : SharedClock) : Prop where
  shows : Shows s.state value
  stopped : s.cycle = .setTdf → s.state.timers.cpuTicksEnabled = false

/-- Disabling stops the clock, also one that is stopped already. -/
theorem cpuDisableTicks_stopped (ts : TimersState) (tdf : LongDouble) (host : HostReading) :
    (ts.cpuDisableTicks tdf host).cpuTicksEnabled = false := by
  unfold cpuDisableTicks
  cases enabled : ts.cpuTicksEnabled <;> simp [enabled]

/-- **The clock stays stopped until the factor is written**, if it is not resumed there, and
so it is not set back. -/
theorem StoppedToSet.step {least : ℚ} {value : ℤ} {s next : SharedClock} {call : SharedCall}
    (kept : StoppedToSet value s) (within : call.Within least (· ≠ .setTdf) s)
    (stepped : sharedStep s call = some next) : StoppedToSet value next := by
  obtain ⟨shows, stopped⟩ := kept
  cases call with
  | cycleEnable host =>
      obtain ⟨⟨-, later⟩, rfl⟩ := Option.ite_some_none_eq_some.mp stepped
      refine ⟨shows.enable later, ?_⟩
      intro turn
      cases turn
  | cycleDisable host =>
      obtain ⟨⟨-, later⟩, rfl⟩ := Option.ite_some_none_eq_some.mp stepped
      exact ⟨shows.disable later, fun _ => cpuDisableTicks_stopped _ _ _⟩
  | cycleSetTdf tdf =>
      obtain ⟨⟨turn, positive⟩, rfl⟩ := Option.ite_some_none_eq_some.mp stepped
      refine ⟨shows.setTdf positive ?_, ?_⟩
      · intro enabled
        rw [stopped turn] at enabled
        cases enabled
      · intro turn
        cases turn
  | suspend host =>
      obtain ⟨later, rfl⟩ := Option.ite_some_none_eq_some.mp stepped
      exact ⟨shows.disable later, fun _ => cpuDisableTicks_stopped _ _ _⟩
  | resume host =>
      obtain ⟨later, rfl⟩ := Option.ite_some_none_eq_some.mp stepped
      exact ⟨shows.enable later, fun turn => absurd turn within⟩
  | read host =>
      obtain ⟨later, rfl⟩ := Option.ite_some_none_eq_some.mp stepped
      exact ⟨shows.advance later, stopped⟩

/-- The clock that matches the threads and shows at least a value leads to another such. -/
theorem StoppedToSet.run_of_meets {least : ℚ} {value : ℤ} {w next : World} {s : SharedClock}
    (positive : 0 < least) (kept : StoppedToSet value s) (clocked : Clocked least w s)
    {actions : List ThreadAction}
    (meets : Meets threadStep (FactorsFrom least (· ≠ .setTdf)) w actions)
    (ran : run threadStep w actions = some next) :
    ∃ after, StoppedToSet value after ∧ Clocked least next after := by
  obtain ⟨calls, after, called, clockedNext, within⟩ := clocked.run_of_meets positive meets ran
  refine ⟨after, ?_, clockedNext⟩
  exact run_invariant_of_meets _ (fun _ _ _ kept holds stepped => kept.step holds stepped)
    kept within called

/-- **What the threads' clock shows**, and a clock that keeps it. -/
theorem StoppedToSet.le_clock {least : ℚ} {value : ℤ} {w : World} {s : SharedClock}
    (kept : StoppedToSet value s) (clocked : Clocked least w s) :
    value ≤ w.clock ∧ ∃ after, StoppedToSet w.clock after ∧ Clocked least w after := by
  obtain ⟨shows, stopped⟩ := kept
  obtain ⟨⟨timers_eq, tdf_eq, now_le, cycle_eq⟩, unstarted, all⟩ := clocked
  have read := shows.read now_le
  rw [timers_eq, tdf_eq] at read
  exact ⟨read.1, { s with state := ⟨w.agent.timersState, w.agent.sharedTdf, w.host.clock⟩ },
    ⟨read.2, timers_eq ▸ stopped⟩, ⟨rfl, rfl, le_rfl, cycle_eq⟩, unstarted, all⟩

/-- **Virtual time does not go back.** In every interleaving of the threads and the
messages, if the factors received are positive numbers, and no Protocol-31 message is
performed between the cycle's disabling of the clock and its writing of the factor, the
clock shows no less at a later point of a run. -/
theorem clock_not_back (least : ℚ) (positive : 0 < least) (le_one : least ≤ 1)
    (created host : HostReading) (first second : List ThreadAction)
    (meets : Meets threadStep (FactorsFrom least (· ≠ .setTdf)) (World.initial created host)
      (first ++ second))
    (earlier later : World)
    (ranFirst : run threadStep (World.initial created host) first = some earlier)
    (ranSecond : run threadStep earlier second = some later) : earlier.clock ≤ later.clock := by
  obtain ⟨meetsFirst, meetsSecond⟩ := (meets_append ranFirst).mp meets
  have kept : StoppedToSet created.clock (SharedClock.initial created host.clock) :=
    ⟨shows_initial created host.clock, fun _ => rfl⟩
  obtain ⟨s, keptEarlier, clockedEarlier⟩ :=
    kept.run_of_meets positive (clocked_initial le_one created host) meetsFirst ranFirst
  obtain ⟨-, sampled, keptSampled, clockedSampled⟩ := keptEarlier.le_clock clockedEarlier
  obtain ⟨t, keptLater, clockedLater⟩ :=
    keptSampled.run_of_meets positive clockedSampled meetsSecond ranSecond
  exact (keptLater.le_clock clockedLater).1

instance (places : CyclePc → Prop) [DecidablePred places] (w : World) (action : ThreadAction) :
    Decidable (ResumesAt places w action) :=
  inferInstanceAs (Decidable
    (action = .message → w.io.head? = some .cpuEnableTicks → places w.vtPc.cycle))

/-- A suspension begins while the factor is raised, and ends after the iteration. -/
theorem clock_not_back_suspended :
    ∃ earlier later, run threadStep (World.initial ⟨7, 0⟩ ⟨1000, 0⟩)
        (startUp ++ receive (ascii "12") ++ [.advance 100 0, .receiveUdp (ascii "10|a|2"),
          .message] ++ turns 3) = some earlier ∧
      run threadStep earlier (receive (ascii "30") ++ [.message] ++ turns 7 ++
          receive (ascii "31") ++ [.message, .advance 60 0]) = some later ∧
      earlier.clock = 107 ∧ later.clock = 137 ∧ earlier.clock ≤ later.clock := by
  obtain ⟨earlier, ranFirst, shownFirst, rest⟩ :
      ∃ earlier, run threadStep (World.initial ⟨7, 0⟩ ⟨1000, 0⟩)
        (startUp ++ receive (ascii "12") ++ [.advance 100 0, .receiveUdp (ascii "10|a|2"),
          .message] ++ turns 3) = some earlier ∧ earlier.clock = 107 ∧
        (run threadStep earlier (receive (ascii "30") ++ [.message] ++ turns 7 ++
          receive (ascii "31") ++ [.message, .advance 60 0])).any
            (fun later => decide (later.clock = 137)) = true := by
    apply exists_of_any
    decide +kernel
  obtain ⟨later, ranSecond, shownSecond⟩ := exists_of_any rest
  have received : ∀ action ∈ (startUp ++ receive (ascii "12") ++ [.advance 100 0,
      .receiveUdp (ascii "10|a|2"), .message] ++ turns 3) ++ (receive (ascii "30") ++ [.message] ++
      turns 7 ++ receive (ascii "31") ++ [.message, .advance 60 0]),
      ∀ tdf ∈ action.brings, tdf = .ofRat 2 := by
    decide +kernel
  have factors : Meets threadStep (fun _ action => ∀ tdf ∈ action.brings, IsFactor 1 tdf)
      (World.initial ⟨7, 0⟩ ⟨1000, 0⟩) _ :=
    meets_of_forall (fun action member _ tdf brought =>
      ⟨2, one_le_two, received action member tdf brought⟩) _
  have outside : Meets threadStep (ResumesAt (· ≠ .setTdf)) (World.initial ⟨7, 0⟩ ⟨1000, 0⟩)
      ((startUp ++ receive (ascii "12") ++ [.advance 100 0,
      .receiveUdp (ascii "10|a|2"), .message] ++ turns 3) ++ (receive (ascii "30") ++ [.message] ++
      turns 7 ++ receive (ascii "31") ++ [.message, .advance 60 0])) := by
    decide +kernel
  exact ⟨earlier, later, ranFirst, ranSecond, shownFirst, shownSecond,
    clock_not_back 1 one_pos le_rfl ⟨7, 0⟩ ⟨1000, 0⟩ _ _ (factors.and outside) earlier later
      ranFirst ranSecond⟩

end VirtualAgent
