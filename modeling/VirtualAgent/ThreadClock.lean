import VirtualAgent.MonotoneClock
import VirtualAgent.Provenance

/-!
# The clock under the threads

Virtual time between two threads is described by calls on a clock, of which those of the
cycle come in turn. This module says that the threads of the agent are such calls:
whatever the order of their statements, the shared clock and the factor in shared memory
are what a sequence of calls makes of them (`threads_refine_sharedClock`). Every factor
the cycle writes is one received.

A call is one step. The functions take no lock, and what two calls leave that overlap is
not said here. The host's clock is one clock throughout, as it is once `init_clocks` has
chosen it.

What holds of the clock after any sequence of calls therefore holds under the threads.
-/

set_option autoImplicit false

namespace VirtualAgent

open ExactFloat CText Outcome Transition TimersState

/-- A factor that is a number, and one no less than the least. -/
def IsFactor (least : ℚ) (tdf : LongDouble) : Prop := ∃ q : ℚ, least ≤ q ∧ tdf = .ofRat q

/-- The next call of the virtual time thread on the clock. -/
def VtPc.cycle : VtPc → CyclePc
  | .notStarted | .enableAtStart | .updateInterfaceAttribute _ | .enable => .enable
  | .goAtStart | .test | .lock | .wait | .blocked _ | .disable | .go | .unlock | .finished =>
      .disable
  | .stop | .getLatestTdf | .setTdf _ => .setTdf

@[simp] theorem VtPc.notified_cycle (pc : VtPc) : pc.notified.cycle = pc.cycle := by
  cases pc <;> rfl

@[simp] theorem VtPc.afterPass_cycle (pc : PassPc) : (VtPc.afterPass pc).cycle = .enable := by
  cases pc <;> rfl

/-- A write of the factor writes one no less than the least, and a resumption comes at one
of the places of the cycle. -/
def SharedCall.Within (least : ℚ) (places : CyclePc → Prop) (s : SharedClock) :
    SharedCall → Prop
  | .cycleSetTdf tdf => least ≤ tdf
  | .resume _ => places s.cycle
  | _ => True

/-- A Protocol-31 message is performed while the virtual time thread is at one of the
places. -/
def ResumesAt (places : CyclePc → Prop) (w : World) (action : ThreadAction) : Prop :=
  action = .message → w.io.head? = some .cpuEnableTicks → places w.vtPc.cycle

/-! ## What a step does to the host -/

/-- The virtual time thread does not let time pass. -/
theorem virtualTime_host {w next : World} (stepped : w.virtualTime = some next) :
    next.host = w.host := by
  cases virtualTime_effect stepped with
  | _ => rfl

/-- **The clock of the host does not go back**, and only passing time moves it. -/
theorem host_le_of_step {w next : World} {action : ThreadAction}
    (stepped : threadStep w action = some next) : w.host.clock ≤ next.host.clock := by
  cases action with
  | advance elapsed ticks =>
      cases stepped
      exact le_add_of_nonneg_right (Int.natCast_nonneg elapsed)
  | receiveUdp msg | receiveTcp msg =>
      obtain ⟨-, rfl⟩ := Option.ite_some_none_eq_some.mp stepped
      exact le_rfl
  | message =>
      obtain ⟨statement, rest, agent, notified, -, -, -, rfl⟩ := message_eq_some.mp stepped
      exact le_rfl
  | virtualTime => exact (virtualTime_host stepped).symm ▸ le_rfl
  | main =>
      cases main_effect stepped with
      | _ => exact le_rfl
  | monitor =>
      obtain ⟨-, rfl⟩ := Option.ite_some_none_eq_some.mp stepped
      split <;> exact le_rfl
  | sigterm =>
      cases stepped
      exact le_rfl

/-! ## The simulation -/

/-- The clock is that of the threads, last used in the past, and the cycle is where the
virtual time thread is. -/
structure ClockOf (w : World) (s : SharedClock) : Prop where
  timers_eq : s.state.timers = w.agent.timersState
  tdf_eq : s.state.tdf = w.agent.sharedTdf
  now_le : s.state.now ≤ w.host.clock
  cycle_eq : s.cycle = w.vtPc.cycle

theorem clockOf_initial (created host : HostReading) :
    ClockOf (World.initial created host) (SharedClock.initial created host.clock) :=
  ⟨rfl, rfl, le_rfl, rfl⟩

/-- Calls on the clock lead from one that matches the threads before a step to one that
matches them after it. -/
def Matched (least : ℚ) (places : CyclePc → Prop) (s : SharedClock) (next : World) : Prop :=
  ∃ calls after, run sharedStep s calls = some after ∧ ClockOf next after ∧
    Meets sharedStep (SharedCall.Within least places) s calls

namespace ClockOf

variable {w next : World} {s : SharedClock} {least : ℚ} {places : CyclePc → Prop}

/-- A step without a call. -/
theorem idle (clockOf : ClockOf w s) (timers_eq : next.agent.timersState = w.agent.timersState)
    (tdf_eq : next.agent.sharedTdf = w.agent.sharedTdf) (later : w.host.clock ≤ next.host.clock)
    (cycle_eq : next.vtPc.cycle = w.vtPc.cycle) : Matched least places s next := by
  refine ⟨[], s, rfl, ⟨?_, ?_, clockOf.now_le.trans later, ?_⟩, trivial⟩
  · exact clockOf.timers_eq.trans timers_eq.symm
  · exact clockOf.tdf_eq.trans tdf_eq.symm
  · exact clockOf.cycle_eq.trans cycle_eq.symm

/-- A step that is one call. -/
theorem single (call : SharedCall) {after : SharedClock} (called : sharedStep s call = some after)
    (clockOf : ClockOf next after) (within : call.Within least places s) :
    Matched least places s next :=
  ⟨[call], after, run_cons_eq_some.mpr ⟨after, called, rfl⟩, clockOf, within,
    fun _ _ => trivial⟩

/-- A statement of a message is a suspension, a resumption, or nothing to the clock. -/
theorem message (clockOf : ClockOf w s) {statement : Statement} {rest : List Statement}
    {agent : Agent} {notified : Bool}
    (at_place : statement = .cpuEnableTicks → places w.vtPc.cycle)
    (executed : statement.exec w.agent w.host = .ok (agent, notified)) :
    Matched least places s { w with
      agent, io := rest, vtPc := if notified then w.vtPc.notified else w.vtPc } := by
  have timers := exec_timersState executed
  have shared := exec_sharedTdf executed
  have place : (if notified then w.vtPc.notified else w.vtPc).cycle = w.vtPc.cycle := by
    cases notified <;> simp
  cases statement with
  | cpuDisableTicks =>
      refine single (.suspend w.host) (if_pos clockOf.now_le) ?_ trivial
      refine ⟨?_, clockOf.tdf_eq.trans shared.symm, le_rfl, clockOf.cycle_eq.trans place.symm⟩
      rw [ClockState.disable, clockOf.timers_eq, clockOf.tdf_eq]
      exact timers.symm
  | cpuEnableTicks =>
      have allowed : (SharedCall.resume w.host).Within least places s :=
        show places s.cycle from clockOf.cycle_eq ▸ at_place rfl
      refine single (.resume w.host) (if_pos clockOf.now_le) ?_ allowed
      refine ⟨?_, clockOf.tdf_eq.trans shared.symm, le_rfl, clockOf.cycle_eq.trans place.symm⟩
      rw [ClockState.enable, clockOf.timers_eq]
      exact timers.symm
  | _ => exact clockOf.idle timers shared le_rfl place

/-- **A statement of the virtual time thread is the call that is the cycle's turn**, or
nothing to the clock. -/
theorem virtualTime (clockOf : ClockOf w s) (positive : 0 < least)
    (all : w.AllTdf (IsFactor least)) (stepped : w.virtualTime = some next) :
    Matched least places s next := by
  have turn := clockOf.cycle_eq
  cases virtualTime_effect stepped with
  | enableAtStart at_pc | enable at_pc =>
      rw [at_pc] at turn
      refine single (.cycleEnable w.host) (if_pos ⟨turn, clockOf.now_le⟩) ?_ trivial
      refine ⟨?_, clockOf.tdf_eq, le_rfl, rfl⟩
      rw [ClockState.enable, clockOf.timers_eq]
      rfl
  | disable at_pc =>
      rw [at_pc] at turn
      refine single (.cycleDisable w.host) (if_pos ⟨turn, clockOf.now_le⟩) ?_ trivial
      refine ⟨?_, clockOf.tdf_eq, le_rfl, rfl⟩
      rw [ClockState.disable, clockOf.timers_eq, clockOf.tdf_eq]
      rfl
  | setTdf newTdf at_pc =>
      rw [at_pc] at turn
      obtain ⟨q, least_le, rfl⟩ := all.read newTdf (by simp [at_pc, VtPc.holdsTdf])
      refine single (.cycleSetTdf q) (if_pos ⟨turn, positive.trans_le least_le⟩) ?_
        least_le
      exact ⟨clockOf.timers_eq, rfl, clockOf.now_le, rfl⟩
  | test at_pc =>
      refine clockOf.idle rfl rfl le_rfl ?_
      cases w.isRunning <;> simp [at_pc, VtPc.cycle]
  | updateInterfaceAttribute pc pc' ifaceAttrTable commands at_pc performed =>
      refine clockOf.idle rfl rfl le_rfl ?_
      rw [VtPc.afterPass_cycle, at_pc]
      rfl
  | goAtStart at_pc | lock at_pc | wait at_pc | woken at_pc | stop at_pc | getLatestTdf at_pc
  | go at_pc | unlock at_pc =>
      exact clockOf.idle rfl rfl le_rfl (by simp [at_pc, VtPc.cycle])

/-- **Every step of the threads is matched by calls on the clock.** -/
theorem step (clockOf : ClockOf w s) (unstarted : w.Unstarted) (positive : 0 < least)
    (all : w.AllTdf (IsFactor least)) {action : ThreadAction} (at_place : ResumesAt places w action)
    (stepped : threadStep w action = some next) : Matched least places s next := by
  have later := host_le_of_step stepped
  cases threadStep_effect stepped with
  | idle agent_eq vtPc_eq _ _ _ _ =>
      exact clockOf.idle (by rw [agent_eq]) (by rw [agent_eq]) later (by rw [vtPc_eq])
  | receivedUdp msg _ => exact clockOf.idle rfl rfl le_rfl rfl
  | receivedTcp msg _ => exact clockOf.idle rfl rfl le_rfl rfl
  | message statement rest agent notified io_eq _ executed =>
      refine clockOf.message ?_ executed
      rintro rfl
      exact at_place rfl (by rw [io_eq]; rfl)
  | virtualTime stepped => exact clockOf.virtualTime positive all stepped
  | started at_main =>
      exact clockOf.idle rfl rfl le_rfl (by rw [unstarted at_main]; rfl)
  | notified _ => exact clockOf.idle rfl rfl le_rfl (by simp)

end ClockOf

/-- The threads with their clock: the factors are numbers no less than the least, and the
virtual time thread is started before it does anything. -/
structure Clocked (least : ℚ) (w : World) (s : SharedClock) : Prop where
  clockOf : ClockOf w s
  unstarted : w.Unstarted
  all : w.AllTdf (IsFactor least)

theorem clocked_initial {least : ℚ} (le_one : least ≤ 1) (created host : HostReading) :
    Clocked least (World.initial created host) (SharedClock.initial created host.clock) :=
  ⟨clockOf_initial created host, unstarted_initial created host,
    allTdf_initial ⟨1, le_one, rfl⟩ created host⟩

/-- The factors received are numbers no less than the least, and Protocol-31 messages come
at the places. -/
def FactorsFrom (least : ℚ) (places : CyclePc → Prop) (w : World) (action : ThreadAction) :
    Prop :=
  (∀ tdf ∈ action.brings, IsFactor least tdf) ∧ ResumesAt places w action

/-- **A run of the threads is one of the clock**, wherever they start. -/
theorem Clocked.run_of_meets {least : ℚ} {places : CyclePc → Prop} {w next : World}
    {s : SharedClock} (positive : 0 < least) (clocked : Clocked least w s)
    {actions : List ThreadAction}
    (meets : Meets threadStep (FactorsFrom least places) w actions)
    (ran : run threadStep w actions = some next) :
    ∃ calls after, run sharedStep s calls = some after ∧ Clocked least next after ∧
      Meets sharedStep (SharedCall.Within least places) s calls := by
  refine exists_run_of_simulation (Clocked least) ?_ clocked meets ran
  rintro w s action next ⟨clockOf, unstarted, all⟩ ⟨brings, at_place⟩ stepped
  obtain ⟨calls, after, called, matched, within⟩ :=
    clockOf.step unstarted positive all at_place stepped
  exact ⟨calls, after, called, ⟨matched, unstarted.step stepped, all.step brings stepped⟩,
    within⟩

/-- **The threads refine the shared clock.** In every interleaving of the threads and the
messages in which the factors received are numbers from some positive one on, the clock
and the factor in shared memory are those after a sequence of calls in which the cycle's
calls come in turn and the clock of the host does not go back, the cycle writes only such
factors, and the clock is resumed by a message only at places of the cycle where one was
performed. -/
theorem threads_refine_sharedClock (least : ℚ) (places : CyclePc → Prop) (positive : 0 < least)
    (le_one : least ≤ 1) (created host : HostReading) (actions : List ThreadAction)
    (meets : Meets threadStep (FactorsFrom least places) (World.initial created host) actions)
    (w : World) (ran : run threadStep (World.initial created host) actions = some w) :
    ∃ calls s, run sharedStep (SharedClock.initial created host.clock) calls = some s ∧
      s.state.timers = w.agent.timersState ∧ s.state.tdf = w.agent.sharedTdf ∧
      s.state.now ≤ w.host.clock ∧ s.cycle = w.vtPc.cycle ∧
      Meets sharedStep (SharedCall.Within least places) (SharedClock.initial created host.clock)
        calls := by
  obtain ⟨calls, s, ranCalls, ⟨clockOf, -, -⟩, within⟩ :=
    (clocked_initial le_one created host).run_of_meets positive meets ran
  exact ⟨calls, s, ranCalls, clockOf.timers_eq, clockOf.tdf_eq, clockOf.now_le, clockOf.cycle_eq,
    within⟩

/-- A factor received is written by the cycle while a suspension is under way. -/
theorem threads_refine_sharedClock_suspended :
    ∃ w, run threadStep (World.initial ⟨7, 0⟩ ⟨1000, 0⟩)
        (startUp ++ receive (ascii "12") ++ [.advance 100 0, .receiveUdp (ascii "10|a|2"),
          .message] ++ turns 4 ++ receive (ascii "30") ++ turns 1) = some w ∧
      w.agent.sharedTdf = .ofRat 2 ∧
      ∃ calls s, run sharedStep (SharedClock.initial ⟨7, 0⟩ 1000) calls = some s ∧
        s.state.timers = w.agent.timersState ∧ s.state.tdf = w.agent.sharedTdf ∧
        s.state.now ≤ w.host.clock ∧ s.cycle = w.vtPc.cycle ∧
        Meets sharedStep (SharedCall.Within 1 fun _ => True) (SharedClock.initial ⟨7, 0⟩ 1000)
          calls := by
  obtain ⟨w, ran, shared⟩ :
      ∃ w, run threadStep (World.initial ⟨7, 0⟩ ⟨1000, 0⟩)
        (startUp ++ receive (ascii "12") ++ [.advance 100 0, .receiveUdp (ascii "10|a|2"),
          .message] ++ turns 4 ++ receive (ascii "30") ++ turns 1) = some w ∧
        w.agent.sharedTdf = .ofRat 2 := by
    apply exists_of_any
    decide +kernel
  have received : ∀ action ∈ startUp ++ receive (ascii "12") ++ [.advance 100 0,
      .receiveUdp (ascii "10|a|2"), .message] ++ turns 4 ++ receive (ascii "30") ++ turns 1,
      ∀ tdf ∈ action.brings, tdf = .ofRat 2 := by decide +kernel
  refine ⟨w, ran, shared, threads_refine_sharedClock 1 (fun _ => True) one_pos le_rfl ⟨7, 0⟩
    ⟨1000, 0⟩ _ (meets_of_forall ?_ _) w ran⟩
  intro action member s
  refine ⟨?_, fun _ _ => trivial⟩
  intro tdf brought
  exact ⟨2, one_le_two, received action member tdf brought⟩

end VirtualAgent
