import VirtualAgent.Threads

/-!
# Shutdown

A SIGTERM clears `isRunning`, the monitor leaves its loop, and the main thread then
notifies the virtual time thread once, without the mutex, and waits for it to end. The
virtual time thread tests `isRunning` before it locks the mutex and waits. A notification
between the test and the wait wakes nobody, and the thread blocks for good
(`notify_before_wait`).

`run_not_stranded` says that this is the only way: when the main thread notifies while
the virtual time thread is not between its test and its wait, that thread is not left
blocked. What carries the argument is that past the notification the flag is clear, so
the thread does not go into another wait.
-/

set_option autoImplicit false

namespace VirtualAgent

open ExactFloat CText Outcome Transition

/-- The main thread has notified and waits for the virtual time thread, which is in its
wait with no wake-up delivered. -/
def World.Stranded (w : World) : Prop :=
  w.isRunning = false ∧ w.mainPc = .joinVirtualTime ∧ w.vtPc = .blocked false

instance (w : World) : Decidable w.Stranded :=
  inferInstanceAs (Decidable (_ = _ ∧ _ = _ ∧ _ = _))

/-- The thread has tested `isRunning` and is not in its wait yet. -/
def VtPc.isBetween : VtPc → Bool
  | .lock | .wait => true
  | _ => false

/-- The main thread does not notify while the virtual time thread is between its test
and its wait. -/
def NotifiesOutside (w : World) : ThreadAction → Prop
  | .main => w.mainPc = .notify → w.vtPc.isBetween = false
  | _ => True

instance (w : World) : DecidablePred (NotifiesOutside w)
  | .main => inferInstanceAs (Decidable (_ = _ → _ = _))
  | .advance _ _ | .receiveUdp _ | .receiveTcp _ | .message | .virtualTime | .monitor
  | .sigterm => inferInstanceAs (Decidable True)

/-- The main thread is past the end of the monitor. -/
def MainPc.isPastMonitor : MainPc → Bool
  | .notify | .joinVirtualTime | .stopped => true
  | _ => false

/-- The main thread is past its notification. -/
def MainPc.isPastNotify : MainPc → Bool
  | .joinVirtualTime | .stopped => true
  | _ => false

/-- The thread needs a notification that is still to come. -/
def VtPc.needsNotify : VtPc → Bool
  | .lock | .wait | .blocked false => true
  | _ => false

/-- The order of the shutdown. -/
structure ShutdownOrder (w : World) : Prop where
  monitor : w.monitorPc = .finished → w.isRunning = false
  joined : w.mainPc.isPastMonitor = true → w.monitorPc = .finished
  notified : w.mainPc.isPastNotify = true → w.vtPc.needsNotify = false

namespace ShutdownOrder

variable {w next : World}

theorem isRunning (order : ShutdownOrder w) (past : w.mainPc.isPastMonitor = true) :
    w.isRunning = false := order.monitor (order.joined past)

theorem isPastMonitor_of_isPastNotify {pc : MainPc} (past : pc.isPastNotify = true) :
    pc.isPastMonitor = true := by
  cases pc <;> first | rfl | cases past

/-- Until the main thread has joined the monitor, only the monitor's end counts. -/
theorem of_not_isPastMonitor (monitor : w.monitorPc = .finished → w.isRunning = false)
    (before : w.mainPc.isPastMonitor = false) : ShutdownOrder w where
  monitor := monitor
  joined := by
    intro past
    rw [before] at past
    cases past
  notified := by
    intro past
    rw [isPastMonitor_of_isPastNotify past] at before
    cases before

theorem initial (created host : HostReading) : ShutdownOrder (.initial created host) := by
  refine of_not_isPastMonitor ?_ rfl
  intro impossible
  cases impossible

/-- A notification does not make the thread need another one. -/
theorem needsNotify_notified {pc : VtPc} (free : pc.needsNotify = false) :
    pc.notified.needsNotify = false := by
  cases pc with
  | blocked woken => rfl
  | _ => exact free

/-- Outside of the stretch from the test to the wait a notification is enough. -/
theorem needsNotify_of_notified {pc : VtPc} (outside : pc.isBetween = false) :
    pc.notified.needsNotify = false := by
  cases pc with
  | lock => cases outside
  | wait => cases outside
  | _ => rfl

/-- Steps that leave the flag, the main thread and the monitor alone. -/
theorem congr (order : ShutdownOrder w) (isRunning_eq : next.isRunning = w.isRunning)
    (mainPc_eq : next.mainPc = w.mainPc) (monitorPc_eq : next.monitorPc = w.monitorPc)
    (vtPc : w.mainPc.isPastNotify = true → next.vtPc.needsNotify = false) :
    ShutdownOrder next := by
  refine ⟨?_, ?_, ?_⟩
  · rw [isRunning_eq, monitorPc_eq]
    exact order.monitor
  · rw [mainPc_eq, monitorPc_eq]
    exact order.joined
  · rw [mainPc_eq]
    exact vtPc

/-- **With the flag clear the virtual time thread goes into no other wait.** -/
theorem virtualTime (order : ShutdownOrder w) (stepped : w.virtualTime = some next) :
    ShutdownOrder next := by
  have frame : next.isRunning = w.isRunning ∧ next.mainPc = w.mainPc ∧
      next.monitorPc = w.monitorPc ∧
      (w.isRunning = false → w.vtPc.needsNotify = false → next.vtPc.needsNotify = false) := by
    cases virtualTime_effect stepped with
    | test at_pc =>
        refine ⟨rfl, rfl, rfl, ?_⟩
        intro stopped _
        simp [stopped, VtPc.needsNotify]
    | lock at_pc | wait at_pc =>
        refine ⟨rfl, rfl, rfl, ?_⟩
        intro _ impossible
        rw [at_pc] at impossible
        cases impossible
    | updateInterfaceAttribute pc pc' ifaceAttrTable commands at_pc performed =>
        refine ⟨rfl, rfl, rfl, fun _ _ => ?_⟩
        cases pc' <;> rfl
    | _ => exact ⟨rfl, rfl, rfl, fun _ _ => rfl⟩
  obtain ⟨isRunning_eq, mainPc_eq, monitorPc_eq, onward⟩ := frame
  refine order.congr isRunning_eq mainPc_eq monitorPc_eq ?_
  intro past
  exact onward (order.isRunning (isPastMonitor_of_isPastNotify past)) (order.notified past)

/-- The main thread keeps the order when it notifies outside. -/
theorem main (order : ShutdownOrder w)
    (outside : w.mainPc = .notify → w.vtPc.isBetween = false)
    (stepped : w.main = some next) : ShutdownOrder next := by
  cases main_effect stepped with
  | startVirtualTime at_main =>
      exact of_not_isPastMonitor order.monitor rfl
  | startCpuMonitor at_main =>
      refine of_not_isPastMonitor ?_ rfl
      intro impossible
      cases impossible
  | joinCpuMonitor at_main finished =>
      refine ⟨order.monitor, fun _ => finished, ?_⟩
      intro impossible
      cases impossible
  | notify at_main =>
      refine ⟨order.monitor, fun _ => order.joined ?_, fun _ => ?_⟩
      · rw [at_main]
        rfl
      · exact needsNotify_of_notified (outside at_main)
  | joinVirtualTime at_main finished =>
      refine ⟨order.monitor, fun _ => order.joined ?_, fun _ => ?_⟩
      · rw [at_main]
        rfl
      · simp [finished, VtPc.needsNotify]

/-- **Each step keeps the order.** -/
theorem step {action : ThreadAction} (order : ShutdownOrder w)
    (outside : NotifiesOutside w action) (stepped : threadStep w action = some next) :
    ShutdownOrder next := by
  cases action with
  | advance elapsed ticks =>
      cases stepped
      exact ⟨order.monitor, order.joined, order.notified⟩
  | receiveUdp msg =>
      obtain ⟨-, rfl⟩ := Option.ite_some_none_eq_some.mp stepped
      exact ⟨order.monitor, order.joined, order.notified⟩
  | receiveTcp msg =>
      obtain ⟨-, rfl⟩ := Option.ite_some_none_eq_some.mp stepped
      exact ⟨order.monitor, order.joined, order.notified⟩
  | message =>
      obtain ⟨statement, rest, agent, notified, -, -, -, rfl⟩ := message_eq_some.mp stepped
      refine order.congr rfl rfl rfl ?_
      intro past
      cases notified with
      | false => exact order.notified past
      | true => exact needsNotify_notified (order.notified past)
  | virtualTime => exact order.virtualTime stepped
  | main => exact order.main outside stepped
  | monitor =>
      obtain ⟨-, rfl⟩ := Option.ite_some_none_eq_some.mp stepped
      cases running : w.isRunning with
      | true => exact order
      | false => exact ⟨fun _ => rfl, fun _ => rfl, order.notified⟩
  | sigterm =>
      cases stepped
      exact ⟨fun _ => rfl, order.joined, order.notified⟩

end ShutdownOrder

/-- **When the main thread notifies while the virtual time thread is not between its test
and its wait, the shutdown strands nobody**, in any interleaving. -/
theorem run_not_stranded (created host : HostReading) (actions : List ThreadAction) (w : World)
    (outside : Meets threadStep NotifiesOutside (.initial created host) actions)
    (ran : run threadStep (.initial created host) actions = some w) : ¬ w.Stranded := by
  have order := run_invariant_of_meets ShutdownOrder
    (fun w action next order outside stepped => order.step outside stepped)
    (.initial created host) outside ran
  rintro ⟨-, joining, blocked⟩
  have notified := order.notified (by rw [joining]; rfl)
  rw [blocked] at notified
  cases notified

/-- A SIGTERM while the thread is in its wait. -/
def sigtermInWait : List ThreadAction :=
  startUp ++ [.main, .sigterm, .monitor, .main, .main] ++ turns 1

theorem run_not_stranded_in_wait :
    ∃ w, run threadStep (.initial ⟨0, 0⟩ ⟨1, 1⟩) sigtermInWait = some w ∧
      w.mainPc = .joinVirtualTime ∧ w.vtPc = .disable ∧ ¬ w.Stranded := by
  have computed : (run threadStep (.initial ⟨0, 0⟩ ⟨1, 1⟩) sigtermInWait).any
      (fun w => w.mainPc = .joinVirtualTime ∧ w.vtPc = .disable) = true := by
    decide +kernel
  obtain ⟨w, ran, joining, awake⟩ := exists_of_any computed
  exact ⟨w, ran, joining, awake, run_not_stranded _ _ _ w (by decide +kernel) ran⟩

/-- Past the test, a notification is missed: the thread blocks on its next two steps. -/
theorem stranded_of_missed_notify {w : World} (stopping : w.isRunning = false)
    (at_main : w.mainPc = .notify) (between : w.vtPc.isBetween = true) :
    ∃ count next, run threadStep w (.main :: turns count) = some next ∧ next.Stranded := by
  have notified : threadStep w .main =
      some { w with vtPc := w.vtPc, mainPc := .joinVirtualTime } := by
    have kept : w.vtPc.notified = w.vtPc := by
      cases at_pc : w.vtPc with
      | lock | wait => rfl
      | _ => simp [at_pc, VtPc.isBetween] at between
    show w.main = _
    simp [World.main, at_main, kept]
  cases at_pc : w.vtPc with
  | lock =>
      refine ⟨2, { w with mainPc := .joinVirtualTime, vtPc := .blocked false },
        run_cons_eq_some.mpr ⟨_, notified, ?_⟩, stopping, rfl, rfl⟩
      simp [turns, run, threadStep, World.virtualTime, at_pc]
  | wait =>
      refine ⟨1, { w with mainPc := .joinVirtualTime, vtPc := .blocked false },
        run_cons_eq_some.mpr ⟨_, notified, ?_⟩, stopping, rfl, rfl⟩
      simp [turns, run, threadStep, World.virtualTime, at_pc]
  | _ => simp [at_pc, VtPc.isBetween] at between

/-- A SIGTERM when the thread has tested the flag. -/
def sigtermAfterTest : List ThreadAction :=
  .main :: turns 3 ++ [.main, .sigterm, .monitor, .main, .main] ++ turns 2

/-- **A notification between the test and the wait strands the thread.** -/
theorem notify_before_wait :
    ∃ w, run threadStep (.initial ⟨0, 0⟩ ⟨1, 1⟩) sigtermAfterTest = some w ∧ w.Stranded := by
  apply exists_of_any
  decide +kernel

end VirtualAgent
