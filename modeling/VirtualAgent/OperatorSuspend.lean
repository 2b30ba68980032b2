import VirtualAgent.LostUpdate

/-!
# An operator's suspend

Protocol-30 stops the virtual clock and the virtual hosts, and so does the update cycle
of the virtual time thread, which starts them again at its end whoever stopped them. So
a suspend is lost when a cycle is under way or follows (`suspend_then_enforceTdf`).

It stays in force as long as the thread has nothing to resume: the message comes while
the thread is between its resuming and its next wake-up, and no wake-up is delivered
while the suspend is under way or in force (`run_suspended`).
-/

set_option autoImplicit false

namespace VirtualAgent

open CText Outcome Transition

/-! ## The record and the condition -/

/-- A Protocol-30 message has been processed and no Protocol-31 message since. -/
def recordSuspend (w : World) (suspended : Bool) : ThreadAction → Bool
  | .message =>
      match w.io with
      | .semaphoreSetval .semStop :: _ => true
      | .cpuEnableTicks :: _ => false
      | _ => suspended
  | _ => suspended

/-- A Protocol-30 message is under way. -/
def World.Suspending (w : World) : Prop := .semaphoreSetval .semStop ∈ w.io

instance (w : World) : Decidable w.Suspending :=
  inferInstanceAs (Decidable (_ ∈ _))

/-- The thread resumes nothing until it is woken. -/
def VtPc.isQuiet : VtPc → Bool
  | .unlock | .test | .lock | .wait | .blocked false | .finished => true
  | _ => false

/-- Protocol-30 finds the thread quiet, and no wake-up is delivered to it while the
suspend is under way or in force. -/
def LeavesSuspended (s : World × Bool) : ThreadAction → Prop
  | .receiveTcp msg => parseTcpMsg msg = some .suspendVMs → s.1.vtPc.isQuiet = true
  | .message => s.2 = true →
      ∀ statement ∈ s.1.io.head?, statement.Adopts s.1.agent → s.1.vtPc.isBlocked = false
  | .main => s.2 = true ∨ s.1.Suspending → s.1.mainPc = .notify → s.1.vtPc.isBlocked = false
  | _ => True

instance (s : World × Bool) : DecidablePred (LeavesSuspended s)
  | .receiveTcp _ => inferInstanceAs (Decidable (_ = _ → _ = _))
  | .message =>
      inferInstanceAs (Decidable (s.2 = true →
        ∀ statement ∈ s.1.io.head?, statement.Adopts s.1.agent → _ = false))
  | .main => inferInstanceAs (Decidable (_ ∨ s.1.Suspending → _ = _ → _ = _))
  | .advance _ _ | .receiveUdp _ | .virtualTime | .monitor | .sigterm =>
      inferInstanceAs (Decidable True)

/-! ## The message under way -/

/-- The statement uses neither the clock nor the semaphore. -/
def Statement.isNeutral : Statement → Bool
  | .cpuDisableTicks | .cpuEnableTicks | .semaphoreSetval _ => false
  | _ => true

theorem onTimersState_of_isNeutral {statement : Statement}
    (neutral : statement.isNeutral = true) (tdf : ExactFloat.LongDouble) (host : HostReading)
    (ts : TimersState) : statement.onTimersState tdf host ts = ts := by
  cases statement <;> first | rfl | cases neutral

theorem onGostop_of_isNeutral {statement : Statement}
    (neutral : statement.isNeutral = true) (gostop : Gostop) :
    statement.onGostop gostop = gostop := by
  cases statement <;> first | rfl | cases neutral

/-- What can be left of a message, and what its first part has done. -/
inductive MessageUnderWay (a : Agent) (suspended : Bool) : List Statement → Prop where
  | suspend : MessageUnderWay a suspended [.cpuDisableTicks, .semaphoreSetval .semStop]
  | stop (disabled : a.timersState.cpuTicksEnabled = false) :
      MessageUnderWay a suspended [.semaphoreSetval .semStop]
  | resume : MessageUnderWay a suspended [.cpuEnableTicks, .semaphoreSetval .semGo]
  | go (released : suspended = false) : MessageUnderWay a suspended [.semaphoreSetval .semGo]
  | neutral {statements : List Statement}
      (neutral : ∀ statement ∈ statements, statement.isNeutral = true) :
      MessageUnderWay a suspended statements

theorem messageUnderWay_statementsOf (a : Agent) (suspended : Bool) (parsed : Option Message) :
    MessageUnderWay a suspended (statementsOf parsed) := by
  cases parsed with
  | none => exact .neutral (by simp [statementsOf])
  | some message =>
      cases message with
      | suspendVMs => exact .suspend
      | resumeVMs => exact .resume
      | _ => exact .neutral (by simp [statementsOf, Message.statements, Statement.isNeutral])

/-- A message of which the semaphore's stopping is left is a Protocol-30 message. -/
theorem suspendVMs_of_mem {parsed : Option Message}
    (member : Statement.semaphoreSetval .semStop ∈ statementsOf parsed) :
    parsed = some .suspendVMs := by
  cases parsed with
  | none => simp [statementsOf] at member
  | some message =>
      cases message with
      | suspendVMs => rfl
      | _ => simp [statementsOf, Message.statements] at member

/-- When only the semaphore is left to stop, another agent with a disabled clock will do. -/
theorem MessageUnderWay.congr {a b : Agent} {suspended : Bool} {statements : List Statement}
    (underWay : MessageUnderWay a suspended statements)
    (disabled : Statement.semaphoreSetval .semStop ∈ statements →
      b.timersState = a.timersState) : MessageUnderWay b suspended statements := by
  cases underWay with
  | suspend => exact .suspend
  | stop stopped => exact .stop (by rw [disabled (by simp), stopped])
  | resume => exact .resume
  | go released => exact .go released
  | neutral neutral => exact .neutral neutral

/-! ## The invariant -/

structure SuspendInvariant (s : World × Bool) : Prop where
  unstarted : s.1.Unstarted
  quiet : s.2 = true ∨ s.1.Suspending → s.1.vtPc.isQuiet = true
  inForce : s.2 = true →
    s.1.agent.timersState.cpuTicksEnabled = false ∧ s.1.agent.gostop = .semStop
  underWay : MessageUnderWay s.1.agent s.2 s.1.io

theorem suspendInvariant_initial (created host : HostReading) :
    SuspendInvariant (.initial created host, false) where
  unstarted := unstarted_initial created host
  quiet := by simp [World.Suspending, World.initial]
  inForce := by simp
  underWay := .neutral (by simp [World.initial])

section

variable {w next : World} {suspended : Bool}

theorem recordSuspend_of_ne_message {action : ThreadAction} (other : action ≠ .message) :
    recordSuspend w suspended action = suspended := by
  cases action <;> first | rfl | exact absurd rfl other

theorem SuspendInvariant.congr (invariant : SuspendInvariant (w, suspended))
    (agent_eq : next.agent = w.agent) (io_eq : next.io = w.io) (unstarted : next.Unstarted)
    (quiet : suspended = true ∨ w.Suspending → next.vtPc.isQuiet = true) :
    SuspendInvariant (next, suspended) := by
  refine ⟨unstarted, ?_, ?_, ?_⟩
  · rwa [World.Suspending, io_eq]
  · rw [agent_eq]
    exact invariant.inForce
  · rw [agent_eq, io_eq]
    exact invariant.underWay

/-- A message is received when none is under way. -/
theorem SuspendInvariant.receive (invariant : SuspendInvariant (w, suspended))
    (parsed : Option Message)
    (quiet : parsed = some .suspendVMs → w.vtPc.isQuiet = true) :
    SuspendInvariant ({ w with io := statementsOf parsed }, suspended) where
  unstarted := invariant.unstarted
  quiet := by
    rintro (active | suspending)
    · exact invariant.quiet (Or.inl active)
    · exact quiet (suspendVMs_of_mem suspending)
  inForce := invariant.inForce
  underWay := messageUnderWay_statementsOf w.agent suspended parsed

/-- A quiet thread touches nothing, and stays quiet. -/
theorem virtualTime_of_quiet (quiet : w.vtPc.isQuiet = true)
    (stepped : w.virtualTime = some next) :
    next.agent = w.agent ∧ next.vtPc.isQuiet = true := by
  cases virtualTime_effect stepped with
  | lock at_pc | wait at_pc | unlock at_pc => exact ⟨rfl, rfl⟩
  | test at_pc =>
      refine ⟨rfl, ?_⟩
      cases w.isRunning <;> rfl
  | setTdf newTdf at_pc =>
      rw [at_pc] at quiet
      cases quiet
  | updateInterfaceAttribute pc pc' ifaceAttrTable commands at_pc performed =>
      rw [at_pc] at quiet
      cases quiet
  | enableAtStart at_pc | goAtStart at_pc | woken at_pc | disable at_pc | stop at_pc
  | getLatestTdf at_pc | enable at_pc | go at_pc =>
      rw [at_pc] at quiet
      cases quiet

theorem SuspendInvariant.virtualTime (invariant : SuspendInvariant (w, suspended))
    (stepped : w.virtualTime = some next) (unstarted : next.Unstarted) :
    SuspendInvariant (next, suspended) := by
  obtain ⟨-, io_eq, -, -⟩ := virtualTime_frame stepped
  have suspending_iff : next.Suspending ↔ w.Suspending := by
    rw [World.Suspending, World.Suspending, io_eq]
  refine ⟨unstarted, ?_, ?_, ?_⟩
  · intro active
    have active' : suspended = true ∨ w.Suspending := active.imp_right suspending_iff.mp
    exact (virtualTime_of_quiet (invariant.quiet active') stepped).2
  · intro inForce
    rw [(virtualTime_of_quiet (invariant.quiet (Or.inl inForce)) stepped).1]
    exact invariant.inForce inForce
  · rw [io_eq]
    refine invariant.underWay.congr ?_
    intro suspending
    rw [(virtualTime_of_quiet (invariant.quiet (Or.inr suspending)) stepped).1]

/-- **A statement of a message keeps the invariant**: Protocol-30 establishes the
suspend, Protocol-31 ends it, and the others notify no thread meanwhile. -/
theorem SuspendInvariant.message (invariant : SuspendInvariant (w, suspended))
    {statement : Statement} {rest : List Statement} {agent : Agent} {notified : Bool}
    (io_eq : w.io = statement :: rest)
    (executed : statement.exec w.agent w.host = .ok (agent, notified))
    (leaves : LeavesSuspended (w, suspended) .message)
    (unstarted : World.Unstarted { w with
      agent, io := rest, vtPc := if notified then w.vtPc.notified else w.vtPc }) :
    SuspendInvariant ({ w with
        agent, io := rest, vtPc := if notified then w.vtPc.notified else w.vtPc },
      recordSuspend w suspended .message) := by
  have quiet := invariant.quiet
  have inForce := invariant.inForce
  have underWay := invariant.underWay
  unfold World.Suspending at quiet
  rw [io_eq] at quiet underWay
  cases underWay with
  | suspend =>
      cases executed
      refine ⟨unstarted, fun _ => quiet (Or.inr (by simp)), ?_, ?_⟩
      · intro active
        have active' : suspended = true := by simpa [recordSuspend, io_eq] using active
        exact ⟨by simp [Agent.cpuDisableTicks], (inForce active').2⟩
      · exact .stop (by simp [Agent.cpuDisableTicks])
  | stop disabled =>
      cases executed
      exact ⟨unstarted, fun _ => quiet (Or.inr (by simp)), fun _ => ⟨disabled, rfl⟩,
        .neutral (by simp)⟩
  | resume =>
      cases executed
      have released : recordSuspend w suspended .message = false := by
        simp [recordSuspend, io_eq]
      rw [released]
      exact ⟨unstarted, by simp [World.Suspending], by simp, .go rfl⟩
  | go released =>
      cases executed
      have kept : recordSuspend w suspended .message = false := by
        simpa [recordSuspend, io_eq] using released
      rw [kept]
      exact ⟨unstarted, by simp [World.Suspending], by simp, .neutral (by simp)⟩
  | neutral neutral =>
      have here := neutral statement List.mem_cons_self
      have later : ∀ other ∈ rest, other.isNeutral = true := by
        intro other member
        exact neutral other (List.mem_cons_of_mem _ member)
      have kept : recordSuspend w suspended .message = suspended := by
        cases statement <;> simp_all [recordSuspend, Statement.isNeutral]
      rw [kept]
      refine ⟨unstarted, ?_, ?_, .neutral later⟩
      · rintro (active | suspending)
        · change suspended = true at active
          cases notified with
          | false => exact quiet (Or.inl active)
          | true =>
              have free := leaves active statement (by simp [io_eq]) (adopts_of_notified executed)
              change w.vtPc.isBlocked = false at free
              simpa [VtPc.notified_of_not_blocked free] using quiet (Or.inl active)
        · have := later _ suspending
          cases this
      · intro active
        change agent.timersState.cpuTicksEnabled = false ∧ agent.gostop = .semStop
        rw [exec_timersState executed, exec_gostop executed, onTimersState_of_isNeutral here,
          onGostop_of_isNeutral here]
        exact inForce active

/-- **A step keeps the invariant.** -/
theorem SuspendInvariant.step {s t : World × Bool} {action : ThreadAction}
    (invariant : SuspendInvariant s) (leaves : LeavesSuspended s action)
    (stepped : withHistory threadStep recordSuspend s action = some t) : SuspendInvariant t := by
  obtain ⟨w, suspended⟩ := s
  obtain ⟨next, recorded⟩ := t
  obtain ⟨stepped, rfl⟩ := withHistory_eq_some.mp stepped
  have unstarted := invariant.unstarted.step stepped
  cases threadStep_effect stepped with
  | idle agent_eq vtPc_eq io_eq before noMessage _ =>
      rw [recordSuspend_of_ne_message noMessage]
      exact invariant.congr agent_eq io_eq unstarted fun active => by
        rw [vtPc_eq]
        exact invariant.quiet active
  | receivedUdp msg empty =>
      refine invariant.receive _ ?_
      intro suspend
      exact absurd suspend (parseUdpMsg_ne_suspendVMs msg)
  | receivedTcp msg empty => exact invariant.receive _ leaves
  | message statement rest agent notified io_eq free executed =>
      exact invariant.message io_eq executed leaves unstarted
  | virtualTime stepped => exact invariant.virtualTime stepped unstarted
  | started at_main =>
      have notStarted := invariant.unstarted at_main
      refine invariant.congr rfl rfl unstarted ?_
      intro active
      have quiet := invariant.quiet active
      change w.vtPc = .notStarted at notStarted
      change w.vtPc.isQuiet = true at quiet
      simp [notStarted, VtPc.isQuiet] at quiet
  | notified at_main =>
      refine invariant.congr rfl rfl unstarted ?_
      intro active
      have free := leaves active at_main
      change w.vtPc.isBlocked = false at free
      simpa [VtPc.notified_of_not_blocked free] using invariant.quiet active

end

/-- **A suspend stays in force** when Protocol-30 finds the virtual time thread quiet
and no wake-up is delivered to it meanwhile: the virtual clock is disabled and the
semaphore holds `SEMSTOP`, blocked or not. -/
theorem run_suspended (created host : HostReading) (actions : List ThreadAction) (w : World)
    (leaves : Meets (withHistory threadStep recordSuspend) LeavesSuspended
      (.initial created host, false) actions)
    (ran : run (withHistory threadStep recordSuspend) (.initial created host, false) actions =
      some (w, true)) :
    w.agent.timersState.cpuTicksEnabled = false ∧ w.agent.gostop = .semStop :=
  (run_invariant_of_meets SuspendInvariant
    (fun _ _ _ invariant leaves stepped => invariant.step leaves stepped)
    (suspendInvariant_initial created host) leaves ran).inForce rfl

theorem run_suspended_quiet :
    ∃ w : World, w.vtPc.isBlocked = true ∧
      w.agent.timersState.cpuTicksEnabled = false ∧ w.agent.gostop = .semStop := by
  have computed : (run (withHistory threadStep recordSuspend) (.initial ⟨0, 0⟩ ⟨1, 1⟩, false)
      (startUp ++ receive (ascii "30") ++ [.message])).any (fun s =>
        s.2 = true ∧ s.1.vtPc.isBlocked = true) = true := by
    decide +kernel
  obtain ⟨⟨w, suspended⟩, ran, values⟩ := exists_of_any computed
  obtain ⟨rfl, blocked⟩ : suspended = true ∧ w.vtPc.isBlocked = true := values
  exact ⟨w, blocked, run_suspended _ _ _ w (by decide +kernel) ran⟩

/-- A factor imposed after a suspend ends it. -/
theorem suspend_then_enforceTdf :
    ∃ w, run (withHistory threadStep recordSuspend) (.initial ⟨0, 0⟩ ⟨1, 1⟩, false)
        (startUp ++ receive (ascii "30") ++ [.message] ++ receive (ascii "11|2") ++ turns 13)
          = some (w, true) ∧
      w.vtPc = .blocked false ∧ w.agent.timersState.cpuTicksEnabled = true ∧
      w.agent.gostop = .semGo := by
  have computed : (run (withHistory threadStep recordSuspend) (.initial ⟨0, 0⟩ ⟨1, 1⟩, false)
      (startUp ++ receive (ascii "30") ++ [.message] ++ receive (ascii "11|2") ++ turns 13)).any
        (fun s => s.2 = true ∧ s.1.vtPc = .blocked false ∧
          s.1.agent.timersState.cpuTicksEnabled = true ∧ s.1.agent.gostop = .semGo) = true := by
    decide +kernel
  obtain ⟨⟨w, suspended⟩, ran, values⟩ := exists_of_any computed
  obtain ⟨rfl, resumed⟩ : suspended = true ∧ w.vtPc = .blocked false ∧
    w.agent.timersState.cpuTicksEnabled = true ∧ w.agent.gostop = .semGo :=
    values
  exact ⟨w, ran, resumed⟩

end VirtualAgent
