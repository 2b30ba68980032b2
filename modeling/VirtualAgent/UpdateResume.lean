import VirtualAgent.Threads

/-!
# Resuming after an update

The update cycle stops the virtual hosts and starts them again, each only if suspensions
are enabled when it comes to it. The messages that enable and disable suspensions take
no lock, so one of them can fall between the two tests, and the cycle then leaves the
hosts stopped (`disable_between_stop_and_go`).

Without Protocol-30 messages this is the only way: when a cycle that found suspensions
enabled at its stop finds them enabled at its go, the clock runs and the hosts go
whenever the thread waits (`run_resumed`).
-/

set_option autoImplicit false

namespace VirtualAgent

open CText Outcome Transition

/-! ## The record and the condition -/

/-- The cycle found suspensions enabled at its stop. -/
def recordStop (w : World) (stopped : Bool) : ThreadAction → Bool
  | .virtualTime =>
      match w.vtPc with
      | .stop => w.agent.configuration.isVMSuspensionsEnabled
      | _ => stopped
  | _ => stopped

/-- A cycle that stopped the hosts finds suspensions enabled at its go. -/
def GoesAfterStop (s : World × Bool) : ThreadAction → Prop
  | .virtualTime => s.1.vtPc = .go → s.2 = true →
      s.1.agent.configuration.isVMSuspensionsEnabled = true
  | _ => True

instance (s : World × Bool) : DecidablePred (GoesAfterStop s)
  | .virtualTime => inferInstanceAs (Decidable (_ = _ → _ = _ → _ = _))
  | .advance _ _ | .receiveUdp _ | .receiveTcp _ | .message | .main | .monitor | .sigterm =>
      inferInstanceAs (Decidable True)

/-- The message received is not Protocol-30. -/
def ThreadAction.NoSuspend : ThreadAction → Prop
  | .receiveTcp msg => parseTcpMsg msg ≠ some .suspendVMs
  | _ => True

instance : DecidablePred ThreadAction.NoSuspend
  | .receiveTcp _ => inferInstanceAs (Decidable (_ ≠ _))
  | .advance _ _ | .receiveUdp _ | .message | .virtualTime | .main | .monitor | .sigterm =>
      inferInstanceAs (Decidable True)

/-! ## The invariant -/

/-- The statement stops the clock or the hosts. -/
def Statement.stops : Statement → Bool
  | .cpuDisableTicks | .semaphoreSetval .semStop => true
  | _ => false

theorem not_stops_of_mem {parsed : Option Message} (noSuspend : parsed ≠ some .suspendVMs)
    {statement : Statement} (member : statement ∈ statementsOf parsed) :
    statement.stops = false := by
  cases parsed with
  | none => simp [statementsOf] at member
  | some message =>
      cases message with
      | suspendVMs => exact absurd rfl noSuspend
      | configure settings =>
          obtain ⟨setting, -, rfl⟩ := List.mem_map.mp member
          rfl
      | resumeVMs =>
          simp [statementsOf, Message.statements] at member
          rcases member with rfl | rfl <;> rfl
      | changeInterface ifaceName rate delay =>
          simp [statementsOf, Message.statements] at member
          rcases member with rfl | rfl <;> rfl
      | replaceInterface ifaceName rate delay =>
          simp [statementsOf, Message.statements] at member
          rcases member with rfl | rfl <;> rfl
      | _ =>
          obtain rfl := List.mem_singleton.mp member
          rfl

/-- The thread has enabled the clock, and not disabled it since. -/
def VtPc.clockRuns : VtPc → Bool
  | .goAtStart | .test | .lock | .wait | .blocked _ | .disable | .go | .unlock | .finished => true
  | _ => false

/-- The thread has set the semaphore to go, and is not at its stop yet. -/
def VtPc.hostsGo : VtPc → Bool
  | .test | .lock | .wait | .blocked _ | .disable | .stop | .unlock | .finished => true
  | _ => false

/-- The thread is between its stop and its go. -/
def VtPc.inUpdate : VtPc → Bool
  | .getLatestTdf | .setTdf _ | .updateInterfaceAttribute _ | .enable | .go => true
  | _ => false

@[simp] theorem VtPc.notified_clockRuns (pc : VtPc) : pc.notified.clockRuns = pc.clockRuns := by
  cases pc <;> rfl

@[simp] theorem VtPc.notified_hostsGo (pc : VtPc) : pc.notified.hostsGo = pc.hostsGo := by
  cases pc <;> rfl

@[simp] theorem VtPc.notified_inUpdate (pc : VtPc) : pc.notified.inUpdate = pc.inUpdate := by
  cases pc <;> rfl

structure ResumeInvariant (s : World × Bool) : Prop where
  clock : s.1.vtPc.clockRuns = true → s.1.agent.timersState.cpuTicksEnabled = true
  hosts : s.1.vtPc.hostsGo = true → s.1.agent.gostop = .semGo
  update : s.1.vtPc.inUpdate = true → s.2 = false → s.1.agent.gostop = .semGo
  io : ∀ statement ∈ s.1.io, statement.stops = false

theorem resumeInvariant_initial (created host : HostReading) :
    ResumeInvariant (.initial created host, false) where
  clock := by simp [World.initial, VtPc.clockRuns]
  hosts := by simp [World.initial, VtPc.hostsGo]
  update := by simp [World.initial, VtPc.inUpdate]
  io := by simp [World.initial]

section

variable {w next : World} {stopped : Bool}

/-- What leaves a running clock running and going hosts going, with the virtual time
thread at its place or woken there, keeps the invariant. -/
theorem ResumeInvariant.congr (invariant : ResumeInvariant (w, stopped))
    (clock : w.agent.timersState.cpuTicksEnabled = true →
      next.agent.timersState.cpuTicksEnabled = true)
    (hosts : w.agent.gostop = .semGo → next.agent.gostop = .semGo)
    (place : next.vtPc = w.vtPc ∨ next.vtPc = w.vtPc.notified)
    (io : ∀ statement ∈ next.io, statement.stops = false) :
    ResumeInvariant (next, stopped) := by
  have runs : next.vtPc.clockRuns = w.vtPc.clockRuns := by
    rcases place with same | woken <;> simp [*]
  have go : next.vtPc.hostsGo = w.vtPc.hostsGo := by
    rcases place with same | woken <;> simp [*]
  have within : next.vtPc.inUpdate = w.vtPc.inUpdate := by
    rcases place with same | woken <;> simp [*]
  exact ⟨fun at_pc => clock (invariant.clock (runs ▸ at_pc)),
    fun at_pc => hosts (invariant.hosts (go ▸ at_pc)),
    fun at_pc skipped => hosts (invariant.update (within ▸ at_pc) skipped), io⟩

/-- Outside of the stretch from the stop to the go, all is well with the clock running and
the hosts going. -/
theorem ResumeInvariant.of_outside (clock : w.agent.timersState.cpuTicksEnabled = true)
    (hosts : w.agent.gostop = .semGo) (outside : w.vtPc.inUpdate = false)
    (io : ∀ statement ∈ w.io, statement.stops = false) : ResumeInvariant (w, stopped) := by
  refine ⟨fun _ => clock, fun _ => hosts, ?_, io⟩
  intro within
  rw [outside] at within
  cases within

/-- While the thread has stopped the clock and may have stopped the hosts, only the hosts
it has not stopped count. -/
theorem ResumeInvariant.of_stopped (still : w.vtPc.clockRuns = false)
    (notYet : w.vtPc.hostsGo = false) (hosts : stopped = false → w.agent.gostop = .semGo)
    (io : ∀ statement ∈ w.io, statement.stops = false) : ResumeInvariant (w, stopped) := by
  refine ⟨?_, ?_, fun _ => hosts, io⟩
  · intro runs
    rw [still] at runs
    cases runs
  · intro go
    rw [notYet] at go
    cases go

/-- **The virtual time thread resumes what it stopped.** -/
theorem ResumeInvariant.virtualTime (invariant : ResumeInvariant (w, stopped))
    (goes : GoesAfterStop (w, stopped) .virtualTime) (stepped : w.virtualTime = some next) :
    ResumeInvariant (next, recordStop w stopped .virtualTime) := by
  obtain ⟨clock, hosts, update, io⟩ := invariant
  have io' : ∀ statement ∈ next.io, statement.stops = false :=
    (virtualTime_frame stepped).2.1 ▸ io
  unfold recordStop
  cases virtualTime_effect stepped with
  | updateInterfaceAttribute pc pc' ifaceAttrTable commands at_pc performed =>
      simp only [at_pc] at update ⊢
      refine .of_stopped ?_ ?_ (update rfl) io'
      · cases pc' <;> rfl
      · cases pc' <;> rfl
  | go at_pc =>
      simp only [at_pc] at clock update ⊢
      refine .of_outside (clock rfl) ?_ rfl io'
      cases enabled : w.agent.configuration.isVMSuspensionsEnabled with
      | true => rfl
      | false =>
          -- suspensions are not enabled, so the cycle has not stopped the hosts
          cases stopped with
          | true => exact Bool.noConfusion (enabled.symm.trans (goes at_pc rfl))
          | false => exact update rfl rfl
  | stop at_pc =>
      simp only [at_pc] at hosts ⊢
      refine .of_stopped rfl rfl ?_ io'
      intro skipped
      change w.agent.configuration.isVMSuspensionsEnabled = false at skipped
      simpa [skipped] using hosts rfl
  | test at_pc =>
      simp only [at_pc] at clock hosts ⊢
      cases running : w.isRunning with
      | true => exact .of_outside (clock rfl) (hosts rfl) rfl io'
      | false => exact .of_outside (clock rfl) (hosts rfl) rfl io'
  | woken at_pc | lock at_pc | wait at_pc | unlock at_pc =>
      simp only [at_pc] at clock hosts ⊢
      exact .of_outside (clock rfl) (hosts rfl) rfl io'
  | enableAtStart at_pc =>
      simp only [at_pc]
      exact ⟨by simp [Agent.cpuEnableTicks], by simp [VtPc.hostsGo], by simp [VtPc.inUpdate], io'⟩
  | goAtStart at_pc =>
      simp only [at_pc] at clock ⊢
      exact .of_outside (clock rfl) rfl rfl io'
  | disable at_pc =>
      simp only [at_pc] at hosts ⊢
      exact ⟨by simp [VtPc.clockRuns], fun _ => hosts rfl, by simp [VtPc.inUpdate], io'⟩
  | getLatestTdf at_pc =>
      simp only [at_pc] at update ⊢
      exact .of_stopped rfl rfl (update rfl) io'
  | setTdf newTdf at_pc =>
      simp only [at_pc] at update ⊢
      exact .of_stopped rfl rfl (update rfl) io'
  | enable at_pc =>
      simp only [at_pc] at update ⊢
      exact ⟨by simp [Agent.cpuEnableTicks], by simp [VtPc.hostsGo], fun _ => update rfl, io'⟩

/-- A statement that stops neither the clock nor the hosts keeps them as they should
be. -/
theorem ResumeInvariant.message (invariant : ResumeInvariant (w, stopped))
    {statement : Statement} {rest : List Statement} {agent : Agent} {notified : Bool}
    (io_eq : w.io = statement :: rest)
    (executed : statement.exec w.agent w.host = .ok (agent, notified)) :
    ResumeInvariant ({ w with
      agent, io := rest, vtPc := if notified then w.vtPc.notified else w.vtPc }, stopped) := by
  have io := invariant.io
  change ∀ other ∈ w.io, other.stops = false at io
  rw [io_eq] at io
  have resumes := io statement List.mem_cons_self
  refine invariant.congr ?_ ?_ ?_ fun other member => io other (List.mem_cons_of_mem _ member)
  · change _ → agent.timersState.cpuTicksEnabled = true
    rw [exec_timersState executed]
    cases statement <;> simp_all [Statement.onTimersState, Statement.stops]
  · change _ → agent.gostop = .semGo
    rw [exec_gostop executed]
    cases statement with
    | semaphoreSetval value => cases value <;> simp_all [Statement.onGostop, Statement.stops]
    | _ => exact id
  · cases notified with
    | false => exact Or.inl rfl
    | true => exact Or.inr rfl

/-- **A step keeps the invariant.** -/
theorem ResumeInvariant.step {s t : World × Bool} {action : ThreadAction}
    (invariant : ResumeInvariant s) (goes : GoesAfterStop s action) (noSuspend : action.NoSuspend)
    (stepped : withHistory threadStep recordStop s action = some t) : ResumeInvariant t := by
  obtain ⟨w, stopped⟩ := s
  obtain ⟨next, recorded⟩ := t
  obtain ⟨stepped, rfl⟩ := withHistory_eq_some.mp stepped
  cases threadStep_effect stepped with
  | idle agent_eq vtPc_eq io_eq before _ noVirtualTime =>
      have kept : recordStop w stopped action = stopped := by
        cases action <;> first | rfl | exact absurd rfl noVirtualTime
      rw [kept]
      refine invariant.congr ?_ ?_ (Or.inl vtPc_eq) ?_
      · exact agent_eq ▸ id
      · exact agent_eq ▸ id
      · exact io_eq ▸ invariant.io
  | receivedUdp msg empty =>
      exact ⟨invariant.clock, invariant.hosts, invariant.update,
        fun statement member => not_stops_of_mem (parseUdpMsg_ne_suspendVMs msg) member⟩
  | receivedTcp msg empty =>
      exact ⟨invariant.clock, invariant.hosts, invariant.update,
        fun statement member => not_stops_of_mem noSuspend member⟩
  | message statement rest agent notified io_eq free executed =>
      exact invariant.message io_eq executed
  | virtualTime stepped => exact invariant.virtualTime goes stepped
  | started at_main =>
      exact ⟨by simp [VtPc.clockRuns], by simp [VtPc.hostsGo], by simp [VtPc.inUpdate],
        invariant.io⟩
  | notified at_main => exact invariant.congr id id (Or.inr rfl) invariant.io

end

/-- **Without Protocol-30 messages, when every cycle that stopped the hosts finds
suspensions enabled at its go, the virtual clock is enabled and the semaphore holds
`SEMGO` whenever the virtual time thread waits.** -/
theorem run_resumed (created host : HostReading) (actions : List ThreadAction) (w : World)
    (stopped : Bool) (noSuspend : ∀ action ∈ actions, action.NoSuspend)
    (goes : Meets (withHistory threadStep recordStop) GoesAfterStop
      (.initial created host, false) actions)
    (ran : run (withHistory threadStep recordStop) (.initial created host, false) actions =
      some (w, stopped))
    (blocked : w.vtPc.isBlocked = true) :
    w.agent.timersState.cpuTicksEnabled = true ∧ w.agent.gostop = .semGo := by
  have without : Meets (withHistory threadStep recordStop) (fun _ action => action.NoSuspend)
      (.initial created host, false) actions :=
    meets_of_forall (fun action member _ => noSuspend action member) _
  have invariant := run_invariant_of_meets ResumeInvariant
    (fun s action next invariant meets stepped => invariant.step meets.1 meets.2 stepped)
    (resumeInvariant_initial created host) (goes.and without) ran
  cases at_pc : w.vtPc with
  | blocked woken =>
      exact ⟨invariant.clock (by simp [at_pc, VtPc.clockRuns]),
        invariant.hosts (by simp [at_pc, VtPc.hostsGo])⟩
  | _ => simp [at_pc, VtPc.isBlocked] at blocked

theorem run_resumed_updated :
    ∃ w : World, w.vtPc = .blocked false ∧ w.agent.sharedTdf = .ofRat 2 ∧
      w.agent.timersState.cpuTicksEnabled = true ∧ w.agent.gostop = .semGo := by
  have computed : (run (withHistory threadStep recordStop) (.initial ⟨0, 0⟩ ⟨1, 1⟩, false)
      (startUp ++ receive (ascii "11|2") ++ turns 13)).any (fun s =>
        s.1.vtPc = .blocked false ∧ s.1.agent.sharedTdf = .ofRat 2) = true := by
    decide +kernel
  obtain ⟨⟨w, stopped⟩, ran, values⟩ := exists_of_any computed
  obtain ⟨blocked, shared⟩ : w.vtPc = .blocked false ∧ w.agent.sharedTdf = .ofRat 2 :=
    values
  exact ⟨w, blocked, shared, run_resumed _ _ _ w stopped (by decide +kernel) (by decide +kernel)
    ran (by simp [blocked, VtPc.isBlocked])⟩

/-- Suspensions are disabled while an update has the hosts stopped. -/
theorem disable_between_stop_and_go :
    ∃ w, run threadStep (.initial ⟨0, 0⟩ ⟨1, 1⟩)
        (startUp ++ receive (ascii "11|2") ++ turns 3 ++ receive (ascii "25") ++ turns 10)
          = some w ∧
      w.vtPc = .blocked false ∧ w.agent.gostop = .semStop := by
  apply exists_of_any
  decide +kernel

end VirtualAgent
