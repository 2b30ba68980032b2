import VirtualAgent.Threads

/-!
# Lost updates

The virtual time thread waits without a predicate: it takes the latest factor to
shared memory when it is woken, and a `notify_all` wakes it only while it is blocked.
A factor adopted before its first wait, or between two waits, stays in the table until
some later factor is adopted (`enforceTdf_before_wait`).

When factors are adopted only while the thread is in its wait, none is lost
(`run_upToDate`). The invariant follows the thread once round its loop: outside the
cycle the two factors are equal, and inside the mutex keeps the latest one still.
-/

set_option autoImplicit false

namespace VirtualAgent

open ExactFloat CText Outcome Transition

/-- The statement sets the latest factor, and notifies. -/
def Statement.Adopts (a : Agent) : Statement → Prop
  | .enforceTdf _ => True
  | .tdfTableSet hostname tdf => a.tdfTable.isTableEnabled = true ∧
      ∃ maxVal ∈ (a.tdfTable.written hostname tdf).maxTdf.toOption,
        a.configuration.tdfChangeThreshold ≤ a.tdfTable.gap maxVal
  | _ => False

instance (a : Agent) : DecidablePred (Statement.Adopts a)
  | .enforceTdf _ => inferInstanceAs (Decidable True)
  | .tdfTableSet _ _ => inferInstanceAs (Decidable (_ ∧ _))
  | .ifaceAttrTableSet _ _ _ | .setFlagKeep _ _ | .changeInterfaceAttribute _ _ _
  | .replaceInterfaceAttribute _ _ _ _ | .enableTable | .disableTable | .clear | .configure _
  | .cpuDisableTicks | .cpuEnableTicks | .semaphoreSetval _ => inferInstanceAs (Decidable False)

theorem adopts_of_notified {a next : Agent} {host : HostReading} {statement : Statement}
    (done : statement.exec a host = .ok (next, true)) : statement.Adopts a := by
  cases statement with
  | tdfTableSet hostname tdf =>
      obtain ⟨tdfTable, set, rfl⟩ := exec_tdfTableSet.mp done
      obtain ⟨-, silent, -⟩ | ⟨maxVal, greatest, -, -, enabled, away⟩ := TdfTable.set_cases set
      · cases silent
      · exact ⟨enabled, maxVal, toOption_eq_some.mpr greatest, away⟩
  | enforceTdf tdf => trivial
  | setFlagKeep ifaceName flagKeep =>
      obtain ⟨-, -, -, silent⟩ := exec_setFlagKeep.mp done
      cases silent
  | _ => cases done

/-- A factor is adopted only while the virtual time thread is in its wait. -/
def AdoptsInWait (w : World) : ThreadAction → Prop
  | .message => ∀ statement ∈ w.io.head?, statement.Adopts w.agent → w.vtPc.isBlocked = true
  | _ => True

instance (w : World) : DecidablePred (AdoptsInWait w)
  | .message =>
      inferInstanceAs (Decidable (∀ statement ∈ w.io.head?, statement.Adopts w.agent → _ = true))
  | .advance _ _ | .receiveUdp _ | .receiveTcp _ | .virtualTime | .main | .monitor | .sigterm =>
      inferInstanceAs (Decidable True)

/-- Where the virtual time thread stands, the factor in shared memory is the latest
one, or it is about to be taken there. -/
def UpToDate (w : World) : Prop :=
  match w.vtPc with
  | .blocked true | .disable | .stop | .getLatestTdf => True
  | .setTdf newTdf => newTdf = w.agent.tdfTable.latestTdf
  | _ => w.agent.sharedTdf = w.agent.tdfTable.latestTdf

theorem upToDate_initial (created host : HostReading) : UpToDate (.initial created host) := rfl

section

variable {w next : World}

theorem UpToDate.congr (upToDate : UpToDate w) (vtPc_eq : next.vtPc = w.vtPc)
    (sharedTdf_eq : next.agent.sharedTdf = w.agent.sharedTdf)
    (latestTdf_eq : next.agent.tdfTable.latestTdf = w.agent.tdfTable.latestTdf) :
    UpToDate next := by
  rw [UpToDate, vtPc_eq, sharedTdf_eq, latestTdf_eq]
  exact upToDate

/-- **The virtual time thread takes the latest factor to shared memory.** -/
theorem UpToDate.virtualTime (upToDate : UpToDate w) (stepped : w.virtualTime = some next) :
    UpToDate next := by
  unfold UpToDate at upToDate
  cases virtualTime_effect stepped with
  | test at_pc =>
      rw [at_pc] at upToDate
      cases running : w.isRunning with
      | true => simpa [UpToDate, running] using upToDate
      | false => simpa [UpToDate, running] using upToDate
  | woken at_pc | disable at_pc | stop at_pc | getLatestTdf at_pc => trivial
  | updateInterfaceAttribute pc pc' ifaceAttrTable commands at_pc performed =>
      rw [at_pc] at upToDate
      rw [UpToDate]
      cases pc' <;> exact upToDate
  | setTdf newTdf at_pc =>
      rw [at_pc] at upToDate
      exact upToDate
  | enableAtStart at_pc | goAtStart at_pc | lock at_pc | wait at_pc | enable at_pc | go at_pc
  | unlock at_pc =>
      rw [at_pc] at upToDate
      exact upToDate

/-- **A step keeps the thread up to date**, when no factor is adopted behind its back. -/
theorem UpToDate.step {action : ThreadAction} (upToDate : UpToDate w) (unstarted : w.Unstarted)
    (inWait : AdoptsInWait w action) (stepped : threadStep w action = some next) :
    UpToDate next := by
  cases threadStep_effect stepped with
  | idle agent_eq vtPc_eq io_eq before _ _ =>
      exact upToDate.congr vtPc_eq (by rw [agent_eq]) (by rw [agent_eq])
  | receivedUdp msg empty => exact upToDate
  | receivedTcp msg empty => exact upToDate
  | message statement rest agent notified io_eq free executed =>
      cases notified with
      | false => exact upToDate.congr rfl (exec_sharedTdf executed) (exec_latestTdf executed)
      | true =>
          have blocked := inWait statement (by simp [io_eq]) (adopts_of_notified executed)
          simp [UpToDate, VtPc.notified_of_blocked blocked]
  | virtualTime stepped => exact upToDate.virtualTime stepped
  | started at_main =>
      have notStarted := unstarted at_main
      rw [UpToDate, notStarted] at upToDate
      exact upToDate
  | notified at_main =>
      cases blocked : w.vtPc.isBlocked with
      | true => simp [UpToDate, VtPc.notified_of_blocked blocked]
      | false => exact upToDate.congr (VtPc.notified_of_not_blocked blocked) rfl rfl

end

/-- **When factors are adopted only while the virtual time thread is in its wait, the
factor in shared memory is the latest one whenever that thread is blocked and no
wake-up is delivered to it.** -/
theorem run_upToDate (created host : HostReading) (actions : List ThreadAction) (w : World)
    (inWait : Meets threadStep AdoptsInWait (.initial created host) actions)
    (ran : run threadStep (.initial created host) actions = some w)
    (blocked : w.vtPc = .blocked false) :
    w.agent.sharedTdf = w.agent.tdfTable.latestTdf := by
  obtain ⟨-, upToDate⟩ := run_invariant_of_meets (fun w => w.Unstarted ∧ UpToDate w)
    (fun w action next invariant inWait stepped =>
      ⟨invariant.1.step stepped, invariant.2.step invariant.1 inWait stepped⟩)
    ⟨unstarted_initial created host, upToDate_initial created host⟩ inWait ran
  rw [UpToDate, blocked] at upToDate
  exact upToDate

theorem run_upToDate_woken :
    ∃ w : World, w.vtPc = .blocked false ∧ w.agent.tdfTable.latestTdf = .ofRat 2 ∧
      w.agent.sharedTdf = w.agent.tdfTable.latestTdf := by
  have computed : (run threadStep (.initial ⟨0, 0⟩ ⟨1, 1⟩)
      (startUp ++ receive (ascii "11|2") ++ turns 13)).any (fun w =>
        w.vtPc = .blocked false ∧ w.agent.tdfTable.latestTdf = .ofRat 2) = true := by
    decide +kernel
  obtain ⟨w, ran, blocked, latest⟩ := exists_of_any computed
  exact ⟨w, blocked, latest, run_upToDate _ _ _ w (by decide +kernel) ran blocked⟩

/-- A Protocol-11 message handled before the thread first waits. -/
theorem enforceTdf_before_wait :
    ∃ w, run threadStep (.initial ⟨0, 0⟩ ⟨1, 1⟩)
        (.main :: receive (ascii "11|2") ++ turns 5) = some w ∧
      w.vtPc = .blocked false ∧ w.agent.tdfTable.latestTdf = .ofRat 2 ∧
      w.agent.sharedTdf = .ofRat 1 := by
  apply exists_of_any
  decide +kernel

end VirtualAgent
