import VirtualAgent.Library.Transition
import VirtualAgent.MessageProcessor

/-!
# Whole messages and whole update cycles

What the agent does when nothing falls between the statements of a message or of an
update cycle of `VirtualTime.cpp`. A run is a list of such events; one that meets a
fault has no state after it.

The threads that interleave the statements have a module of their own.
-/

set_option autoImplicit false

namespace VirtualAgent

open ExactFloat CText Outcome Transition
open Std (ExtTreeMap)

/-- The pass over the interface table, on the agent. -/
def Agent.updateInterfaceAttribute (a : Agent) : Except Fault Agent := do
  let (ifaceAttrTable, commands) ←
    VirtualAgent.updateInterfaceAttribute a.ifaceAttrTable a.tdfTable.latestTdf
  return { a with ifaceAttrTable, tcCommands := a.tcCommands ++ commands }

/-- The semaphore is set only while suspensions are enabled. -/
def Agent.semaphoreSetvalIfEnabled (a : Agent) (value : Gostop) : Agent :=
  if a.configuration.isVMSuspensionsEnabled then a.semaphoreSetval value else a

theorem Agent.semaphoreSetvalIfEnabled_eq (a : Agent) (value : Gostop) :
    a.semaphoreSetvalIfEnabled value =
      { a with gostop := if a.configuration.isVMSuspensionsEnabled then value else a.gostop } := by
  unfold semaphoreSetvalIfEnabled
  split
  · rfl
  · rfl

/-- Suspend the virtual hosts, and set the new factor to shared memory. -/
def Agent.beginUpdate (a : Agent) (host : HostReading) : Agent :=
  let a := (a.cpuDisableTicks host).semaphoreSetvalIfEnabled .semStop
  let newTdf := a.tdfTable.latestTdf
  { a with toMemoryDatabase := a.setTdf newTdf }

/-- Resume the virtual hosts. -/
def Agent.endUpdate (a : Agent) (host : HostReading) : Agent :=
  (a.cpuEnableTicks host).semaphoreSetvalIfEnabled .semGo

/-- One iteration of `startAdaptiveVirtualTime` after its wait. -/
def Agent.updateCycle (a : Agent) (suspendAt resumeAt : HostReading) : Except Fault Agent := do
  let a ← (a.beginUpdate suspendAt).updateInterfaceAttribute
  return a.endUpdate resumeAt

theorem Agent.beginUpdate_eq (a : Agent) (host : HostReading) :
    ∃ timersState gostop, a.beginUpdate host =
      { a with sharedTdf := a.tdfTable.latestTdf, timersState, gostop } := by
  rw [beginUpdate, semaphoreSetvalIfEnabled_eq]
  exact ⟨_, _, rfl⟩

theorem Agent.endUpdate_eq (a : Agent) (host : HostReading) :
    ∃ timersState gostop, a.endUpdate host = { a with timersState, gostop } := by
  rw [endUpdate, semaphoreSetvalIfEnabled_eq]
  exact ⟨_, _, rfl⟩

theorem Agent.updateInterfaceAttribute_eq_ok {a next : Agent} :
    a.updateInterfaceAttribute = .ok next ↔
      ∃ ifaceAttrTable commands,
        VirtualAgent.updateInterfaceAttribute a.ifaceAttrTable a.tdfTable.latestTdf =
          .ok (ifaceAttrTable, commands) ∧
        next = { a with ifaceAttrTable, tcCommands := a.tcCommands ++ commands } := by
  constructor
  · intro done
    obtain ⟨⟨ifaceAttrTable, commands⟩, passed, returned⟩ := bind_eq_ok.mp done
    cases returned
    exact ⟨ifaceAttrTable, commands, passed, rfl⟩
  · rintro ⟨ifaceAttrTable, commands, passed, rfl⟩
    exact bind_eq_ok.mpr ⟨_, passed, rfl⟩

/-- **What a whole cycle does** to the tables, the configuration and the factor in
shared memory, which takes the latest value of the table. -/
theorem Agent.updateCycle_ok {a next : Agent} {suspendAt resumeAt : HostReading}
    (done : a.updateCycle suspendAt resumeAt = .ok next) :
    ∃ ifaceAttrTable commands,
      VirtualAgent.updateInterfaceAttribute a.ifaceAttrTable a.tdfTable.latestTdf =
        .ok (ifaceAttrTable, commands) ∧
      next.tdfTable = a.tdfTable ∧ next.ifaceAttrTable = ifaceAttrTable ∧
      next.sharedTdf = a.tdfTable.latestTdf ∧ next.configuration = a.configuration ∧
      next.tcCommands = a.tcCommands ++ commands := by
  obtain ⟨updated, pass, returned⟩ := bind_eq_ok.mp done
  obtain ⟨ifaceAttrTable, commands, passed, rfl⟩ := updateInterfaceAttribute_eq_ok.mp pass
  obtain ⟨suspended, stopped, begun⟩ := a.beginUpdate_eq suspendAt
  rw [begun] at passed returned
  cases returned
  obtain ⟨resumed, going, ended⟩ := endUpdate_eq _ resumeAt
  rw [ended]
  exact ⟨ifaceAttrTable, commands, passed, rfl, rfl, rfl, rfl, rfl⟩

/-- A cycle has a result when its pass over the interface table has. -/
theorem Agent.updateCycle_of_pass {a : Agent} {ifaceAttrTable : InterfaceAttributeTable}
    {commands : List TcCommand}
    (passed : VirtualAgent.updateInterfaceAttribute a.ifaceAttrTable a.tdfTable.latestTdf =
      .ok (ifaceAttrTable, commands)) (suspendAt resumeAt : HostReading) :
    ∃ next, a.updateCycle suspendAt resumeAt = .ok next := by
  obtain ⟨suspended, stopped, begun⟩ := a.beginUpdate_eq suspendAt
  unfold updateCycle
  rw [begun]
  exact ⟨_, bind_eq_ok.mpr
    ⟨_, updateInterfaceAttribute_eq_ok.mpr ⟨_, _, passed, rfl⟩, rfl⟩⟩

/-- The statements that read the tables or that notify. Each stands alone in its
message, so the state it is performed in is the one the message comes in. -/
def Statement.standsAlone : Statement → Bool
  | .tdfTableSet _ _ => true
  | .setFlagKeep _ _ => true
  | .enforceTdf _ => true
  | _ => false

/-- What statements keep under a condition, messages keep that meet the condition in
the state they come in, when it asks nothing of statements that do not stand alone. -/
theorem execAll_invariant (invariant : Agent → Prop) {condition : Agent → Statement → Prop}
    {host : HostReading}
    (free : ∀ s statement, statement.standsAlone = false → condition s statement)
    (preserved : ∀ s statement next notified, invariant s → condition s statement →
      statement.exec s host = .ok (next, notified) → invariant next)
    {a next : Agent} (initial : invariant a) {parsed : Option Message}
    (meets : ∀ statement ∈ statementsOf parsed, condition a statement)
    (done : execAll a host (statementsOf parsed) = .ok next) : invariant next := by
  have together : (∀ statement ∈ statementsOf parsed, statement.standsAlone = false) →
      invariant next := by
    intro ordinary
    refine foldlM_invariant invariant ?_ initial done
    intro s statement after member kept stepped
    obtain ⟨notified, executed⟩ := exec_of_step stepped
    exact preserved s statement _ notified kept (free s statement (ordinary _ member)) executed
  have alone : ∀ statement, statementsOf parsed = [statement] → invariant next := by
    intro statement single
    rw [single] at done meets
    obtain ⟨notified, executed⟩ := execAll_singleton.mp done
    exact preserved a statement next notified initial (meets _ List.mem_cons_self) executed
  cases parsed with
  | none => exact together (by simp [statementsOf])
  | some message =>
      cases message with
      | configure settings =>
          exact together (by simp [statementsOf, Message.statements, Statement.standsAlone])
      | tdfTableSet hostname tdf => exact alone _ rfl
      | eraseInterface ifaceName => exact alone _ rfl
      | enforceTdf tdf => exact alone _ rfl
      | _ => exact together (by simp [statementsOf, Message.statements, Statement.standsAlone])

/-- A whole message or a whole cycle, with the host readings it makes. -/
inductive Event where
  | udp (msg : CString)
  | tcp (msg : CString) (host : HostReading)
  | cycle (suspendAt resumeAt : HostReading)
  deriving DecidableEq

/-- Perform an event. No statement of a UDP message reads the host. -/
def Event.perform (a : Agent) : Event → Except Fault Agent
  | .udp msg => execAll a ⟨0, 0⟩ (statementsOf (parseUdpMsg msg))
  | .tcp msg host => execAll a host (statementsOf (parseTcpMsg msg))
  | .cycle suspendAt resumeAt => a.updateCycle suspendAt resumeAt

/-- The message an event carries, unless it is ignored. -/
def Event.message : Event → Option Message
  | .udp msg => parseUdpMsg msg
  | .tcp msg _ => parseTcpMsg msg
  | .cycle _ _ => none

/-- The step of a run of events. -/
def eventStep (a : Agent) (event : Event) : Option Agent := (event.perform a).toOption

theorem eventStep_eq_some {a next : Agent} {event : Event} :
    eventStep a event = some next ↔ event.perform a = .ok next := toOption_eq_some

/-- An event is a whole cycle or the statements of a message. -/
theorem Event.perform_eq (a : Agent) (event : Event) :
    (∃ suspendAt resumeAt, event = .cycle suspendAt resumeAt) ∨
      ∃ host, event.perform a = execAll a host (statementsOf event.message) := by
  cases event with
  | udp msg => exact Or.inr ⟨_, rfl⟩
  | tcp msg host => exact Or.inr ⟨_, rfl⟩
  | cycle suspendAt resumeAt => exact Or.inl ⟨_, _, rfl⟩

end VirtualAgent
