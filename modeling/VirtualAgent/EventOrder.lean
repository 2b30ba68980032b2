import VirtualAgent.ThreadFaults

/-!
# The threads as whole events

A message is performed statement by statement, with those of an update cycle between
them. What the tables, the settings and the shared factor become does not depend on this, as
long as no message writes the interface table while the cycle passes over it: every such
interleaving of the threads ends as some order of whole messages and whole cycles does, in
which the messages come as they were received (`threads_refine_events`). What a message that
does write it then can lead to is in `PendingDelete`: the interface it adds can be lost.

A message is put where its first statement is performed, and a cycle where its pass over the
interface table begins. What is left of a message then no longer looks at the tables, and
what is left of the pass finds the table as it was; the factor that the cycle has written
before is still the latest one, since the cycle holds the mutex of the table of factors. Only
the commands for the devices can come in another order.
-/

set_option autoImplicit false

namespace VirtualAgent

open ExactFloat CText Outcome Transition

/-! ## What follows the first statement of a message -/

/-- The commands of a statement for the devices. -/
def Statement.commands (latestTdf : LongDouble) : Statement → List TcCommand
  | .changeInterfaceAttribute ifaceName rate delay =>
      VirtualAgent.changeInterfaceAttribute ifaceName rate delay latestTdf
  | .replaceInterfaceAttribute ifaceName rate delay tdf =>
      VirtualAgent.replaceInterfaceAttribute ifaceName rate delay tdf
  | _ => []

/-- A statement that follows another one in a message. -/
def Statement.follows : Statement → Bool
  | .changeInterfaceAttribute _ _ _ => true
  | .replaceInterfaceAttribute _ _ _ _ => true
  | .configure _ => true
  | .semaphoreSetval _ => true
  | _ => false

/-- After its first statement a message leaves the tables and the clock alone. -/
theorem follows_of_statements {message : Message} {first : Statement} {rest : List Statement}
    (statements : message.statements = first :: rest) : ∀ statement ∈ rest, statement.follows := by
  intro statement member
  cases message with
  | configure settings =>
      have among : statement ∈ settings.map Statement.configure := by
        change settings.map Statement.configure = first :: rest at statements
        rw [statements]
        exact List.mem_cons_of_mem _ member
      obtain ⟨setting, -, rfl⟩ := List.mem_map.mp among
      rfl
  | changeInterface ifaceName rate delay | replaceInterface ifaceName rate delay | suspendVMs
  | resumeVMs =>
      obtain ⟨-, rfl⟩ := List.cons.inj statements
      obtain rfl := List.mem_singleton.mp member
      rfl
  | _ =>
      obtain ⟨-, rfl⟩ := List.cons.inj statements
      cases member

section Follow

variable {statement : Statement} {host : HostReading}

/-- What a following statement does. -/
theorem exec_follows (follows : statement.follows = true) (a : Agent) (host : HostReading) :
    statement.exec a host = .ok ({ a with
      configuration := statement.onConfiguration a.configuration
      gostop := statement.onGostop a.gostop
      tcCommands := a.tcCommands ++ statement.commands a.tdfTable.latestTdf }, false) := by
  cases statement with
  | changeInterfaceAttribute ifaceName rate delay => rfl
  | replaceInterfaceAttribute ifaceName rate delay tdf => rfl
  | configure setting => simp [Statement.exec, Statement.commands, Statement.onConfiguration,
      Statement.onGostop, pure, Except.pure]
  | semaphoreSetval value => simp [Statement.exec, Statement.commands,
      Statement.onConfiguration, Statement.onGostop, Agent.semaphoreSetval, pure, Except.pure]
  | _ => cases follows

theorem execAll_cons {a next : Agent} {rest : List Statement} :
    execAll a host (statement :: rest) = .ok next ↔
      ∃ middle notified, statement.exec a host = .ok (middle, notified) ∧
        execAll middle host rest = .ok next := by
  unfold execAll
  rw [List.foldlM_cons, bind_eq_ok]
  constructor
  · rintro ⟨middle, stepped, later⟩
    obtain ⟨notified, executed⟩ := exec_of_step stepped
    exact ⟨middle, notified, executed, later⟩
  · rintro ⟨middle, notified, executed, later⟩
    exact ⟨middle, bind_eq_ok.mpr ⟨_, executed, rfl⟩, later⟩

/-- What the rest of a message does. -/
theorem execAll_follow {rest : List Statement} (follow : ∀ statement ∈ rest, statement.follows)
    (a : Agent) (host : HostReading) :
    execAll a host rest = .ok { a with
      configuration := rest.foldl Statement.onConfiguration a.configuration
      gostop := rest.foldl Statement.onGostop a.gostop
      tcCommands := a.tcCommands ++ rest.flatMap (Statement.commands a.tdfTable.latestTdf) } := by
  induction rest generalizing a with
  | nil => simp [execAll, pure, Except.pure]
  | cons statement rest ih =>
      refine execAll_cons.mpr ⟨_, false, exec_follows (follow _ List.mem_cons_self) a host, ?_⟩
      rw [ih fun other member => follow other (List.mem_cons_of_mem _ member)]
      simp only [List.foldl_cons, List.flatMap_cons, List.append_assoc]

end Follow

/-! ## Two agents of which one is ahead -/

/-- The statement writes the interface table. -/
def Statement.writesInterfaces : Statement → Bool
  | .ifaceAttrTableSet _ _ _ | .setFlagKeep _ _ => true
  | _ => false

/-- The one agent has still to perform the rest of a message and of a pass over the interface
table, and may have written the factor that the other one writes with its next cycle. -/
structure Synced (rest : List Statement) (written : Bool) (pc : PassPc) (b a : Agent) : Prop where
  tdfTable : a.tdfTable = b.tdfTable
  configuration : a.configuration = rest.foldl Statement.onConfiguration b.configuration
  sharedTdf : b.sharedTdf = if written then b.tdfTable.latestTdf else a.sharedTdf
  pass : ∃ left, PassEnds b.tdfTable.latestTdf pc b.ifaceAttrTable a.ifaceAttrTable left ∧
    (b.tcCommands ++ left ++ rest.flatMap (Statement.commands b.tdfTable.latestTdf)).Perm
      a.tcCommands

/-- Commands issued before others that are still to come, or after them. -/
theorem perm_append_swap {issued left : List TcCommand} {all : List TcCommand}
    (same : (issued ++ left).Perm all) (commands : List TcCommand) :
    (issued ++ commands ++ left).Perm (all ++ commands) := by
  rw [List.append_assoc]
  refine (List.Perm.append_left issued List.perm_append_comm).trans ?_
  rw [← List.append_assoc]
  exact same.append_right commands

namespace Synced

variable {rest : List Statement} {written notified : Bool} {pc : PassPc} {b b' a : Agent}
  {statement : Statement} {host : HostReading}

/-- What is done to the clock and the semaphore does not matter. -/
theorem congr (synced : Synced rest written pc b a) (timersState : TimersState)
    (gostop : Gostop) : Synced rest written pc { b with timersState, gostop } a :=
  ⟨synced.tdfTable, synced.configuration, synced.sharedTdf, synced.pass⟩

/-- Without a pass under way the interface tables are the same. -/
theorem ifaceAttrTable (synced : Synced rest written .idle b a) :
    a.ifaceAttrTable = b.ifaceAttrTable := by
  obtain ⟨left, ends, -⟩ := synced.pass
  exact (passEnds_idle ends).1

theorem tcCommands (synced : Synced rest written .idle b a) :
    (b.tcCommands ++ rest.flatMap (Statement.commands b.tdfTable.latestTdf)).Perm
      a.tcCommands := by
  obtain ⟨left, ends, same⟩ := synced.pass
  obtain rfl := (passEnds_idle ends).2
  rwa [List.append_nil] at same

/-- The agents with equal interface tables, and no pass under way. -/
theorem of_idle (tdfTable : a.tdfTable = b.tdfTable)
    (ifaceAttrTable : a.ifaceAttrTable = b.ifaceAttrTable)
    (configuration : a.configuration = rest.foldl Statement.onConfiguration b.configuration)
    (sharedTdf : b.sharedTdf = if written then b.tdfTable.latestTdf else a.sharedTdf)
    (tcCommands : (b.tcCommands ++ rest.flatMap (Statement.commands b.tdfTable.latestTdf)).Perm
      a.tcCommands) : Synced rest written .idle b a := by
  refine ⟨tdfTable, configuration, sharedTdf, [], ?_, ?_⟩
  · rw [ifaceAttrTable]
    exact .done _
  · rwa [List.append_nil]

/-- The agent that is behind performs a statement of the rest. -/
theorem follow (synced : Synced (statement :: rest) written pc b a)
    (follows : statement.follows = true)
    (executed : statement.exec b host = .ok (b', notified)) :
    Synced rest written pc b' a ∧ notified = false := by
  rw [exec_follows follows] at executed
  cases executed
  obtain ⟨left, ends, same⟩ := synced.pass
  refine ⟨⟨synced.tdfTable, synced.configuration, synced.sharedTdf, left, ends, ?_⟩, rfl⟩
  refine List.Perm.trans ?_ same
  rw [List.flatMap_cons, ← List.append_assoc]
  exact (perm_append_swap (List.Perm.refl _) _).append_right _

/-- Both agents perform a statement. -/
theorem both (synced : Synced [] written pc b a)
    (free : written = true ∨ pc ≠ .idle → statement.locksTdfTable = false)
    (outside : statement.writesInterfaces = true → pc = .idle)
    (executed : statement.exec b host = .ok (b', notified)) (host' : HostReading) :
    ∃ a', statement.exec a host' = .ok (a', notified) ∧ Synced [] written pc b' a' := by
  have tdfTable_eq := synced.tdfTable
  have configuration_eq : a.configuration = b.configuration := synced.configuration
  obtain ⟨left, ends, same⟩ := synced.pass
  rw [List.flatMap_nil, List.append_nil] at same
  have issue : ∀ commands, (b.tcCommands ++ commands ++ left ++ []).Perm
      (a.tcCommands ++ commands) := by
    intro commands
    rw [List.append_nil]
    exact perm_append_swap same commands
  cases statement with
  | tdfTableSet hostname tdf =>
      obtain ⟨set, found, rfl⟩ := exec_tdfTableSet.mp executed
      rw [← tdfTable_eq, ← configuration_eq] at found
      obtain rfl : written = false := Bool.eq_false_iff.mpr fun ahead => by
        cases free (Or.inl ahead)
      obtain rfl : pc = .idle := by
        by_contra underway
        cases free (Or.inr underway)
      exact ⟨_, exec_tdfTableSet.mpr ⟨set, found, rfl⟩, .of_idle rfl synced.ifaceAttrTable
        configuration_eq synced.sharedTdf synced.tcCommands⟩
  | enforceTdf tdf =>
      cases executed
      obtain rfl : written = false := Bool.eq_false_iff.mpr fun ahead => by
        cases free (Or.inl ahead)
      obtain rfl : pc = .idle := by
        by_contra underway
        cases free (Or.inr underway)
      refine ⟨_, rfl, .of_idle ?_ synced.ifaceAttrTable configuration_eq synced.sharedTdf
        synced.tcCommands⟩
      simp only [MemoryDatabase.enforceTdf, tdfTable_eq]
  | setFlagKeep ifaceName flagKeep =>
      obtain ⟨set, found, rfl, rfl⟩ := exec_setFlagKeep.mp executed
      obtain rfl := outside rfl
      rw [← synced.ifaceAttrTable] at found
      exact ⟨_, exec_setFlagKeep.mpr ⟨set, found, rfl, rfl⟩, .of_idle tdfTable_eq rfl
        configuration_eq synced.sharedTdf synced.tcCommands⟩
  | ifaceAttrTableSet ifaceName rate delay =>
      cases executed
      obtain rfl := outside rfl
      refine ⟨_, rfl, .of_idle tdfTable_eq ?_ configuration_eq synced.sharedTdf
        synced.tcCommands⟩
      simp only [synced.ifaceAttrTable]
  | changeInterfaceAttribute ifaceName rate delay =>
      cases executed
      refine ⟨_, rfl, tdfTable_eq, configuration_eq, synced.sharedTdf, left, ends, ?_⟩
      rw [tdfTable_eq]
      exact issue _
  | replaceInterfaceAttribute ifaceName rate delay tdf =>
      cases executed
      exact ⟨_, rfl, tdfTable_eq, configuration_eq, synced.sharedTdf, left, ends, issue _⟩
  | enableTable | disableTable | clear =>
      cases executed
      exact ⟨_, rfl, by simp only [tdfTable_eq], configuration_eq, synced.sharedTdf,
        synced.pass⟩
  | configure setting =>
      cases executed
      exact ⟨_, rfl, tdfTable_eq, congrArg (·.assign setting) configuration_eq,
        synced.sharedTdf, synced.pass⟩
  | cpuDisableTicks | cpuEnableTicks | semaphoreSetval value =>
      cases executed
      exact ⟨_, rfl, tdfTable_eq, configuration_eq, synced.sharedTdf, synced.pass⟩

/-- The agent that is ahead performs the rest of a message. -/
theorem ahead (synced : Synced [] written pc b a)
    (follow : ∀ statement ∈ rest, statement.follows) (host : HostReading) :
    ∃ a', execAll a host rest = .ok a' ∧ Synced rest written pc b a' := by
  obtain ⟨left, ends, same⟩ := synced.pass
  refine ⟨_, execAll_follow follow a host, synced.tdfTable, ?_, synced.sharedTdf, left, ends, ?_⟩
  · have same : a.configuration = b.configuration := synced.configuration
    rw [same]
  · rw [List.flatMap_nil, List.append_nil] at same
    rw [synced.tdfTable]
    exact same.append_right _

/-- The agent that is behind writes the latest factor. -/
theorem write (synced : Synced rest false .idle b a) :
    Synced rest true .idle { b with toMemoryDatabase := b.setTdf b.tdfTable.latestTdf } a :=
  ⟨synced.tdfTable, synced.configuration, rfl, synced.pass⟩

/-- **The one agent begins its pass over the interface table**, and the other performs a whole
cycle. -/
theorem begins (synced : Synced rest true .idle b a)
    (nonNull : NonNull b.ifaceAttrTable.ifaceAttrMap) (suspendAt resumeAt : HostReading) :
    ∃ a', eventStep a (.cycle suspendAt resumeAt) = some a' ∧
      Synced rest false (.test (KeyOrder.firstKey b.ifaceAttrTable.ifaceAttrMap)) b a' := by
  obtain ⟨ifaceAttrTable, commands, passed⟩ : ∃ ifaceAttrTable commands,
      updateInterfaceAttribute b.ifaceAttrTable b.tdfTable.latestTdf =
        .ok (ifaceAttrTable, commands) :=
    ⟨_, _, updateInterfaceAttribute_eq nonNull b.tdfTable.latestTdf⟩
  have passed' : updateInterfaceAttribute a.ifaceAttrTable a.tdfTable.latestTdf =
      .ok (ifaceAttrTable, commands) := by
    rw [synced.tdfTable, synced.ifaceAttrTable]
    exact passed
  obtain ⟨a', cycled⟩ := Agent.updateCycle_of_pass passed' suspendAt resumeAt
  obtain ⟨ifaceAttrTable', commands', passed'', tdfTable, iface, shared, settings, issued⟩ :=
    Agent.updateCycle_ok cycled
  rw [passed'] at passed''
  cases passed''
  refine ⟨a', eventStep_eq_some.mpr cycled, tdfTable.trans synced.tdfTable,
    settings.trans synced.configuration, ?_, commands, ?_, ?_⟩
  · have latest : b.sharedTdf = b.tdfTable.latestTdf := synced.sharedTdf
    exact latest.trans (by rw [shared, synced.tdfTable]; rfl)
  · rw [iface]
    exact passEnds_of_updateInterfaceAttribute passed
  · rw [issued]
    exact perm_append_swap synced.tcCommands commands

/-- A statement of the pass is one that is left. -/
theorem goesOn (synced : Synced rest written pc b a) (underway : pc ≠ .idle) {pc' : PassPc}
    {ifaceAttrTable : InterfaceAttributeTable} {commands : List TcCommand}
    (performed : passStatement b.tdfTable.latestTdf b.ifaceAttrTable pc =
      some (pc', ifaceAttrTable, commands)) :
    Synced rest written pc'
      { b with ifaceAttrTable, tcCommands := b.tcCommands ++ commands } a := by
  obtain ⟨left, ends, same⟩ := synced.pass
  obtain ⟨more, rfl, later⟩ := ends.statement underway performed
  refine ⟨synced.tdfTable, synced.configuration, synced.sharedTdf, more, later, ?_⟩
  rwa [← List.append_assoc] at same

end Synced

/-! ## The messages -/

/-- A message as it is received. -/
inductive Received where
  | udp (msg : CString)
  | tcp (msg : CString)
  deriving DecidableEq

namespace Received

/-- The message, unless it is ignored. -/
def message : Received → Option Message
  | .udp msg => parseUdpMsg msg
  | .tcp msg => parseTcpMsg msg

/-- The event of the whole message. -/
def event (host : HostReading) : Received → Event
  | .udp msg => .udp msg
  | .tcp msg => .tcp msg host

end Received

/-- The message a step receives. -/
def ThreadAction.received : ThreadAction → Option Received
  | .receiveUdp msg => some (.udp msg)
  | .receiveTcp msg => some (.tcp msg)
  | _ => none

/-- The message an event performs. -/
def Event.received : Event → Option Received
  | .udp msg => some (.udp msg)
  | .tcp msg _ => some (.tcp msg)
  | .cycle _ _ => none

theorem Received.received_event (received : Received) (host : HostReading) :
    (received.event host).received = some received := by
  cases received <;> rfl

theorem Received.exists_perform (received : Received) (host : HostReading) (a : Agent) :
    ∃ host', (received.event host).perform a = execAll a host' (statementsOf received.message) := by
  cases received with
  | udp msg => exact ⟨_, rfl⟩
  | tcp msg => exact ⟨_, rfl⟩

theorem follows_of_received {received : Received} {first : Statement} {rest : List Statement}
    (statements : statementsOf received.message = first :: rest) :
    ∀ statement ∈ rest, statement.follows := by
  cases parsed : received.message with
  | none =>
      rw [parsed] at statements
      cases statements
  | some message =>
      rw [parsed] at statements
      exact follows_of_statements statements

/-! ## The threads -/

/-- The factor in shared memory is ahead of the cycle. -/
def VtPc.hasWritten : VtPc → Bool
  | .updateInterfaceAttribute .idle => true
  | _ => false

/-- Where the thread stands in the pass over the interface table. -/
def VtPc.passPc : VtPc → PassPc
  | .updateInterfaceAttribute pc => pc
  | _ => .idle

@[simp] theorem VtPc.notified_hasWritten (pc : VtPc) : pc.notified.hasWritten = pc.hasWritten := by
  cases pc <;> rfl

@[simp] theorem VtPc.notified_passPc (pc : VtPc) : pc.notified.passPc = pc.passPc := by
  cases pc <;> rfl

theorem VtPc.holdsMutex_of_underway {pc : VtPc}
    (underway : pc.hasWritten = true ∨ pc.passPc ≠ .idle) : pc.holdsMutex = true := by
  cases pc with
  | updateInterfaceAttribute place => rfl
  | _ => simp [VtPc.hasWritten, VtPc.passPc] at underway

theorem VtPc.afterPass_place (pc : PassPc) :
    (VtPc.afterPass pc).hasWritten = false ∧ (VtPc.afterPass pc).passPc = pc := by
  cases pc <;> exact ⟨rfl, rfl⟩

/-- The thread is as far with its factor and its pass. -/
def VtPc.SamePlace (pc pc' : VtPc) : Prop :=
  pc'.hasWritten = pc.hasWritten ∧ pc'.passPc = pc.passPc

theorem VtPc.samePlace_notified (pc : VtPc) : pc.SamePlace pc.notified :=
  ⟨pc.notified_hasWritten, pc.notified_passPc⟩

/-- No message writes the interface table while the pass over it is under way. -/
def WritesOutside (w : World) : ThreadAction → Prop
  | .message => ∀ statement ∈ w.io.head?, statement.writesInterfaces = true → w.vtPc.passPc = .idle
  | _ => True

instance (w : World) : DecidablePred (WritesOutside w)
  | .message =>
      inferInstanceAs (Decidable (∀ statement ∈ w.io.head?, _ = true → w.vtPc.passPc = .idle))
  | .advance _ _ | .receiveUdp _ | .receiveTcp _ | .virtualTime | .main | .monitor | .sigterm =>
      inferInstanceAs (Decidable True)

theorem VtPc.eq_setTdf_of_notified {pc : VtPc} {newTdf : LongDouble}
    (at_pc : pc.notified = .setTdf newTdf) : pc = .setTdf newTdf := by
  cases pc with
  | blocked woken => cases at_pc
  | _ => exact at_pc

/-- Only statements under the mutex notify. -/
theorem locksTdfTable_of_notified {statement : Statement} {a next : Agent} {host : HostReading}
    (executed : statement.exec a host = .ok (next, true)) : statement.locksTdfTable = true := by
  cases statement with
  | tdfTableSet hostname tdf => rfl
  | enforceTdf tdf => rfl
  | setFlagKeep ifaceName flagKeep =>
      obtain ⟨ifaceAttrTable, -, -, notified⟩ := exec_setFlagKeep.mp executed
      cases notified
  | _ => cases executed

/-- What is left of a message: it has begun, or it waits as a whole. -/
inductive MessageRest : List Received → List Statement → List Statement → Prop
  | begun (rest : List Statement) (follow : ∀ statement ∈ rest, statement.follows) :
      MessageRest [] rest rest
  | waits (received : Received) (first : Statement) (rest : List Statement)
      (statements : statementsOf received.message = first :: rest) :
      MessageRest [received] (first :: rest) []

/-- The threads are where the agent is after whole events, but for a message under way, the
factor of a cycle under way and what is left of its pass. -/
structure Serialized (w : World) (waiting : List Received) (a : Agent) : Prop where
  synced : ∃ rest, MessageRest waiting w.io rest ∧
    Synced rest w.vtPc.hasWritten w.vtPc.passPc w.agent a
  latest : ∀ newTdf, w.vtPc = .setTdf newTdf → newTdf = w.agent.tdfTable.latestTdf

theorem serialized_initial (created host : HostReading) :
    Serialized (.initial created host) [] (.initial created) :=
  ⟨⟨[], .begun [] nofun, .of_idle rfl rfl rfl rfl (.refl _)⟩, nofun⟩

/-- Events lead from an agent that matches the threads before a step to one that matches
them after it, and perform the messages in the order in which they come. -/
def Followed (waiting received : List Received) (a : Agent) (next : World) : Prop :=
  ∃ events a' waiting', run eventStep a events = some a' ∧ Serialized next waiting' a' ∧
    waiting ++ received = events.filterMap Event.received ++ waiting'

namespace Serialized

variable {w next : World} {waiting : List Received} {a : Agent}

/-- A step that leaves the agent and the message alone. -/
theorem idle (serialized : Serialized w waiting a) (agent_eq : next.agent = w.agent)
    (io_eq : next.io = w.io) (place : w.vtPc.SamePlace next.vtPc)
    (latest : ∀ newTdf, next.vtPc = .setTdf newTdf → newTdf = w.agent.tdfTable.latestTdf) :
    Followed waiting [] a next := by
  obtain ⟨rest, underway, synced⟩ := serialized.synced
  refine ⟨[], a, waiting, rfl, ⟨⟨rest, ?_, ?_⟩, ?_⟩, by simp⟩
  · rw [io_eq]
    exact underway
  · rw [agent_eq, place.1, place.2]
    exact synced
  · rw [agent_eq]
    exact latest

/-- A message is received. -/
theorem receive (serialized : Serialized w waiting a) (empty : w.io = []) (received : Received) :
    Followed waiting [received] a { w with io := statementsOf received.message } := by
  obtain ⟨rest, underway, synced⟩ := serialized.synced
  rw [empty] at underway
  cases underway with
  | begun rest follow =>
      cases statements : statementsOf received.message with
      | nil =>
          obtain ⟨host', performed⟩ := received.exists_perform w.host a
          rw [statements] at performed
          refine ⟨[received.event w.host], a, [], ?_, ⟨⟨[], .begun [] follow, synced⟩,
            serialized.latest⟩, ?_⟩
          · exact run_cons_eq_some.mpr ⟨a, eventStep_eq_some.mpr performed, rfl⟩
          · simp [received.received_event]
      | cons first rest =>
          exact ⟨[], a, [received], rfl, ⟨⟨[], .waits received first rest statements, synced⟩,
            serialized.latest⟩, rfl⟩

/-- A statement of the message under way. -/
theorem message (serialized : Serialized w waiting a) {statement : Statement}
    {rest : List Statement} {agent : Agent} {notified : Bool} (io_eq : w.io = statement :: rest)
    (free : (statement.locksTdfTable && w.vtPc.holdsMutex) = false)
    (outside : statement.writesInterfaces = true → w.vtPc.passPc = .idle)
    (executed : statement.exec w.agent w.host = .ok (agent, notified)) :
    Followed waiting [] a
      { w with agent, io := rest, vtPc := if notified then w.vtPc.notified else w.vtPc } := by
  obtain ⟨remains, underway, synced⟩ := serialized.synced
  have place : w.vtPc.SamePlace (if notified then w.vtPc.notified else w.vtPc) := by
    cases notified with
    | false => exact ⟨rfl, rfl⟩
    | true => exact w.vtPc.samePlace_notified
  have latest : ∀ newTdf, (if notified then w.vtPc.notified else w.vtPc) = .setTdf newTdf →
      newTdf = agent.tdfTable.latestTdf := by
    intro newTdf at_pc
    cases notified with
    | false => exact (serialized.latest newTdf at_pc).trans (exec_latestTdf executed).symm
    | true =>
        have locks := locksTdfTable_of_notified executed
        have at_setTdf : w.vtPc = .setTdf newTdf := VtPc.eq_setTdf_of_notified at_pc
        simp [locks, at_setTdf, VtPc.holdsMutex] at free
  have unlocked : w.vtPc.hasWritten = true ∨ w.vtPc.passPc ≠ .idle →
      statement.locksTdfTable = false := by
    intro ahead
    have holds : w.vtPc.holdsMutex = true := VtPc.holdsMutex_of_underway ahead
    simpa [holds] using free
  rw [io_eq] at underway
  cases underway with
  | begun remains follow =>
      obtain ⟨syncedNext, -⟩ := synced.follow (follow _ List.mem_cons_self) executed
      refine ⟨[], a, [], rfl, ⟨⟨rest, .begun rest ?_, ?_⟩, latest⟩, rfl⟩
      · exact fun other member => follow other (List.mem_cons_of_mem _ member)
      · rw [place.1, place.2]
        exact syncedNext
  | waits received first rest statements =>
      obtain ⟨host', performed⟩ := received.exists_perform w.host a
      obtain ⟨middle, began, syncedMiddle⟩ := synced.both unlocked outside executed host'
      have follow := follows_of_received statements
      obtain ⟨a', ended, syncedNext⟩ := syncedMiddle.ahead follow host'
      rw [statements] at performed
      have whole := execAll_cons.mpr ⟨middle, notified, began, ended⟩
      refine ⟨[received.event w.host], a', [], ?_, ⟨⟨rest, .begun rest follow, ?_⟩, latest⟩, ?_⟩
      · exact run_cons_eq_some.mpr ⟨a', eventStep_eq_some.mpr (performed.trans whole), rfl⟩
      · rw [place.1, place.2]
        exact syncedNext
      · simp [received.received_event]

/-- A step that changes the clock and the semaphore only. -/
theorem clock (serialized : Serialized w waiting a) (timersState : TimersState) (gostop : Gostop)
    {pc : VtPc} (place : w.vtPc.SamePlace pc)
    (latest : ∀ newTdf, pc ≠ .setTdf newTdf) :
    Followed waiting [] a { w with agent := { w.agent with timersState, gostop }, vtPc := pc } := by
  obtain ⟨rest, underway, synced⟩ := serialized.synced
  refine ⟨[], a, waiting, rfl, ⟨⟨rest, underway, ?_⟩, ?_⟩, by simp⟩
  · rw [place.1, place.2]
    exact synced.congr timersState gostop
  · exact fun newTdf at_pc => absurd at_pc (latest newTdf)

/-- A statement of the pass over the interface table: the first one is matched by a whole
cycle, the others by nothing. -/
theorem pass (serialized : Serialized w waiting a) (sound : w.Sound) {pc pc' : PassPc}
    {ifaceAttrTable : InterfaceAttributeTable} {commands : List TcCommand}
    (at_pc : w.vtPc = .updateInterfaceAttribute pc)
    (performed : passStatement w.agent.tdfTable.latestTdf w.agent.ifaceAttrTable pc =
      some (pc', ifaceAttrTable, commands)) :
    Followed waiting [] a { w with
      agent := { w.agent with ifaceAttrTable, tcCommands := w.agent.tcCommands ++ commands }
      vtPc := .afterPass pc' } := by
  obtain ⟨rest, underway, synced⟩ := serialized.synced
  have latest : ∀ newTdf, VtPc.afterPass pc' = .setTdf newTdf →
      newTdf = w.agent.tdfTable.latestTdf := by
    intro newTdf impossible
    cases pc' <;> cases impossible
  have ⟨unwritten, place⟩ := VtPc.afterPass_place pc'
  rw [at_pc] at synced
  by_cases first : pc = .idle
  · subst first
    cases performed
    obtain ⟨a', cycled, syncedNext⟩ := synced.begins sound.nonNull.ifaceAttrMap w.host w.host
    refine ⟨[.cycle w.host w.host], a', waiting, run_cons_eq_some.mpr ⟨a', cycled, rfl⟩,
      ⟨⟨rest, underway, ?_⟩, latest⟩, by simp [Event.received]⟩
    rw [List.append_nil]
    exact syncedNext
  · refine ⟨[], a, waiting, rfl, ⟨⟨rest, underway, ?_⟩, latest⟩, by simp⟩
    have ahead : (VtPc.updateInterfaceAttribute pc).hasWritten = false := by
      cases pc with
      | idle => exact absurd rfl first
      | _ => rfl
    rw [ahead] at synced
    rw [unwritten, place]
    exact synced.goesOn first performed

/-- A statement of the virtual time thread. -/
theorem virtualTime (serialized : Serialized w waiting a) (sound : w.Sound)
    (stepped : w.virtualTime = some next) : Followed waiting [] a next := by
  cases virtualTime_effect stepped with
  | test at_pc =>
      cases w.isRunning with
      | true => exact serialized.idle rfl rfl (by rw [at_pc]; exact ⟨rfl, rfl⟩) nofun
      | false => exact serialized.idle rfl rfl (by rw [at_pc]; exact ⟨rfl, rfl⟩) nofun
  | lock at_pc | wait at_pc | woken at_pc | unlock at_pc =>
      exact serialized.idle rfl rfl (by rw [at_pc]; exact ⟨rfl, rfl⟩) nofun
  | getLatestTdf at_pc =>
      refine serialized.idle rfl rfl (by rw [at_pc]; exact ⟨rfl, rfl⟩) ?_
      rintro newTdf ⟨rfl⟩
      rfl
  | enableAtStart at_pc | goAtStart at_pc | disable at_pc | stop at_pc | enable at_pc | go at_pc =>
      exact serialized.clock _ _ (by rw [at_pc]; exact ⟨rfl, rfl⟩) nofun
  | setTdf newTdf at_pc =>
      obtain ⟨rest, underway, synced⟩ := serialized.synced
      rw [at_pc] at synced
      rw [serialized.latest newTdf at_pc]
      exact ⟨[], a, waiting, rfl, ⟨⟨rest, underway, synced.write⟩, nofun⟩, by simp⟩
  | updateInterfaceAttribute pc pc' ifaceAttrTable commands at_pc performed =>
      exact serialized.pass sound at_pc performed

/-- **A step of the threads is matched by whole events.** -/
theorem step (serialized : Serialized w waiting a) (unstarted : w.Unstarted) (sound : w.Sound)
    {action : ThreadAction} (outside : WritesOutside w action)
    (stepped : threadStep w action = some next) :
    Followed waiting action.received.toList a next := by
  cases action with
  | advance elapsed ticks =>
      cases stepped
      exact serialized.idle rfl rfl ⟨rfl, rfl⟩ serialized.latest
  | receiveUdp msg =>
      obtain ⟨empty, rfl⟩ := Option.ite_some_none_eq_some.mp stepped
      exact serialized.receive empty (.udp msg)
  | receiveTcp msg =>
      obtain ⟨empty, rfl⟩ := Option.ite_some_none_eq_some.mp stepped
      exact serialized.receive empty (.tcp msg)
  | message =>
      obtain ⟨statement, rest, agent, notified, io_eq, free, executed, rfl⟩ :=
        message_eq_some.mp stepped
      exact serialized.message io_eq free (outside statement (by simp [io_eq])) executed
  | virtualTime => exact serialized.virtualTime sound stepped
  | main =>
      cases threadStep_effect stepped with
      | idle agent_eq vtPc_eq io_eq _ _ _ =>
          exact serialized.idle agent_eq io_eq (by rw [vtPc_eq]; exact ⟨rfl, rfl⟩)
            fun newTdf at_pc => serialized.latest newTdf (vtPc_eq ▸ at_pc)
      | started at_main =>
          have notStarted := unstarted at_main
          exact serialized.idle rfl rfl (by rw [notStarted]; exact ⟨rfl, rfl⟩) nofun
      | notified at_main =>
          exact serialized.idle rfl rfl w.vtPc.samePlace_notified
            fun newTdf at_pc => serialized.latest newTdf (VtPc.eq_setTdf_of_notified at_pc)
  | monitor =>
      obtain ⟨-, rfl⟩ := Option.ite_some_none_eq_some.mp stepped
      cases w.isRunning with
      | true => exact serialized.idle rfl rfl ⟨rfl, rfl⟩ serialized.latest
      | false => exact serialized.idle rfl rfl ⟨rfl, rfl⟩ serialized.latest
  | sigterm =>
      cases stepped
      exact serialized.idle rfl rfl ⟨rfl, rfl⟩ serialized.latest

end Serialized

/-! ## Runs -/

theorem foldl_received (actions : List ThreadAction) (received : List Received) :
    actions.foldl (fun received action => received ++ action.received.toList) received =
      received ++ actions.filterMap ThreadAction.received := by
  induction actions generalizing received with
  | nil => simp
  | cons action rest ih =>
      rw [List.foldl_cons, ih, List.filterMap_cons]
      cases action.received <;> simp

/-- The threads have come where the agent is after whole events. -/
structure World.EndsAs (w : World) (a : Agent) : Prop where
  tdfTable : a.tdfTable = w.agent.tdfTable
  configuration : w.io = [] → a.configuration = w.agent.configuration
  sharedTdf : w.vtPc ≠ .updateInterfaceAttribute .idle → a.sharedTdf = w.agent.sharedTdf
  ifaceAttrTable : w.vtPc.passPc = .idle → a.ifaceAttrTable = w.agent.ifaceAttrTable
  tcCommands : w.vtPc.passPc = .idle → w.io = [] → w.agent.tcCommands.Perm a.tcCommands

theorem Serialized.endsAs {w : World} {waiting : List Received} {a : Agent}
    (serialized : Serialized w waiting a) : w.EndsAs a := by
  obtain ⟨rest, underway, synced⟩ := serialized.synced
  have done : w.io = [] → rest = [] := by
    intro empty
    rw [empty] at underway
    cases underway
    rfl
  refine ⟨synced.tdfTable, ?_, ?_, ?_, ?_⟩
  · intro empty
    obtain rfl := done empty
    exact synced.configuration
  · intro outside
    have before : w.vtPc.hasWritten = false := by
      cases at_pc : w.vtPc with
      | updateInterfaceAttribute pc =>
          cases pc with
          | idle => exact absurd at_pc outside
          | _ => rfl
      | _ => rfl
    have same := synced.sharedTdf
    rw [before] at same
    exact same.symm
  · intro place
    rw [place] at synced
    exact synced.ifaceAttrTable
  · intro place empty
    obtain rfl := done empty
    rw [place] at synced
    simpa using synced.tcCommands

theorem Serialized.waiting_eq {w : World} {waiting : List Received} {a : Agent}
    (serialized : Serialized w waiting a) :
    waiting.length ≤ 1 ∧ (w.io = [] → waiting = []) := by
  obtain ⟨rest, underway, -⟩ := serialized.synced
  generalize w.io = io at underway
  cases underway with
  | begun rest follow => exact ⟨Nat.zero_le 1, fun _ => rfl⟩
  | waits received first rest statements => exact ⟨le_rfl, nofun⟩

/-- **Every interleaving is an order of whole events.** However the statements of the
messages and of the update cycles fall between each other, if no message writes the interface
table while a pass over it is under way: there are whole messages and whole cycles, the
messages being those received and in that order, after which the agent has the same table of
factors and, outside of a pass, the same interface table and the same factor in shared
memory. When no message is under way either, it also has the same settings and has issued
the same commands, up to their order; else one message may be left over. -/
theorem threads_refine_events (created host : HostReading) (actions : List ThreadAction)
    (outside : Meets threadStep WritesOutside (.initial created host) actions)
    (w : World) (ran : run threadStep (.initial created host) actions = some w) :
    ∃ events a waiting, run eventStep (.initial created) events = some a ∧ w.EndsAs a ∧
      actions.filterMap ThreadAction.received = events.filterMap Event.received ++ waiting ∧
      waiting.length ≤ 1 ∧ (w.io = [] → waiting = []) := by
  have matched := run_invariant_foldl
    (fun (w : World) (received : List Received) => w.Unstarted ∧ w.Sound ∧
      ∃ events a waiting, run eventStep (.initial created) events = some a ∧
        Serialized w waiting a ∧ received = events.filterMap Event.received ++ waiting)
    (fun received action => received ++ action.received.toList) ?_
    ⟨unstarted_initial created host, World.sound_initial created host, [], _, [], rfl,
      serialized_initial created host, rfl⟩ outside ran
  · obtain ⟨-, -, events, a, waiting, ranEvents, serialized, received⟩ := matched
    rw [foldl_received] at received
    exact ⟨events, a, waiting, ranEvents, serialized.endsAs, received, serialized.waiting_eq⟩
  · rintro w received action next
      ⟨unstarted, sound, events, a, waiting, ranEvents, serialized, rfl⟩ outside stepped
    obtain ⟨more, a', waiting', ranMore, serialized', order⟩ :=
      serialized.step unstarted sound outside stepped
    refine ⟨unstarted.step stepped, sound.step stepped, events ++ more, a', waiting',
      run_append_eq_some.mpr ⟨a, ranEvents, ranMore⟩, serialized', ?_⟩
    rw [List.append_assoc, order, List.filterMap_append, List.append_assoc]

/-- An interface is set while a cycle is about to pass over the interface table, and its
commands come between the statements of that pass. -/
def setDuringCycle : List ThreadAction :=
  startUp ++ receive (ascii "0011|2") ++ turns 5 ++
    [.receiveUdp (ascii "0003|eth0|8000|100"), .message] ++ turns 3 ++ [.message] ++ turns 3

theorem threads_refine_events_setDuringCycle :
    ∃ w events a, run threadStep (.initial ⟨0, 0⟩ ⟨0, 0⟩) setDuringCycle = some w ∧
      run eventStep (.initial ⟨0, 0⟩) events = some a ∧ w.EndsAs a ∧
      events.filterMap Event.received =
        [.tcp (ascii "0011|2"), .udp (ascii "0003|eth0|8000|100")] := by
  obtain ⟨w, ran, done⟩ : ∃ w, run threadStep (.initial ⟨0, 0⟩ ⟨0, 0⟩) setDuringCycle = some w ∧
      w.io = [] ∧ w.vtPc = .enable ∧ w.agent.tcCommands.length = 10 := by
    apply exists_of_any
    decide +kernel
  obtain ⟨events, a, waiting, ranEvents, endsAs, received, -, all⟩ :=
    threads_refine_events ⟨0, 0⟩ ⟨0, 0⟩ setDuringCycle (by decide +kernel) w ran
  rw [all done.1, List.append_nil] at received
  exact ⟨w, events, a, ran, ranEvents, endsAs, received.symm⟩

end VirtualAgent
