import VirtualAgent.InterfacePass
import VirtualAgent.VirtualTime

/-!
# The threads of the agent

`VirtualAgent::start` creates the thread of the asynchronous servers, which handles
one message after the other, the thread of `VirtualTime.cpp` and the monitor, and then
waits for the last two to end. Here every statement of theirs is a step of its own, those
of the pass over the interface table included, and a run is any order of such steps with
the messages that arrive, the host's time that passes, and a SIGTERM. A call on the clock
and a call of the configurator for one device are single steps.

The mutex of the table of factors is held by the virtual time thread from its lock
until it blocks, and from its waking until the end of the iteration. The critical
sections of the messages are single steps, taken while it does not hold the mutex.
A `notify_all` wakes that thread only while it is blocked. Waking without a
notification is left out.

What a step can do is said once, by `VtEffect`, `MainEffect` and `ThreadEffect`; what the
runs keep is proved by cases on these.
-/

set_option autoImplicit false

namespace VirtualAgent

open ExactFloat CText Outcome Transition

/-! ## Where the threads stand -/

/-- The next statement of the virtual time thread. -/
inductive VtPc where
  | notStarted
  /-- `VirtualTime::start`, when `init_clocks` has chosen the host clock. -/
  | enableAtStart
  | goAtStart
  /-- `while (SignalHandler::isRunning)` -/
  | test
  | lock
  | wait
  /-- In `cond.wait`, with or without a wake-up delivered. -/
  | blocked (woken : Bool)
  | disable
  | stop
  | getLatestTdf
  | setTdf (newTdf : LongDouble)
  /-- In `updateInterfaceAttribute`, at one of its statements. -/
  | updateInterfaceAttribute (pc : PassPc)
  | enable
  | go
  | unlock
  | finished
  deriving DecidableEq

/-- The thread holds the mutex of the table of factors. -/
def VtPc.holdsMutex : VtPc → Bool
  | .wait | .disable | .stop | .getLatestTdf | .setTdf _ | .updateInterfaceAttribute _ | .enable
  | .go | .unlock => true
  | _ => false

/-- Where the thread goes from a statement of the pass over the interface table. -/
def VtPc.afterPass : PassPc → VtPc
  | .idle => .enable
  | pc => .updateInterfaceAttribute pc

/-- The thread is in `cond.wait`. -/
def VtPc.isBlocked : VtPc → Bool
  | .blocked _ => true
  | _ => false

/-- The effect of `notify_all` on the thread. -/
def VtPc.notified : VtPc → VtPc
  | .blocked _ => .blocked true
  | pc => pc

/-- Outside of its pass the thread goes on to the end of the cycle. -/
theorem VtPc.afterPass_cases (pc : PassPc) :
    (pc = .idle ∧ VtPc.afterPass pc = .enable) ∨
      (pc ≠ .idle ∧ VtPc.afterPass pc = .updateInterfaceAttribute pc) := by
  cases pc with
  | idle => exact Or.inl ⟨rfl, rfl⟩
  | _ => exact Or.inr ⟨by simp, rfl⟩

theorem VtPc.notified_of_blocked {pc : VtPc} (blocked : pc.isBlocked = true) :
    pc.notified = .blocked true := by
  cases pc with
  | blocked woken => rfl
  | _ => cases blocked

theorem VtPc.notified_of_not_blocked {pc : VtPc} (free : pc.isBlocked = false) :
    pc.notified = pc := by
  cases pc with
  | blocked woken => cases free
  | _ => rfl

/-- The next statement of `VirtualAgent::start`. -/
inductive MainPc where
  | startVirtualTime
  | startCpuMonitor
  | joinCpuMonitor
  | notify
  | joinVirtualTime
  | stopped
  deriving DecidableEq

inductive MonitorPc where
  | notStarted
  | running
  | finished
  deriving DecidableEq

/-- The agent with its threads, the reading of the host, and the statements left of
the message under way. -/
structure World where
  agent : Agent
  host : HostReading
  isRunning : Bool := true
  vtPc : VtPc := .notStarted
  io : List Statement := []
  mainPc : MainPc := .startVirtualTime
  monitorPc : MonitorPc := .notStarted
  deriving DecidableEq

/-- When the servers' thread has been created. -/
def World.initial (created host : HostReading) : World where
  agent := .initial created
  host := host

/-! ## Steps -/

/-- The next statement of the virtual time thread. -/
def World.virtualTime (w : World) : Option World :=
  match w.vtPc with
  | .notStarted => none
  | .enableAtStart => some { w with agent := w.agent.cpuEnableTicks w.host, vtPc := .goAtStart }
  | .goAtStart => some { w with agent := w.agent.semaphoreSetval .semGo, vtPc := .test }
  | .test => some { w with vtPc := if w.isRunning then .lock else .finished }
  | .lock => some { w with vtPc := .wait }
  | .wait => some { w with vtPc := .blocked false }
  | .blocked woken => if woken then some { w with vtPc := .disable } else none
  | .disable => some { w with agent := w.agent.cpuDisableTicks w.host, vtPc := .stop }
  | .stop =>
      some { w with agent := w.agent.semaphoreSetvalIfEnabled .semStop, vtPc := .getLatestTdf }
  | .getLatestTdf => some { w with vtPc := .setTdf w.agent.tdfTable.latestTdf }
  | .setTdf newTdf =>
      some { w with
        agent := { w.agent with toMemoryDatabase := w.agent.setTdf newTdf }
        vtPc := .updateInterfaceAttribute .idle }
  | .updateInterfaceAttribute pc =>
      (passStatement w.agent.tdfTable.latestTdf w.agent.ifaceAttrTable pc).map
        fun (pc, ifaceAttrTable, commands) =>
          { w with
            agent := { w.agent with
              ifaceAttrTable, tcCommands := w.agent.tcCommands ++ commands }
            vtPc := .afterPass pc }
  | .enable => some { w with agent := w.agent.cpuEnableTicks w.host, vtPc := .go }
  | .go => some { w with agent := w.agent.semaphoreSetvalIfEnabled .semGo, vtPc := .unlock }
  | .unlock => some { w with vtPc := .test }
  | .finished => none

/-- The statement runs under the mutex of the table of factors. -/
def Statement.locksTdfTable : Statement → Bool
  | .tdfTableSet _ _ => true
  | .enforceTdf _ => true
  | _ => false

/-- The next statement of the message under way. -/
def World.message (w : World) : Option World :=
  match w.io with
  | [] => none
  | statement :: rest =>
      if statement.locksTdfTable && w.vtPc.holdsMutex then none
      else
        (statement.exec w.agent w.host).toOption.map fun (agent, notified) =>
          { w with agent, io := rest, vtPc := if notified then w.vtPc.notified else w.vtPc }

/-- The next statement of `VirtualAgent::start`. -/
def World.main (w : World) : Option World :=
  match w.mainPc with
  | .startVirtualTime => some { w with vtPc := .enableAtStart, mainPc := .startCpuMonitor }
  | .startCpuMonitor => some { w with monitorPc := .running, mainPc := .joinCpuMonitor }
  | .joinCpuMonitor =>
      if w.monitorPc = .finished then some { w with mainPc := .notify } else none
  | .notify => some { w with vtPc := w.vtPc.notified, mainPc := .joinVirtualTime }
  | .joinVirtualTime => if w.vtPc = .finished then some { w with mainPc := .stopped } else none
  | .stopped => none

/-- What can happen next. -/
inductive ThreadAction where
  /-- Time passes on the host, and its cycle counter shows another value. -/
  | advance (elapsed : ℕ) (ticks : ℤ)
  | receiveUdp (msg : CString)
  | receiveTcp (msg : CString)
  | message
  | virtualTime
  | main
  /-- A test of `isRunning` by the monitor; its broadcasts arrive as messages. -/
  | monitor
  | sigterm
  deriving DecidableEq

/-- Steps of the virtual time thread. -/
def turns (count : ℕ) : List ThreadAction := List.replicate count .virtualTime

/-- The virtual time thread is started, and blocks in its first wait. -/
def startUp : List ThreadAction := .main :: turns 5

/-- A TCP message is received and its first statement performed. -/
def receive (msg : CString) : List ThreadAction := [.receiveTcp msg, .message]

/-- The step of a run of the threads. A message is received when the one before it is
done with. -/
def threadStep (w : World) : ThreadAction → Option World
  | .advance elapsed ticks => some { w with host := ⟨w.host.clock + elapsed, ticks⟩ }
  | .receiveUdp msg =>
      if w.io = [] then some { w with io := statementsOf (parseUdpMsg msg) } else none
  | .receiveTcp msg =>
      if w.io = [] then some { w with io := statementsOf (parseTcpMsg msg) } else none
  | .message => w.message
  | .virtualTime => w.virtualTime
  | .main => w.main
  | .monitor =>
      if w.monitorPc = .running then
        some (if w.isRunning then w else { w with monitorPc := .finished })
      else none
  | .sigterm => some { w with isRunning := false }

theorem message_eq_some {w next : World} :
    w.message = some next ↔
      ∃ statement rest agent notified, w.io = statement :: rest ∧
        (statement.locksTdfTable && w.vtPc.holdsMutex) = false ∧
        statement.exec w.agent w.host = .ok (agent, notified) ∧
        next = { w with
          agent, io := rest, vtPc := if notified then w.vtPc.notified else w.vtPc } := by
  unfold World.message
  cases w.io with
  | nil => simp
  | cons statement rest =>
      simp only [Option.ite_none_left_eq_some, Option.map_eq_some_iff, toOption_eq_some]
      constructor
      · rintro ⟨free, ⟨agent, notified⟩, executed, rfl⟩
        exact ⟨statement, rest, agent, notified, rfl, by simpa using free, executed, rfl⟩
      · rintro ⟨statement', rest', agent, notified, same, free, executed, rfl⟩
        cases same
        exact ⟨by simpa using free, (agent, notified), executed, rfl⟩

/-- **What the next statement of the virtual time thread does**, by the place the thread is
at. -/
inductive VtEffect (w : World) : World → Prop where
  | enableAtStart (at_pc : w.vtPc = .enableAtStart) :
      VtEffect w { w with agent := w.agent.cpuEnableTicks w.host, vtPc := .goAtStart }
  | goAtStart (at_pc : w.vtPc = .goAtStart) :
      VtEffect w { w with agent := w.agent.semaphoreSetval .semGo, vtPc := .test }
  | test (at_pc : w.vtPc = .test) :
      VtEffect w { w with vtPc := if w.isRunning then .lock else .finished }
  | lock (at_pc : w.vtPc = .lock) : VtEffect w { w with vtPc := .wait }
  | wait (at_pc : w.vtPc = .wait) : VtEffect w { w with vtPc := .blocked false }
  | woken (at_pc : w.vtPc = .blocked true) : VtEffect w { w with vtPc := .disable }
  | disable (at_pc : w.vtPc = .disable) :
      VtEffect w { w with agent := w.agent.cpuDisableTicks w.host, vtPc := .stop }
  | stop (at_pc : w.vtPc = .stop) :
      VtEffect w { w with
        agent := { w.agent with
          gostop := if w.agent.configuration.isVMSuspensionsEnabled then .semStop
            else w.agent.gostop }
        vtPc := .getLatestTdf }
  | getLatestTdf (at_pc : w.vtPc = .getLatestTdf) :
      VtEffect w { w with vtPc := .setTdf w.agent.tdfTable.latestTdf }
  | setTdf (newTdf : LongDouble) (at_pc : w.vtPc = .setTdf newTdf) :
      VtEffect w { w with
        agent := { w.agent with toMemoryDatabase := w.agent.setTdf newTdf }
        vtPc := .updateInterfaceAttribute .idle }
  | updateInterfaceAttribute (pc pc' : PassPc) (ifaceAttrTable : InterfaceAttributeTable)
      (commands : List TcCommand) (at_pc : w.vtPc = .updateInterfaceAttribute pc)
      (performed : passStatement w.agent.tdfTable.latestTdf w.agent.ifaceAttrTable pc =
        some (pc', ifaceAttrTable, commands)) :
      VtEffect w { w with
        agent := { w.agent with ifaceAttrTable, tcCommands := w.agent.tcCommands ++ commands }
        vtPc := .afterPass pc' }
  | enable (at_pc : w.vtPc = .enable) :
      VtEffect w { w with agent := w.agent.cpuEnableTicks w.host, vtPc := .go }
  | go (at_pc : w.vtPc = .go) :
      VtEffect w { w with
        agent := { w.agent with
          gostop := if w.agent.configuration.isVMSuspensionsEnabled then .semGo
            else w.agent.gostop }
        vtPc := .unlock }
  | unlock (at_pc : w.vtPc = .unlock) : VtEffect w { w with vtPc := .test }

theorem virtualTime_effect {w next : World} (stepped : w.virtualTime = some next) :
    VtEffect w next := by
  unfold World.virtualTime at stepped
  simp only [Agent.semaphoreSetvalIfEnabled_eq] at stepped
  cases at_pc : w.vtPc with
  | notStarted | finished =>
      rw [at_pc] at stepped
      cases stepped
  | blocked woken =>
      rw [at_pc] at stepped
      obtain ⟨rfl, rfl⟩ := Option.ite_some_none_eq_some.mp stepped
      exact .woken at_pc
  | updateInterfaceAttribute pc =>
      simp only [at_pc, Option.map_eq_some_iff] at stepped
      obtain ⟨⟨pc', ifaceAttrTable, commands⟩, performed, rfl⟩ := stepped
      exact .updateInterfaceAttribute pc pc' ifaceAttrTable commands at_pc performed
  | setTdf newTdf =>
      rw [at_pc] at stepped
      cases stepped
      exact .setTdf newTdf at_pc
  | _ =>
      rw [at_pc] at stepped
      cases stepped
      -- the constructor named after the place
      constructor
      exact at_pc

/-- The virtual time thread leaves the other threads alone, and the table of factors
and the configuration. -/
theorem virtualTime_frame {w next : World} (stepped : w.virtualTime = some next) :
    next.mainPc = w.mainPc ∧ next.io = w.io ∧ next.agent.tdfTable = w.agent.tdfTable ∧
      next.agent.configuration = w.agent.configuration := by
  cases virtualTime_effect stepped with
  | _ => exact ⟨rfl, rfl, rfl, rfl⟩

/-- **What the next statement of the main thread does.** -/
inductive MainEffect (w : World) : World → Prop where
  | startVirtualTime (at_main : w.mainPc = .startVirtualTime) :
      MainEffect w { w with vtPc := .enableAtStart, mainPc := .startCpuMonitor }
  | startCpuMonitor (at_main : w.mainPc = .startCpuMonitor) :
      MainEffect w { w with monitorPc := .running, mainPc := .joinCpuMonitor }
  | joinCpuMonitor (at_main : w.mainPc = .joinCpuMonitor) (finished : w.monitorPc = .finished) :
      MainEffect w { w with mainPc := .notify }
  | notify (at_main : w.mainPc = .notify) :
      MainEffect w { w with vtPc := w.vtPc.notified, mainPc := .joinVirtualTime }
  | joinVirtualTime (at_main : w.mainPc = .joinVirtualTime) (finished : w.vtPc = .finished) :
      MainEffect w { w with mainPc := .stopped }

theorem main_effect {w next : World} (stepped : w.main = some next) : MainEffect w next := by
  unfold World.main at stepped
  cases at_main : w.mainPc with
  | joinCpuMonitor =>
      rw [at_main] at stepped
      obtain ⟨finished, rfl⟩ := Option.ite_some_none_eq_some.mp stepped
      exact .joinCpuMonitor at_main finished
  | joinVirtualTime =>
      rw [at_main] at stepped
      obtain ⟨finished, rfl⟩ := Option.ite_some_none_eq_some.mp stepped
      exact .joinVirtualTime at_main finished
  | stopped =>
      rw [at_main] at stepped
      cases stepped
  | startVirtualTime | startCpuMonitor | notify =>
      rw [at_main] at stepped
      cases stepped
      constructor
      exact at_main

/-! ## The start -/

/-- Until the main thread creates it, the virtual time thread does nothing. -/
def World.Unstarted (w : World) : Prop := w.mainPc = .startVirtualTime → w.vtPc = .notStarted

theorem unstarted_initial (created host : HostReading) :
    (World.initial created host).Unstarted := fun _ => rfl

/-- **What a step can do** to the agent, the message under way and the place of the
virtual time thread. -/
inductive ThreadEffect (w : World) : ThreadAction → World → Prop where
  | idle {action : ThreadAction} {next : World} (agent_eq : next.agent = w.agent)
      (vtPc_eq : next.vtPc = w.vtPc) (io_eq : next.io = w.io)
      (before : next.mainPc = .startVirtualTime → w.mainPc = .startVirtualTime)
      (noMessage : action ≠ .message) (noVirtualTime : action ≠ .virtualTime) :
      ThreadEffect w action next
  | receivedUdp (msg : CString) (empty : w.io = []) :
      ThreadEffect w (.receiveUdp msg) { w with io := statementsOf (parseUdpMsg msg) }
  | receivedTcp (msg : CString) (empty : w.io = []) :
      ThreadEffect w (.receiveTcp msg) { w with io := statementsOf (parseTcpMsg msg) }
  | message (statement : Statement) (rest : List Statement) (agent : Agent) (notified : Bool)
      (io_eq : w.io = statement :: rest)
      (free : (statement.locksTdfTable && w.vtPc.holdsMutex) = false)
      (executed : statement.exec w.agent w.host = .ok (agent, notified)) :
      ThreadEffect w .message { w with
        agent, io := rest, vtPc := if notified then w.vtPc.notified else w.vtPc }
  | virtualTime {next : World} (stepped : w.virtualTime = some next) :
      ThreadEffect w .virtualTime next
  | started (at_main : w.mainPc = .startVirtualTime) :
      ThreadEffect w .main { w with vtPc := .enableAtStart, mainPc := .startCpuMonitor }
  | notified (at_main : w.mainPc = .notify) :
      ThreadEffect w .main { w with vtPc := w.vtPc.notified, mainPc := .joinVirtualTime }

theorem threadStep_effect {w next : World} {action : ThreadAction}
    (stepped : threadStep w action = some next) : ThreadEffect w action next := by
  cases action with
  | advance elapsed ticks =>
      cases stepped
      exact .idle rfl rfl rfl id (by simp) (by simp)
  | receiveUdp msg =>
      obtain ⟨empty, rfl⟩ := Option.ite_some_none_eq_some.mp stepped
      exact .receivedUdp msg empty
  | receiveTcp msg =>
      obtain ⟨empty, rfl⟩ := Option.ite_some_none_eq_some.mp stepped
      exact .receivedTcp msg empty
  | message =>
      obtain ⟨statement, rest, agent, notified, io_eq, free, executed, rfl⟩ :=
        message_eq_some.mp stepped
      exact .message statement rest agent notified io_eq free executed
  | virtualTime => exact .virtualTime stepped
  | main =>
      cases main_effect stepped with
      | startVirtualTime at_main => exact .started at_main
      | notify at_main => exact .notified at_main
      | startCpuMonitor at_main =>
          exact .idle rfl rfl rfl (fun before => by cases before) (by simp) (by simp)
      | joinCpuMonitor at_main finished =>
          exact .idle rfl rfl rfl (fun before => by cases before) (by simp) (by simp)
      | joinVirtualTime at_main finished =>
          exact .idle rfl rfl rfl (fun before => by cases before) (by simp) (by simp)
  | monitor =>
      obtain ⟨-, rfl⟩ := Option.ite_some_none_eq_some.mp stepped
      cases running : w.isRunning with
      | true => exact .idle rfl rfl rfl id (by simp) (by simp)
      | false => exact .idle rfl rfl rfl id (by simp) (by simp)
  | sigterm =>
      cases stepped
      exact .idle rfl rfl rfl id (by simp) (by simp)

theorem World.Unstarted.step {w next : World} {action : ThreadAction} (unstarted : w.Unstarted)
    (stepped : threadStep w action = some next) : next.Unstarted := by
  cases threadStep_effect stepped with
  | idle agent_eq vtPc_eq io_eq before _ _ => exact fun start => vtPc_eq ▸ unstarted (before start)
  | receivedUdp msg empty => exact unstarted
  | receivedTcp msg empty => exact unstarted
  | message statement rest agent notified io_eq free executed =>
      intro start
      have notStarted := unstarted start
      cases notified <;> simp [notStarted, VtPc.notified]
  | virtualTime stepped =>
      intro start
      have notStarted := unstarted ((virtualTime_frame stepped).1 ▸ start)
      simp [World.virtualTime, notStarted] at stepped
  | started at_main =>
      intro start
      cases start
  | notified at_main =>
      intro start
      cases start

end VirtualAgent
