import VirtualAgent.InterfaceConfigurator
import VirtualAgent.QemuTimer

/-!
# The message processor

`MessageProcessor.cpp` splits a message at its bars, reads a protocol number from
the first field, and for a known protocol with the right number of fields performs
a few statements on the agent. Everything else is ignored. The statements are kept
apart, since other threads run between them.

`Statement.exec` performs one, with the host reading the clock calls make, and says
whether it ends in a `notify_all`. What a statement leaves alone is stated per part
of the agent (`exec_tdfTable`, `exec_timersState` and their like).
-/

set_option autoImplicit false

namespace VirtualAgent

open ExactFloat CText Outcome
open Std (ExtTreeMap)

/-! ## The agent -/

/-- The value of the semaphore the virtual hosts stop and go by. -/
inductive Gostop where
  | semGo
  | semStop
  deriving DecidableEq

/-- The state of the agent: its database, the configuration, what it shares with
the guests, and the `tc` commands it has issued. A fresh semaphore is zero. -/
structure Agent extends MemoryDatabase where
  configuration : Configuration := {}
  timersState : TimersState
  gostop : Gostop := .semGo
  tcCommands : List TcCommand := []
  deriving DecidableEq

/-- The agent when `SharedMemory::create` returns. -/
def Agent.initial (created : HostReading) : Agent where
  timersState := .create created

/-- `cpu_disable_ticks`, on the shared state. -/
def Agent.cpuDisableTicks (a : Agent) (host : HostReading) : Agent :=
  { a with timersState := a.timersState.cpuDisableTicks a.sharedTdf host }

/-- `cpu_enable_ticks`, on the shared state. -/
def Agent.cpuEnableTicks (a : Agent) (host : HostReading) : Agent :=
  { a with timersState := a.timersState.cpuEnableTicks host }

/-- `semaphore_setval(semid_gostop, VIRHOST, value)`. -/
def Agent.semaphoreSetval (a : Agent) (value : Gostop) : Agent := { a with gostop := value }

/-! ## Statements -/

/-- A statement a message performs. -/
inductive Statement where
  | tdfTableSet (hostname : CString) (tdf : LongDouble)
  | ifaceAttrTableSet (ifaceName : CString) (rate delay : ℤ)
  | setFlagKeep (ifaceName : CString) (flagKeep : Bool)
  /-- with the latest factor of the table -/
  | changeInterfaceAttribute (ifaceName : CString) (rate delay : ℤ)
  | replaceInterfaceAttribute (ifaceName : CString) (rate delay : ℤ) (tdf : LongDouble)
  | enforceTdf (tdf : LongDouble)
  | enableTable
  | disableTable
  | clear
  | configure (setting : Setting)
  | cpuDisableTicks
  | cpuEnableTicks
  | semaphoreSetval (value : Gostop)
  deriving DecidableEq

/-- Perform a statement, with whether it ends in `notify_all`. -/
def Statement.exec (a : Agent) (host : HostReading) : Statement → Except Fault (Agent × Bool)
  | .tdfTableSet hostname tdf => do
      let (tdfTable, notified) ←
        a.tdfTable.set a.configuration.tdfChangeThreshold hostname tdf
      return ({ a with tdfTable }, notified)
  | .ifaceAttrTableSet ifaceName rate delay =>
      return ({ a with ifaceAttrTable := a.ifaceAttrTable.set ifaceName rate delay }, false)
  | .setFlagKeep ifaceName flagKeep => do
      let ifaceAttrTable ← a.ifaceAttrTable.setFlagKeep ifaceName flagKeep
      return ({ a with ifaceAttrTable }, false)
  | .changeInterfaceAttribute ifaceName rate delay =>
      return ({ a with tcCommands := a.tcCommands ++
        VirtualAgent.changeInterfaceAttribute ifaceName rate delay a.tdfTable.latestTdf }, false)
  | .replaceInterfaceAttribute ifaceName rate delay tdf =>
      return ({ a with tcCommands := a.tcCommands ++
        VirtualAgent.replaceInterfaceAttribute ifaceName rate delay tdf }, false)
  | .enforceTdf tdf => return ({ a with toMemoryDatabase := a.enforceTdf tdf }, true)
  | .enableTable => return ({ a with tdfTable := a.tdfTable.enableTable }, false)
  | .disableTable => return ({ a with tdfTable := a.tdfTable.disableTable }, false)
  | .clear => return ({ a with tdfTable := a.tdfTable.clear }, false)
  | .configure setting =>
      return ({ a with configuration := a.configuration.assign setting }, false)
  | .cpuDisableTicks => return (a.cpuDisableTicks host, false)
  | .cpuEnableTicks => return (a.cpuEnableTicks host, false)
  | .semaphoreSetval value => return (a.semaphoreSetval value, false)

/-! ### What a statement does to each part of the agent -/

theorem exec_tdfTableSet {a next : Agent} {host : HostReading} {hostname : CString}
    {tdf : LongDouble} {notified : Bool} :
    (Statement.tdfTableSet hostname tdf).exec a host = .ok (next, notified) ↔
      ∃ tdfTable, a.tdfTable.set a.configuration.tdfChangeThreshold hostname tdf =
        .ok (tdfTable, notified) ∧ next = { a with tdfTable } := by
  constructor
  · intro done
    obtain ⟨⟨tdfTable, found⟩, set, returned⟩ := bind_eq_ok.mp done
    cases returned
    exact ⟨tdfTable, set, rfl⟩
  · rintro ⟨tdfTable, set, rfl⟩
    exact bind_eq_ok.mpr ⟨_, set, rfl⟩

theorem exec_setFlagKeep {a next : Agent} {host : HostReading} {ifaceName : CString}
    {flagKeep notified : Bool} :
    (Statement.setFlagKeep ifaceName flagKeep).exec a host = .ok (next, notified) ↔
      ∃ ifaceAttrTable, a.ifaceAttrTable.setFlagKeep ifaceName flagKeep = .ok ifaceAttrTable ∧
        next = { a with ifaceAttrTable } ∧ notified = false := by
  constructor
  · intro done
    obtain ⟨ifaceAttrTable, set, returned⟩ := bind_eq_ok.mp done
    cases returned
    exact ⟨ifaceAttrTable, set, rfl, rfl⟩
  · rintro ⟨ifaceAttrTable, set, rfl, rfl⟩
    exact bind_eq_ok.mpr ⟨_, set, rfl⟩

/-- What a statement does to the virtual clock. -/
def Statement.onTimersState (tdf : LongDouble) (host : HostReading) (ts : TimersState) :
    Statement → TimersState
  | .cpuDisableTicks => ts.cpuDisableTicks tdf host
  | .cpuEnableTicks => ts.cpuEnableTicks host
  | _ => ts

/-- What a statement does to the semaphore. -/
def Statement.onGostop (gostop : Gostop) : Statement → Gostop
  | .semaphoreSetval value => value
  | _ => gostop

/-- What a statement does to the configuration. -/
def Statement.onConfiguration (c : Configuration) : Statement → Configuration
  | .configure setting => c.assign setting
  | _ => c

section Frame

variable {statement : Statement} {a next : Agent} {host : HostReading} {notified : Bool}

/-- **A statement acts on each part of the agent by itself.** None writes the factor
in shared memory, and the latest factor of the table changes only with a
notification. -/
theorem exec_frame (done : statement.exec a host = .ok (next, notified)) :
    next.sharedTdf = a.sharedTdf ∧
      next.timersState = statement.onTimersState a.sharedTdf host a.timersState ∧
      next.gostop = statement.onGostop a.gostop ∧
      next.configuration = statement.onConfiguration a.configuration ∧
      (notified = false → next.tdfTable.latestTdf = a.tdfTable.latestTdf) := by
  cases statement with
  | tdfTableSet hostname tdf =>
      obtain ⟨tdfTable, set, rfl⟩ := exec_tdfTableSet.mp done
      refine ⟨rfl, rfl, rfl, rfl, ?_⟩
      intro silent
      obtain ⟨rfl, -⟩ | ⟨maxVal, -, -, loud, -⟩ := TdfTable.set_cases set
      · rfl
      · rw [silent] at loud
        cases loud
  | setFlagKeep ifaceName flagKeep =>
      obtain ⟨ifaceAttrTable, -, rfl, -⟩ := exec_setFlagKeep.mp done
      exact ⟨rfl, rfl, rfl, rfl, fun _ => rfl⟩
  | enforceTdf tdf =>
      cases done
      exact ⟨rfl, rfl, rfl, rfl, fun silent => by cases silent⟩
  | _ =>
      cases done
      exact ⟨rfl, rfl, rfl, rfl, fun _ => rfl⟩

theorem exec_sharedTdf (done : statement.exec a host = .ok (next, notified)) :
    next.sharedTdf = a.sharedTdf := (exec_frame done).1

theorem exec_timersState (done : statement.exec a host = .ok (next, notified)) :
    next.timersState = statement.onTimersState a.sharedTdf host a.timersState :=
  (exec_frame done).2.1

theorem exec_gostop (done : statement.exec a host = .ok (next, notified)) :
    next.gostop = statement.onGostop a.gostop := (exec_frame done).2.2.1

theorem exec_latestTdf (done : statement.exec a host = .ok (next, false)) :
    next.tdfTable.latestTdf = a.tdfTable.latestTdf := (exec_frame done).2.2.2.2 rfl

/-- No statement takes an entry out of the interface table. -/
theorem exec_ifaceAttrTable (done : statement.exec a host = .ok (next, notified)) :
    next.ifaceAttrTable = a.ifaceAttrTable ∨ ∃ (name : CString) (entry : InterfaceAttributeEntry),
      next.ifaceAttrTable = ⟨a.ifaceAttrTable.ifaceAttrMap.insert name (some entry)⟩ := by
  cases statement with
  | tdfTableSet hostname tdf =>
      obtain ⟨tdfTable, -, rfl⟩ := exec_tdfTableSet.mp done
      exact Or.inl rfl
  | setFlagKeep ifaceName flagKeep =>
      obtain ⟨ifaceAttrTable, set, rfl, -⟩ := exec_setFlagKeep.mp done
      obtain ⟨entry, -, rfl⟩ := InterfaceAttributeTable.setFlagKeep_eq_ok.mp set
      exact Or.inr ⟨ifaceName, _, rfl⟩
  | ifaceAttrTableSet ifaceName rate delay =>
      cases done
      exact Or.inr ⟨ifaceName, _, rfl⟩
  | _ =>
      cases done
      exact Or.inl rfl

end Frame

/-! ## Messages -/

/-- A message that is not ignored. -/
inductive Message where
  /-- Protocol-10 -/
  | tdfTableSet (hostname : CString) (tdf : LongDouble)
  /-- Protocol-3 -/
  | changeInterface (ifaceName : CString) (rate delay : ℤ)
  /-- Protocol-1 -/
  | replaceInterface (ifaceName : CString) (rate delay : ℤ)
  /-- Protocol-2 -/
  | eraseInterface (ifaceName : CString)
  /-- Protocol-11 -/
  | enforceTdf (tdf : LongDouble)
  /-- Protocol-12 -/
  | enableTable
  /-- Protocol-13 -/
  | disableTable
  /-- Protocol-28 -/
  | clearTable
  /-- Protocol-30 -/
  | suspendVMs
  /-- Protocol-31 -/
  | resumeVMs
  /-- Protocols 14, 20 to 27, 32 and 33 -/
  | configure (settings : List Setting)
  deriving DecidableEq

/-- The statements of a message, in order. -/
def Message.statements : Message → List Statement
  | .tdfTableSet hostname tdf => [.tdfTableSet hostname tdf]
  | .changeInterface ifaceName rate delay =>
      [.ifaceAttrTableSet ifaceName rate delay, .changeInterfaceAttribute ifaceName rate delay]
  | .replaceInterface ifaceName rate delay =>
      -- the latest factor is read here and not used
      [.ifaceAttrTableSet ifaceName rate delay, .replaceInterfaceAttribute ifaceName rate delay 1]
  | .eraseInterface ifaceName => [.setFlagKeep ifaceName false]
  | .enforceTdf tdf => [.enforceTdf tdf]
  | .enableTable => [.enableTable]
  | .disableTable => [.disableTable]
  | .clearTable => [.clear]
  | .suspendVMs => [.cpuDisableTicks, .semaphoreSetval .semStop]
  | .resumeVMs => [.cpuEnableTicks, .semaphoreSetval .semGo]
  | .configure settings => settings.map .configure

/-- The cases of `MessageProcessor::parseUdpMsg`, by protocol number and fields. -/
def udpMessage : ℤ → List CString → Option Message
  | 10, [hostname, tdf] => some (.tdfTableSet hostname (atof tdf))
  | 3, [ifaceName, rate, delay] => some (.changeInterface ifaceName (atoll rate) (atoll delay))
  | _, _ => none

/-- The cases of `MessageProcessor::parseTcpMsg`. -/
def tcpMessage : ℤ → List CString → Option Message
  | 1, [ifaceName, rate, delay] => some (.replaceInterface ifaceName (atoll rate) (atoll delay))
  | 2, [ifaceName] => some (.eraseInterface ifaceName)
  | 11, [tdf] => some (.enforceTdf (atof tdf))
  | 12, [] => some .enableTable
  | 13, [] => some .disableTable
  | 14, [tdfMin, tdfMax] => some (.configure [.tdfMin (atof tdfMin), .tdfMax (atof tdfMax)])
  | 20, [changeSlope, nonlinearFactor, alpha] =>
      some (.configure [.changeSlope (atof changeSlope), .nonlinearFactor (atof nonlinearFactor),
        .alpha (atof alpha)])
  | 21, [targetLoad] => some (.configure [.targetLoad (atof targetLoad)])
  | 22, [period] => some (.configure [.packetHandlePeriod (atoi period)])
  | 23, [threshold] => some (.configure [.tdfChangeThreshold (atof threshold)])
  | 24, [] => some (.configure [.isVMSuspensionsEnabled true])
  | 25, [] => some (.configure [.isVMSuspensionsEnabled false])
  | 26, [] => some (.configure [.isLoadMonitored true])
  | 27, [] => some (.configure [.isLoadMonitored false])
  | 28, [] => some .clearTable
  | 30, [] => some .suspendVMs
  | 31, [] => some .resumeVMs
  | 32, [mode] => some (.configure [.monitorMode (atoi mode)])
  | 33, [gain] => some (.configure [.tdfSimGain (atof gain)])
  | _, _ => none

/-- Split a message at its bars and read the number in the first field. -/
def parse (cases : ℤ → List CString → Option Message) (msg : CString) : Option Message :=
  match splitCompress (· == 124) msg with
  | [] => none
  | protocol :: fields => cases (atoi protocol) fields

/-- Every message has a first field. -/
theorem parse_eq (cases : ℤ → List CString → Option Message) (msg : CString) :
    ∃ protocol fields, splitCompress (· == 124) msg = protocol :: fields ∧
      parse cases msg = cases (atoi protocol) fields := by
  unfold parse
  cases split : splitCompress (· == 124) msg with
  | nil => exact absurd split (splitCompress_ne_nil _ msg)
  | cons protocol fields => exact ⟨protocol, fields, rfl, rfl⟩

/-- `MessageProcessor::parseUdpMsg`, up to performing the statements. -/
def parseUdpMsg (msg : CString) : Option Message := parse udpMessage msg

/-- `MessageProcessor::parseTcpMsg`, up to performing the statements. -/
def parseTcpMsg (msg : CString) : Option Message := parse tcpMessage msg

example : parseUdpMsg (ascii "0010|hightemplar|3.5") =
    some (.tdfTableSet (ascii "hightemplar") (.ofRat (7 / 2))) := by decide +kernel

/-- A datagram sets a factor or changes an interface, or is ignored. -/
theorem parseUdpMsg_cases {msg : CString} {message : Message}
    (parsed : parseUdpMsg msg = some message) :
    (∃ hostname tdf, message = .tdfTableSet hostname tdf) ∨
      ∃ ifaceName rate delay, message = .changeInterface ifaceName rate delay := by
  obtain ⟨protocol, fields, -, parse_eq⟩ := parse_eq udpMessage msg
  rw [parseUdpMsg, parse_eq] at parsed
  unfold udpMessage at parsed
  split at parsed
  · cases parsed
    exact Or.inl ⟨_, _, rfl⟩
  · cases parsed
    exact Or.inr ⟨_, _, _, rfl⟩
  · cases parsed

/-- No datagram suspends the virtual hosts. -/
theorem parseUdpMsg_ne_suspendVMs (msg : CString) : parseUdpMsg msg ≠ some .suspendVMs := by
  intro suspend
  obtain ⟨hostname, tdf, other⟩ | ⟨ifaceName, rate, delay, other⟩ := parseUdpMsg_cases suspend
  · cases other
  · cases other

/-- **The rate and the delay of a Protocol-1 message are 64-bit integers.** -/
theorem parseTcpMsg_replaceInterface {msg ifaceName : CString} {rate delay : ℤ}
    (parsed : parseTcpMsg msg = some (.replaceInterface ifaceName rate delay)) :
    (-2 ^ 63 ≤ rate ∧ rate < 2 ^ 63) ∧ -2 ^ 63 ≤ delay ∧ delay < 2 ^ 63 := by
  obtain ⟨protocol, fields, -, parse_eq⟩ := parse_eq tcpMessage msg
  rw [parseTcpMsg, parse_eq] at parsed
  unfold tcpMessage at parsed
  split at parsed
  case h_1 =>
    cases parsed
    exact ⟨strtol_bounds _, strtol_bounds _⟩
  all_goals cases parsed

/-- The statements of a message as received. -/
def statementsOf (parsed : Option Message) : List Statement :=
  parsed.elim [] Message.statements

/-- Perform statements without anything between them. -/
def execAll (a : Agent) (host : HostReading) (statements : List Statement) :
    Except Fault Agent :=
  statements.foldlM (fun a statement => return (← statement.exec a host).1) a

theorem execAll_singleton {a next : Agent} {host : HostReading} {statement : Statement} :
    execAll a host [statement] = .ok next ↔
      ∃ notified, statement.exec a host = .ok (next, notified) := by
  unfold execAll
  rw [List.foldlM_cons, bind_eq_ok]
  constructor
  · rintro ⟨after, stepped, returned⟩
    cases returned
    obtain ⟨⟨next, notified⟩, executed, returned⟩ := bind_eq_ok.mp stepped
    cases returned
    exact ⟨notified, executed⟩
  · rintro ⟨notified, executed⟩
    exact ⟨next, bind_eq_ok.mpr ⟨_, executed, rfl⟩, rfl⟩

/-- The step of a list of statements is a statement. -/
theorem exec_of_step {a next : Agent} {host : HostReading} {statement : Statement}
    (stepped : (do return (← statement.exec a host).1) = Except.ok next) :
    ∃ notified, statement.exec a host = .ok (next, notified) := by
  obtain ⟨⟨after, notified⟩, executed, returned⟩ := bind_eq_ok.mp stepped
  cases returned
  exact ⟨notified, executed⟩

/-- **What every statement keeps** between the agent and a record of the statements, a list
of them keeps. -/
theorem execAll_foldl {γ : Type*} (invariant : Agent → γ → Prop) (record : γ → Statement → γ)
    {host : HostReading}
    (preserved : ∀ s recorded statement next notified, invariant s recorded →
      statement.exec s host = .ok (next, notified) → invariant next (record recorded statement))
    {a next : Agent} {recorded : γ} (initial : invariant a recorded) {statements : List Statement}
    (done : execAll a host statements = .ok next) :
    invariant next (statements.foldl record recorded) := by
  refine foldlM_invariant_foldl invariant record ?_ recorded initial done
  intro s recorded statement after _ kept stepped
  obtain ⟨notified, executed⟩ := exec_of_step stepped
  exact preserved s recorded statement after notified kept executed

/-- A configuring message changes the configuration and nothing else. -/
theorem execAll_configure (a : Agent) (host : HostReading) (settings : List Setting) :
    execAll a host (Message.configure settings).statements =
      .ok { a with configuration := settings.foldl Configuration.assign a.configuration } := by
  induction settings generalizing a with
  | nil => rfl
  | cons setting rest ih => exact ih { a with configuration := a.configuration.assign setting }

end VirtualAgent
