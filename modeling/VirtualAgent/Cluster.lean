import VirtualAgent.BroadcastMessage
import VirtualAgent.BroadcastTdf
import VirtualAgent.Provenance

/-!
# A cluster of agents

Each host runs an agent with its monitor. An iteration of the monitor broadcasts the
factor the host needs, and the datagram goes to the agents of all hosts. The network loses
datagrams, delivers them again, and lets them overtake each other: what a host receives is
any datagram sent so far. Between two of these, an agent performs a command of an operator
or an update cycle.

`cluster_in_bounds` says that the factors cannot get out of hand on the way. If the bounds
set on every host are within two numbers, then in every run the factors in force, at every
agent, are one or within these numbers, and an entry of a table is what the host it is
named after has broadcast, and nothing else.
-/

set_option autoImplicit false

namespace VirtualAgent

open ExactFloat CText Outcome Transition
open ExactFloat.LongDouble (HasValue)
open Std (ExtTreeMap)

/-! ## The cluster -/

/-- What the hosts take from their systems: their names, the text that is printed for a
factor, and the power function. -/
structure Site (ι : Type) where
  hostname : ι → CString
  text : LongDouble → CString
  pow : LongDouble → LongDouble → LongDouble

/-- A factor that a host has broadcast. -/
abbrev Sending (ι : Type) := ι × LongDouble

/-- The datagram of a broadcast. -/
def Site.datagram {ι : Type} (site : Site ι) (sending : Sending ι) : CString :=
  broadcastMessage (site.hostname sending.1) (site.text sending.2)

/-- The factor that is read back from the text of a factor. -/
def Site.readBack {ι : Type} (site : Site ι) (factor : LongDouble) : LongDouble :=
  atof (upToNul (site.text factor))

/-- A host: its agent and monitor, which share their configuration, and its receiving
server. -/
structure Host where
  agent : Agent
  monitor : CpuMonitor
  server : UdpAsyncServer

namespace Host

/-- A datagram is received, and what of it is passed on is performed. -/
def receive (h : Host) (received : CString) : Option Host :=
  (h.server.receiveFrom received).toOption.bind fun (server, messages) =>
    (run eventStep h.agent (messages.map .udp)).map fun agent => { h with agent, server }

/-- An event of the agent. -/
def perform (h : Host) (event : Event) : Option Host :=
  (eventStep h.agent event).map fun agent =>
    { h with agent, monitor.configuration := agent.configuration }

theorem receive_of_messages {h : Host} {received : CString} {messages : List CString}
    {server : UdpAsyncServer} {agent : Agent}
    (accepted : h.server.receiveFrom received = .ok (server, messages))
    (ran : run eventStep h.agent (messages.map .udp) = some agent) :
    h.receive received = some { h with agent, server } := by
  simp [receive, accepted, ran, Except.toOption]

end Host

/-- The hosts, and every broadcast sent so far. -/
structure Cluster (ι : Type) where
  hosts : ι → Host
  sent : List (Sending ι)

/-- The hosts when their threads have been created. -/
def Cluster.initial {ι : Type} (created : ι → HostReading) (memory : ι → Buffer maxLength) :
    Cluster ι where
  hosts := fun host =>
    { agent := .initial (created host), monitor := .start {}, server := ⟨memory host⟩ }
  sent := []

/-- What happens in the cluster. -/
inductive ClusterAction (ι : Type) where
  /-- An iteration of the monitor of a host. -/
  | iteration (host : ι) (reading : MonitorReading)
  /-- A host receives one of the datagrams sent so far. -/
  | deliver (host : ι) (index : ℕ)
  /-- A command of an operator, or an update cycle. -/
  | event (host : ι) (event : Event)

variable {ι : Type}

/-- The step of a run of the cluster. -/
def clusterStep [DecidableEq ι] (site : Site ι) (c : Cluster ι) :
    ClusterAction ι → Option (Cluster ι)
  | .iteration host reading =>
      let h := c.hosts host
      some {
        hosts := Function.update c.hosts host
          { h with monitor := h.monitor.iterate site.pow reading }
        sent := c.sent ++ ((h.monitor.broadcast site.pow reading).map (host, ·)).toList }
  | .deliver host index => do
      let sending ← c.sent[index]?
      let h ← (c.hosts host).receive (site.datagram sending)
      return { c with hosts := Function.update c.hosts host h }
  | .event host event => do
      let h ← (c.hosts host).perform event
      return { c with hosts := Function.update c.hosts host h }

/-! ## What the systems of the hosts are relied on for -/

/-- The names have no bars, and the text of a factor within two numbers is a short text
without bars that is read back within them. -/
structure Site.Regular (site : Site ι) (low high : ℚ) : Prop where
  isPow : IsPow site.pow
  nonempty : ∀ host, site.hostname host ≠ []
  noNul : ∀ host, 0 ∉ site.hostname host
  noBar : ∀ host, 124 ∉ site.hostname host
  shortName : ∀ host, (site.hostname host).length < 256
  noBar_text : ∀ (factor : LongDouble) (q : ℚ), factor.HasValue q → low ≤ q → q ≤ high →
    124 ∉ site.text factor
  shortText : ∀ (factor : LongDouble) (q : ℚ), factor.HasValue q → low ≤ q → q ≤ high →
    (site.text factor).length < 256
  readBack : ∀ (factor : LongDouble) (q : ℚ), factor.HasValue q → low ≤ q → q ≤ high →
    ∃ r, (site.readBack factor).HasValue r ∧ low ≤ r ∧ r ≤ high

/-- A number within the bounds. -/
def InBounds (low high : ℚ) (factor : LongDouble) : Prop :=
  ∃ q, factor.HasValue q ∧ low ≤ q ∧ q ≤ high

/-- A factor in force: one, or a number within the bounds. -/
def OneOrInBounds (low high : ℚ) (factor : LongDouble) : Prop :=
  factor = 1 ∨ InBounds low high factor

theorem Site.Regular.noBar_of_inBounds {site : Site ι} {low high : ℚ}
    (regular : site.Regular low high) {factor : LongDouble} (inBounds : InBounds low high factor) :
    124 ∉ site.text factor := by
  obtain ⟨q, value, least, greatest⟩ := inBounds
  exact regular.noBar_text _ q value least greatest

/-- The message of a factor within the bounds fits the buffer of a receiver. -/
theorem Site.Regular.length_broadcastMessage {site : Site ι} {low high : ℚ}
    (regular : site.Regular low high) (host : ι) {factor : LongDouble}
    (inBounds : InBounds low high factor) :
    (broadcastMessage (site.hostname host) (site.text factor)).length < maxLength := by
  obtain ⟨q, value, least, greatest⟩ := inBounds
  have shortName := regular.shortName host
  have shortText := regular.shortText _ q value least greatest
  have protocol : (ascii "0010|").length = 5 := by decide
  have bar : (ascii "|").length = 1 := by decide
  simp only [broadcastMessage, List.length_append, protocol, bar, maxLength]
  omega

/-- A broadcast of a factor within the bounds is one that peers can receive. -/
def Site.Regular.hostBroadcast {site : Site ι} {low high : ℚ} (regular : site.Regular low high)
    (sending : Sending ι) (inBounds : InBounds low high sending.2) : HostBroadcast where
  hostname := site.hostname sending.1
  rTdf := site.text sending.2
  nonempty := regular.nonempty sending.1
  noNul := regular.noNul sending.1
  noBar := regular.noBar sending.1
  noBar_rTdf := regular.noBar_of_inBounds inBounds
  fits := regular.length_broadcastMessage sending.1 inBounds

/-! ## Events -/

/-- The commands of the operators bring no entry, and impose factors within the bounds
only. -/
def Statement.Imposes (low high : ℚ) : Statement → Prop
  | .tdfTableSet _ _ => False
  | .enforceTdf factor => InBounds low high factor
  | _ => True

variable {low high : ℚ}

theorem Statement.Imposes.brings {statement : Statement} (imposes : statement.Imposes low high) :
    ∀ factor ∈ statement.brings, OneOrInBounds low high factor := by
  cases statement with
  | tdfTableSet hostname tdf => exact imposes.elim
  | enforceTdf tdf =>
      intro factor member
      obtain rfl := List.mem_singleton.mp member
      exact Or.inr imposes
  | _ =>
      intro factor member
      cases member

/-- What an iteration sends is within the bounds set on its monitor. -/
theorem inBounds_of_broadcast {pow : LongDouble → LongDouble → LongDouble} (isPow : IsPow pow)
    {m : CpuMonitor} {reading : MonitorReading} (numeric : m.configuration.Numeric)
    (finite : m.Finite) (defined : m.LoadDefined reading)
    (least : low ≤ m.configuration.tdfMin.toRat)
    (greatest : m.configuration.tdfMax.toRat ≤ high) {factor : LongDouble}
    (broadcast : m.broadcast pow reading = some factor) : InBounds low high factor := by
  have bounds := broadcast_bounds isPow numeric finite defined broadcast
  have value := LongDouble.hasValue_toRat bounds.finite
  have atMin := LongDouble.hasValue_toRat numeric.tdfMin
  have atMax := LongDouble.hasValue_toRat numeric.tdfMax
  exact ⟨factor.toRat, value, least.trans ((atMin.le_iff value).mp bounds.least),
    ((value.le_iff atMax).mp bounds.greatest).trans greatest⟩

/-- Statements leave the entries, clear them, or set one. -/
theorem tdfMap_of_exec {a next : Agent} {statement : Statement} {reading : HostReading}
    {notified : Bool} (done : statement.exec a reading = .ok (next, notified)) :
    next.tdfTable.tdfMap = a.tdfTable.tdfMap ∨ next.tdfTable.tdfMap = ∅ ∨
      ∃ hostname tdf, statement = .tdfTableSet hostname tdf ∧
        next.tdfTable.tdfMap = a.tdfTable.tdfMap.insert hostname (some ⟨tdf⟩) := by
  cases statement with
  | tdfTableSet hostname tdf =>
      obtain ⟨tdfTable, set, rfl⟩ := exec_tdfTableSet.mp done
      exact Or.inr (Or.inr ⟨hostname, tdf, rfl, TdfTable.set_tdfMap set⟩)
  | setFlagKeep ifaceName flagKeep =>
      obtain ⟨ifaceAttrTable, -, rfl, -⟩ := exec_setFlagKeep.mp done
      exact Or.inl rfl
  | clear =>
      cases done
      exact Or.inr (Or.inl rfl)
  | _ =>
      cases done
      exact Or.inl rfl

/-- UDP messages assign no setting. -/
theorem configuration_of_udp {a next : Agent} {msg : CString}
    (done : (Event.udp msg).perform a = .ok next) : next.configuration = a.configuration := by
  rw [configuration_of_execAll done]
  cases parsed : parseUdpMsg msg with
  | none => rfl
  | some message =>
      rcases parseUdpMsg_cases parsed with ⟨hostname, tdf, rfl⟩ | ⟨ifaceName, rate, delay, rfl⟩
      · rfl
      · rfl

/-- What is asked of the factors and the entries of an agent. -/
structure Agent.Sound (low high : ℚ) (written : CString → LongDouble → Prop) (a : Agent) :
    Prop where
  nonNull : a.NonNull
  factors : a.AllTdf (OneOrInBounds low high)
  entries : ∀ (name : CString) (entry : TdfEntry),
    a.tdfTable.tdfMap[name]? = some (some entry) → written name entry.baseTdf

namespace Agent.Sound

variable {written : CString → LongDouble → Prop} {a next : Agent}

theorem initial (created : HostReading) : (Agent.initial created).Sound low high written where
  nonNull := nonNull_initial created
  factors := (allTdf_initial (Or.inl rfl) created created).agent
  entries := by simp [Agent.initial]

theorem mono (sound : a.Sound low high written) {more : CString → LongDouble → Prop}
    (weaker : ∀ name factor, written name factor → more name factor) :
    a.Sound low high more :=
  ⟨sound.nonNull, sound.factors, fun name entry found =>
    weaker _ _ (sound.entries name entry found)⟩

/-- A statement of an operator. -/
theorem exec (sound : a.Sound low high written) {statement : Statement} {reading : HostReading}
    {notified : Bool} (imposes : statement.Imposes low high)
    (done : statement.exec a reading = .ok (next, notified)) :
    next.Sound low high written := by
  refine ⟨sound.nonNull.exec done, sound.factors.exec imposes.brings done, ?_⟩
  intro name entry found
  rcases tdfMap_of_exec done with same | cleared | ⟨hostname, tdf, rfl, -⟩
  · rw [same] at found
    exact sound.entries name entry found
  · rw [cleared] at found
    simp at found
  · exact imposes.elim

/-- **An event of an agent keeps its factors and entries sound**, if the operators impose
only factors within the bounds. -/
theorem perform (sound : a.Sound low high written) {event : Event}
    (imposes : ∀ statement ∈ statementsOf event.message, statement.Imposes low high)
    (done : event.perform a = .ok next) : next.Sound low high written := by
  rcases event.perform_eq a with ⟨suspendAt, resumeAt, rfl⟩ | ⟨reading, performed⟩
  · obtain ⟨-, -, -, tdfTable_eq, -, sharedTdf_eq, -, -⟩ := Agent.updateCycle_ok done
    refine ⟨sound.nonNull.updateCycle done, ⟨?_, ?_, ?_⟩, ?_⟩
    · rw [tdfTable_eq]
      exact sound.factors.entries
    · rw [tdfTable_eq]
      exact sound.factors.latestTdf
    · rw [sharedTdf_eq]
      exact sound.factors.latestTdf
    · rw [tdfTable_eq]
      exact sound.entries
  · rw [performed] at done
    refine foldlM_invariant (Agent.Sound low high written) ?_ sound done
    intro s statement after member kept stepped
    obtain ⟨notified, executed⟩ := exec_of_step stepped
    exact kept.exec (imposes statement member) executed

/-- **A broadcast writes the entry of its host**, whatever the agent has been through. -/
theorem receive (sound : a.Sound low high written) (b : HostBroadcast)
    (within : InBounds low high b.tdf) (sent : written b.hostname b.tdf) :
    ∃ tdfTable notified,
      a.tdfTable.set a.configuration.tdfChangeThreshold b.hostname b.tdf =
        .ok (tdfTable, notified) ∧
      run eventStep a [.udp (upToNul b.msg)] = some { a with tdfTable } ∧
      Agent.Sound low high written { a with tdfTable } := by
  obtain ⟨tdfTable, notified, set⟩ := TdfTable.set_ok sound.nonNull.tdfMap
    a.configuration.tdfChangeThreshold b.hostname b.tdf
  have executed : (Statement.tdfTableSet b.hostname b.tdf).exec a ⟨0, 0⟩ =
      .ok ({ a with tdfTable }, notified) := exec_tdfTableSet.mpr ⟨tdfTable, set, rfl⟩
  have performed : (Event.udp (upToNul b.msg)).perform a = .ok { a with tdfTable } := by
    rw [Event.perform, b.parseUdpMsg_msg]
    exact execAll_singleton.mpr ⟨notified, executed⟩
  refine ⟨tdfTable, notified, set,
    run_cons_eq_some.mpr ⟨_, eventStep_eq_some.mpr performed, rfl⟩,
    sound.nonNull.exec executed, sound.factors.exec ?_ executed, ?_⟩
  · intro factor member
    obtain rfl := List.mem_singleton.mp member
    exact Or.inr within
  · intro name entry found
    change tdfTable.tdfMap[name]? = some (some entry) at found
    rw [TdfTable.set_tdfMap set, ExtTreeMap.getElem?_insert] at found
    split at found
    case isTrue same =>
      obtain rfl := Std.LawfulEqCmp.eq_of_compare same
      cases found
      exact sent
    case isFalse => exact sound.entries name entry found

end Agent.Sound

/-! ## Runs -/

/-- A host has broadcast the factor that stands under its name. -/
def Written (site : Site ι) (sent : List (Sending ι)) (name : CString) (factor : LongDouble) :
    Prop :=
  ∃ sending ∈ sent, site.hostname sending.1 = name ∧ factor = site.readBack sending.2

theorem Written.append {site : Site ι} {sent : List (Sending ι)} {name : CString}
    {factor : LongDouble} (written : Written site sent name factor) (more : List (Sending ι)) :
    Written site (sent ++ more) name factor := by
  obtain ⟨sending, member, read⟩ := written
  exact ⟨sending, List.mem_append_left _ member, read⟩

/-- The bounds of a monitor are within two numbers, with settings that it can compute with,
and the operators impose only factors within them. -/
def Restrained (low high : ℚ) (c : Cluster ι) : ClusterAction ι → Prop
  | .iteration host reading =>
      let monitor := (c.hosts host).monitor
      monitor.configuration.Numeric ∧ monitor.LoadDefined reading ∧
        low ≤ monitor.configuration.tdfMin.toRat ∧ monitor.configuration.tdfMax.toRat ≤ high
  | .deliver _ _ => True
  | .event _ event => ∀ statement ∈ statementsOf event.message, statement.Imposes low high

/-- The agents are sound, the numbers of the monitors finite, and what was sent is within
the bounds. -/
structure Cluster.Sound (site : Site ι) (low high : ℚ) (c : Cluster ι) : Prop where
  agent : ∀ host, (c.hosts host).agent.Sound low high (Written site c.sent)
  finite : ∀ host, (c.hosts host).monitor.Finite
  sent : ∀ sending ∈ c.sent, InBounds low high sending.2

namespace Cluster.Sound

variable {site : Site ι} {c next : Cluster ι}

theorem initial (created : ι → HostReading) (memory : ι → Buffer maxLength) :
    (Cluster.initial created memory).Sound site low high where
  agent := fun host => .initial (created host)
  finite := fun _ => CpuMonitor.finite_start (by decide +kernel)
  sent := by simp [Cluster.initial]

variable [DecidableEq ι]

/-- **An iteration sends a factor within the bounds**, and changes no agent. -/
theorem iteration (sound : c.Sound site low high) (regular : site.Regular low high) {host : ι}
    {reading : MonitorReading} (restrained : Restrained low high c (.iteration host reading))
    (stepped : clusterStep site c (.iteration host reading) = some next) :
    next.Sound site low high := by
  obtain ⟨numeric, defined, least, greatest⟩ := restrained
  cases stepped
  refine ⟨?_, ?_, ?_⟩
  · intro other
    have kept := (sound.agent other).mono fun name factor written =>
      written.append ((((c.hosts host).monitor.broadcast site.pow reading).map (host, ·)).toList)
    by_cases own : other = host
    · subst own
      simpa using kept
    · simpa [Function.update_of_ne own] using kept
  · intro other
    by_cases own : other = host
    · subst own
      simpa using (iterate_spec regular.isPow numeric (sound.finite other) defined).1
    · simpa [Function.update_of_ne own] using sound.finite other
  · intro sending member
    rcases List.mem_append.mp member with old | new
    · exact sound.sent sending old
    · obtain ⟨factor, broadcast, rfl⟩ := Option.map_eq_some_iff.mp (Option.mem_toList.mp new)
      exact inBounds_of_broadcast regular.isPow numeric (sound.finite host) defined least greatest
        broadcast

/-- The agent of a host is replaced by a sound one. -/
theorem update (sound : c.Sound site low high) {host : ι} {changed : Host}
    (agent : changed.agent.Sound low high (Written site c.sent))
    (finite : changed.monitor.Finite) :
    Cluster.Sound site low high { c with hosts := Function.update c.hosts host changed } where
  agent := by
    intro other
    by_cases own : other = host
    · subst own
      simpa using agent
    · simpa [Function.update_of_ne own] using sound.agent other
  finite := by
    intro other
    by_cases own : other = host
    · subst own
      simpa using finite
    · simpa [Function.update_of_ne own] using sound.finite other
  sent := sound.sent

/-- **A datagram that was sent can be delivered**, and the agent sets the entry of its sender
to the factor that is read back. -/
theorem exists_deliver (sound : c.Sound site low high) (regular : site.Regular low high)
    (host : ι) {index : ℕ} {sending : Sending ι} (found : c.sent[index]? = some sending) :
    ∃ tdfTable notified server,
      (c.hosts host).agent.tdfTable.set (c.hosts host).agent.configuration.tdfChangeThreshold
        (site.hostname sending.1) (site.readBack sending.2) = .ok (tdfTable, notified) ∧
      clusterStep site c (.deliver host index) = some { c with
        hosts := Function.update c.hosts host
          { c.hosts host with agent := { (c.hosts host).agent with tdfTable }, server } } ∧
      Cluster.Sound site low high { c with
        hosts := Function.update c.hosts host
          { c.hosts host with agent := { (c.hosts host).agent with tdfTable }, server } } := by
  have member := List.mem_of_getElem? found
  let b := regular.hostBroadcast sending (sound.sent sending member)
  have readBack : InBounds low high (site.readBack sending.2) := by
    obtain ⟨q, value, least, greatest⟩ := sound.sent sending member
    exact regular.readBack _ q value least greatest
  obtain ⟨server, accepted⟩ := b.receiveFrom_msg (c.hosts host).server
  obtain ⟨tdfTable, notified, set, ran, kept⟩ :=
    (sound.agent host).receive b readBack ⟨sending, member, rfl, rfl⟩
  have changed : (c.hosts host).receive (site.datagram sending) = _ :=
    Host.receive_of_messages accepted ran
  refine ⟨tdfTable, notified, server, set, ?_, sound.update kept (sound.finite host)⟩
  simp [clusterStep, found, changed]

/-- **What a delivery does**: the agent sets the entry of the sender to the factor that is
read back, whatever else was delivered before. -/
theorem deliver (sound : c.Sound site low high) (regular : site.Regular low high) {host : ι}
    {index : ℕ} (stepped : clusterStep site c (.deliver host index) = some next) :
    ∃ sending tdfTable notified server, c.sent[index]? = some sending ∧
      (c.hosts host).agent.tdfTable.set (c.hosts host).agent.configuration.tdfChangeThreshold
        (site.hostname sending.1) (site.readBack sending.2) = .ok (tdfTable, notified) ∧
      next = { c with hosts := Function.update c.hosts host { c.hosts host with
        agent := { (c.hosts host).agent with tdfTable }, server } } ∧
      next.Sound site low high := by
  obtain ⟨sending, found, -⟩ := Option.bind_eq_some_iff.mp stepped
  obtain ⟨tdfTable, notified, server, set, delivered, kept⟩ :=
    sound.exists_deliver regular host found
  obtain rfl := Option.some.inj (delivered.symm.trans stepped)
  exact ⟨sending, tdfTable, notified, server, found, set, rfl, kept⟩

/-- **Every step keeps the cluster sound.** -/
theorem step (sound : c.Sound site low high) (regular : site.Regular low high)
    {action : ClusterAction ι} (restrained : Restrained low high c action)
    (stepped : clusterStep site c action = some next) : next.Sound site low high := by
  cases action with
  | iteration host reading => exact sound.iteration regular restrained stepped
  | deliver host index =>
      obtain ⟨sending, tdfTable, notified, server, -, -, -, kept⟩ := sound.deliver regular stepped
      exact kept
  | event host event =>
      obtain ⟨h, performedBy, returned⟩ := Option.bind_eq_some_iff.mp stepped
      cases returned
      obtain ⟨agent, performed, rfl⟩ := Option.map_eq_some_iff.mp performedBy
      have kept := (sound.agent host).perform restrained (eventStep_eq_some.mp performed)
      obtain ⟨average, tdfLoad, tdfSim⟩ := sound.finite host
      exact sound.update kept ⟨average, tdfLoad, tdfSim⟩

theorem of_run (sound : c.Sound site low high) (regular : site.Regular low high)
    {actions : List (ClusterAction ι)}
    (restrained : Meets (clusterStep site) (Restrained low high) c actions)
    (ran : run (clusterStep site) c actions = some next) : next.Sound site low high :=
  run_invariant_of_meets (Cluster.Sound site low high)
    (fun _ _ _ sound restrained stepped => sound.step regular restrained stepped)
    sound restrained ran

end Cluster.Sound

variable [DecidableEq ι]

/-- The guests of a host run on the factor its agent has adopted after an update cycle. -/
theorem sharedTdf_of_cycle {site : Site ι} {c next : Cluster ι} {host : ι}
    {suspendAt resumeAt : HostReading}
    (stepped : clusterStep site c (.event host (.cycle suspendAt resumeAt)) = some next) :
    (next.hosts host).agent.sharedTdf = (c.hosts host).agent.tdfTable.latestTdf := by
  obtain ⟨h, performedBy, returned⟩ := Option.bind_eq_some_iff.mp stepped
  cases returned
  obtain ⟨agent, performed, rfl⟩ := Option.map_eq_some_iff.mp performedBy
  obtain ⟨-, -, -, -, -, sharedTdf_eq, -, -⟩ :=
    Agent.updateCycle_ok (eventStep_eq_some.mp performed)
  dsimp only
  rw [Function.update_self, sharedTdf_eq]

/-- **No factor gets out of hand in a cluster.** In every run in which the bounds set on the
hosts, and the factors their operators impose, are within two numbers, and for every
network that loses, doubles and reorders datagrams, the latest factor of each agent and
the factor its guests run on are one or within these numbers, and each entry of its table
was broadcast by a host of that name, within these numbers. -/
theorem cluster_in_bounds (site : Site ι) (low high : ℚ) (regular : site.Regular low high)
    (created : ι → HostReading) (memory : ι → Buffer maxLength)
    (actions : List (ClusterAction ι))
    (restrained : Meets (clusterStep site) (Restrained low high)
      (Cluster.initial created memory) actions)
    (c : Cluster ι) (ran : run (clusterStep site) (Cluster.initial created memory) actions = some c)
    (host : ι) :
    OneOrInBounds low high (c.hosts host).agent.tdfTable.latestTdf ∧
      OneOrInBounds low high (c.hosts host).agent.sharedTdf ∧
      ∀ (name : CString) (entry : TdfEntry),
        (c.hosts host).agent.tdfTable.tdfMap[name]? = some (some entry) →
        ∃ sender factor, (sender, factor) ∈ c.sent ∧ site.hostname sender = name ∧
          InBounds low high factor ∧ entry.baseTdf = site.readBack factor := by
  have sound : c.Sound site low high :=
    Cluster.Sound.of_run (.initial created memory) regular restrained ran
  obtain ⟨-, factors, entries⟩ := sound.agent host
  refine ⟨factors.latestTdf, factors.sharedTdf, ?_⟩
  intro name entry found
  obtain ⟨⟨sender, factor⟩, member, named, read⟩ := entries name entry found
  exact ⟨sender, factor, member, named, sound.sent _ member, read⟩

/-! ## Two hosts -/

/-- A whole number, as it is printed. -/
def wholeText (factor : LongDouble) : CString :=
  (Nat.toDigits 10 factor.toInt.toNat).map fun c => c.toNat.toUInt8

/-- Two hosts, whose factors are whole numbers. -/
def twoHosts : Site Bool where
  hostname := fun host => if host then ascii "a" else ascii "b"
  text := wholeText
  pow := integerPow

theorem regular_twoHosts : twoHosts.Regular 1 20 := by
  have whole : ∀ n < 21, 1 ≤ n →
      (!((Nat.toDigits 10 n).map fun c => c.toNat.toUInt8).contains 124 &&
        decide (((Nat.toDigits 10 n).map fun c => c.toNat.toUInt8).length < 256) &&
        decide ((atof (upToNul ((Nat.toDigits 10 n).map fun c => c.toNat.toUInt8))).HasValue n))
          = true := by decide +kernel
  have printed : ∀ (factor : LongDouble) (q : ℚ), factor.HasValue q → 1 ≤ q → q ≤ 20 →
      124 ∉ wholeText factor ∧ (wholeText factor).length < 256 ∧
        ∃ r, (atof (upToNul (wholeText factor))).HasValue r ∧ 1 ≤ r ∧ r ≤ 20 := by
    intro factor q value least greatest
    have nonneg : 0 ≤ q := zero_le_one.trans least
    have lower : 1 ≤ ⌊q⌋ := Int.le_floor.mpr (by exact_mod_cast least)
    have upper : ⌊q⌋ ≤ 20 := by exact_mod_cast (Int.floor_le q).trans greatest
    have number : factor.toInt = ⌊q⌋ := by
      rw [value.toInt, Truncation.truncate_of_nonneg nonneg]
    have digits := whole factor.toInt.toNat (by omega) (by omega)
    simp only [Bool.and_eq_true, Bool.not_eq_true', decide_eq_true_eq, List.contains_eq_mem,
      decide_eq_false_iff_not] at digits
    obtain ⟨⟨noBar, short⟩, read⟩ := digits
    refine ⟨noBar, short, _, read, ?_, ?_⟩
    · exact_mod_cast (show 1 ≤ factor.toInt.toNat by omega)
    · exact_mod_cast (show factor.toInt.toNat ≤ 20 by omega)
  exact {
    isPow := isPow_integerPow
    nonempty := by decide
    noNul := by decide
    noBar := by decide
    shortName := by decide
    noBar_text := fun factor q value least greatest => (printed factor q value least greatest).1
    shortText := fun factor q value least greatest => (printed factor q value least greatest).2.1
    readBack := fun factor q value least greatest => (printed factor q value least greatest).2.2 }

instance (low high : ℚ) (factor : LongDouble) : Decidable (InBounds low high factor) :=
  decidable_of_iff (factor.isFinite = true ∧ low ≤ factor.toRat ∧ factor.toRat ≤ high)
    ⟨fun ⟨finite, least, greatest⟩ =>
        ⟨_, LongDouble.hasValue_toRat finite, least, greatest⟩,
      fun ⟨_, ⟨finite, rfl⟩, least, greatest⟩ => ⟨finite, least, greatest⟩⟩

instance (low high : ℚ) : DecidablePred (Statement.Imposes low high)
  | .tdfTableSet _ _ => inferInstanceAs (Decidable False)
  | .enforceTdf factor => inferInstanceAs (Decidable (InBounds low high factor))
  | .ifaceAttrTableSet _ _ _ | .setFlagKeep _ _ | .changeInterfaceAttribute _ _ _
  | .replaceInterfaceAttribute _ _ _ _ | .enableTable | .disableTable | .clear | .configure _
  | .cpuDisableTicks | .cpuEnableTicks | .semaphoreSetval _ => inferInstanceAs (Decidable True)

instance (low high : ℚ) (c : Cluster ι) : DecidablePred (Restrained low high c)
  | .iteration host reading =>
      have : Decidable ((c.hosts host).monitor.LoadDefined reading) :=
        inferInstanceAs (Decidable (LoadDefined (c.hosts host).monitor (.iteration reading)))
      inferInstanceAs (Decidable (_ ∧ _ ∧ _ ≤ _ ∧ _ ≤ _))
  | .deliver _ _ => inferInstanceAs (Decidable True)
  | .event _ event =>
      inferInstanceAs (Decidable (∀ statement ∈ statementsOf event.message, _))

/-- The second host is busy and asks for the greatest factor, which reaches the first one
twice and its guests once. -/
def busySecond : List (ClusterAction Bool) :=
  [.event true (.tcp (ascii "12") ⟨1, 1⟩), .event false (.tcp (ascii "20|3|4|1") ⟨1, 1⟩),
    .iteration false ⟨0, 0, 0, 0⟩, .deliver true 0, .event true (.cycle ⟨2, 2⟩ ⟨3, 3⟩),
    .deliver true 0]

theorem cluster_in_bounds_busy :
    ∃ c, run (clusterStep twoHosts)
        (Cluster.initial (fun _ => ⟨0, 0⟩) fun _ => Buffer.zeros maxLength) busySecond = some c ∧
      (c.hosts true).agent.sharedTdf = .ofRat 20 ∧
      OneOrInBounds 1 20 (c.hosts true).agent.sharedTdf := by
  obtain ⟨c, ran, shared⟩ :
      ∃ c, run (clusterStep twoHosts)
        (Cluster.initial (fun _ => ⟨0, 0⟩) fun _ => Buffer.zeros maxLength) busySecond = some c ∧
        (c.hosts true).agent.sharedTdf = .ofRat 20 := by
    apply exists_of_any
    decide +kernel
  exact ⟨c, ran, shared, (cluster_in_bounds twoHosts 1 20 regular_twoHosts _ _ busySecond
    (by decide +kernel) c ran true).2.1⟩

end VirtualAgent
