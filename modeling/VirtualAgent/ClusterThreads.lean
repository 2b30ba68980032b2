import VirtualAgent.Cluster
import VirtualAgent.EventOrder

/-!
# A cluster of agents that run their threads

The hosts of a cluster with the threads of their agents: a datagram is received when the
thread of the servers has done with the message before it, and performed statement by
statement, while an update cycle, the main thread and the monitor go on.

`threads_refine_cluster` says that such a cluster does what one does in which messages and
cycles are performed as a whole, as long as no message writes an interface table during a
pass over it and no monitor finds the settings of a message half assigned. A datagram counts
as delivered where its first statement is performed, which may be after others have been
sent. `threads_in_bounds` asks for neither: it follows the factors through the statements.
-/

set_option autoImplicit false

namespace VirtualAgent

open ExactFloat CText Outcome Transition

/-! ## The cluster -/

/-- The statement assigns a setting. -/
def Statement.assigns : Statement → Bool
  | .configure _ => true
  | _ => false

/-- A host: the threads of its agent, the numbers of its monitor, and its receiving
server. -/
structure ThreadedHost where
  world : World
  monitor : CpuMonitor
  server : UdpAsyncServer

namespace ThreadedHost

/-- The monitor, with the settings it finds. -/
def current (h : ThreadedHost) : CpuMonitor :=
  { h.monitor with configuration := h.world.agent.configuration }

/-- The thread of the servers receives a datagram. -/
def receive (h : ThreadedHost) (received : CString) : Option ThreadedHost :=
  if h.world.io = [] then
    (h.server.receiveFrom received).toOption.bind fun (server, messages) =>
      (run threadStep h.world (messages.map .receiveUdp)).map fun world => { h with world, server }
  else none

/-- No setting of a message is left to be assigned. -/
def SettingsDone (h : ThreadedHost) : Prop :=
  ∀ statement ∈ h.world.io, statement.assigns = false

instance (h : ThreadedHost) : Decidable h.SettingsDone :=
  inferInstanceAs (Decidable (∀ statement ∈ h.world.io, statement.assigns = false))

end ThreadedHost

/-- The hosts, and every broadcast sent so far. -/
structure ThreadedCluster (ι : Type) where
  hosts : ι → ThreadedHost
  sent : List (Sending ι)

/-- The hosts when the threads of their servers have been created. -/
def ThreadedCluster.initial {ι : Type} (created started : ι → HostReading)
    (memory : ι → Buffer maxLength) : ThreadedCluster ι where
  hosts := fun host =>
    { world := .initial (created host) (started host), monitor := .start {},
      server := ⟨memory host⟩ }
  sent := []

/-- What happens in the cluster. -/
inductive ThreadedAction (ι : Type) where
  /-- An iteration of the monitor of a host. -/
  | iteration (host : ι) (reading : MonitorReading)
  /-- A host receives one of the datagrams sent so far. -/
  | deliver (host : ι) (index : ℕ)
  /-- A step of the threads of a host, or a message from elsewhere. -/
  | thread (host : ι) (action : ThreadAction)

variable {ι : Type}

/-- The step of a run of the cluster. -/
def threadedStep [DecidableEq ι] (site : Site ι) (c : ThreadedCluster ι) :
    ThreadedAction ι → Option (ThreadedCluster ι)
  | .iteration host reading =>
      let h := c.hosts host
      if h.world.monitorPc = .running then
        some {
          hosts := Function.update c.hosts host
            { h with monitor := h.current.iterate site.pow reading }
          sent := c.sent ++ ((h.current.broadcast site.pow reading).map (host, ·)).toList }
      else none
  | .deliver host index => do
      let sending ← c.sent[index]?
      let h ← (c.hosts host).receive (site.datagram sending)
      return { c with hosts := Function.update c.hosts host h }
  | .thread host action => do
      let world ← threadStep (c.hosts host).world action
      return { c with hosts := Function.update c.hosts host { c.hosts host with world } }

/-! ## What is asked of a run -/

section Asked

variable (P : Received → Prop) (Q : CpuMonitor → MonitorReading → Prop)

/-- The messages from elsewhere have one property, and the iterations another, for which
the monitor finds no message's settings half assigned. No message writes the interface table
of a host during a pass over it. -/
def ThreadedCluster.Asked (c : ThreadedCluster ι) : ThreadedAction ι → Prop
  | .iteration host reading =>
      (c.hosts host).SettingsDone ∧ Q (c.hosts host).current reading
  | .deliver _ _ => True
  | .thread host action =>
      (∀ received ∈ action.received, P received) ∧ WritesOutside (c.hosts host).world action

/-- The same of a cluster whose messages are performed as a whole. -/
def Cluster.Asked (c : Cluster ι) : ClusterAction ι → Prop
  | .iteration host reading => Q (c.hosts host).monitor reading
  | .deliver _ _ => True
  | .event _ event => ∀ received ∈ event.received, P received

end Asked

/-! ## One host -/

/-- A host is received from by one server, while the other is ahead by the message that
waits, which comes from elsewhere or is a datagram of the cluster. -/
inductive Awaits (site : Site ι) (sent : List (Sending ι)) (P : Received → Prop)
    (ahead : UdpAsyncServer) : UdpAsyncServer → List Received → Prop
  | same (waiting : List Received) (asked : ∀ received ∈ waiting, P received) :
      Awaits site sent P ahead ahead waiting
  | delivered (server : UdpAsyncServer) (index : ℕ) (sending : Sending ι) (msg : CString)
      (found : sent[index]? = some sending)
      (accepted : server.receiveFrom (site.datagram sending) = .ok (ahead, [msg])) :
      Awaits site sent P ahead server [.udp msg]

/-- No message waits when the one server is where the other is. -/
theorem Awaits.nothing_iff {site : Site ι} {sent : List (Sending ι)} {P : Received → Prop}
    {ahead server : UdpAsyncServer} :
    Awaits site sent P ahead server [] ↔ server = ahead := by
  constructor
  · intro awaits
    cases awaits
    rfl
  · rintro rfl
    exact .same [] fun _ member => absurd member List.not_mem_nil

theorem Awaits.append {site : Site ι} {sent : List (Sending ι)} {P : Received → Prop}
    {ahead server : UdpAsyncServer} {waiting : List Received}
    (awaits : Awaits site sent P ahead server waiting) (more : List (Sending ι)) :
    Awaits site (sent ++ more) P ahead server waiting := by
  cases awaits with
  | same waiting asked => exact .same waiting asked
  | delivered server index sending msg found accepted =>
      refine .delivered server index sending msg ?_ accepted
      rw [List.getElem?_append_left (List.getElem?_eq_some_iff.mp found).1]
      exact found

/-- The agent of one host has become another one, and its monitor has its settings. -/
structure Cluster.Moved (c c' : Cluster ι) (host : ι) (a : Agent) : Prop where
  sent : c'.sent = c.sent
  agent : (c'.hosts host).agent = a
  monitor : (c'.hosts host).monitor =
    { (c.hosts host).monitor with configuration := a.configuration }
  others : ∀ other, other ≠ host → c'.hosts other = c.hosts other

theorem Cluster.Moved.trans {c c' c'' : Cluster ι} {host : ι} {a a' : Agent}
    (first : c.Moved c' host a) (second : c'.Moved c'' host a') : c.Moved c'' host a' where
  sent := second.sent.trans first.sent
  agent := second.agent
  monitor := by rw [second.monitor, first.monitor]
  others := fun other apart => (second.others other apart).trans (first.others other apart)

section Host

variable [DecidableEq ι] {site : Site ι} {P : Received → Prop}
  {Q : CpuMonitor → MonitorReading → Prop} {c : Cluster ι} {host : ι} {a : Agent}
  {ahead : UdpAsyncServer} {waiting : List Received}

theorem moved_update (h : Host) (agent_eq : h.agent = a)
    (monitor_eq : h.monitor = { (c.hosts host).monitor with configuration := a.configuration }) :
    c.Moved { c with hosts := Function.update c.hosts host h } host a where
  sent := rfl
  agent := by simp [agent_eq]
  monitor := by simp [monitor_eq]
  others := fun other apart => by simp [Function.update_of_ne apart]

/-- An event that is not the datagram of the cluster that waits. -/
theorem exists_event {event : Event} (asked : ∀ received ∈ event.received, P received)
    (stepped : eventStep (c.hosts host).agent event = some a) :
    ∃ c', clusterStep site c (.event host event) = some c' ∧
      c.Asked P Q (.event host event) ∧ c.Moved c' host a ∧
      (c'.hosts host).server = (c.hosts host).server := by
  refine ⟨_, ?_, asked, moved_update { c.hosts host with
      agent := a, monitor.configuration := a.configuration } rfl rfl, ?_⟩
  · simp [clusterStep, Host.perform, stepped]
  · simp

/-- The datagram of the cluster that waits. -/
theorem exists_delivery {index : ℕ} {sending : Sending ι} {msg : CString}
    (found : c.sent[index]? = some sending)
    (accepted : (c.hosts host).server.receiveFrom (site.datagram sending) = .ok (ahead, [msg]))
    (settings : (c.hosts host).monitor.configuration = (c.hosts host).agent.configuration)
    (stepped : eventStep (c.hosts host).agent (.udp msg) = some a) :
    ∃ c', clusterStep site c (.deliver host index) = some c' ∧ c.Moved c' host a ∧
      (c'.hosts host).server = ahead := by
  have changed := Host.receive_of_messages accepted
    (run_cons_eq_some.mpr ⟨a, stepped, (rfl : run eventStep a [] = some a)⟩)
  have kept := configuration_of_udp (eventStep_eq_some.mp stepped)
  refine ⟨_, ?_, moved_update { c.hosts host with agent := a, server := ahead } rfl ?_, ?_⟩
  · simp [clusterStep, found, changed]
  · rw [kept, ← settings]
  · simp

/-- **An event of the agent is a step of the cluster**, a delivery or an event. -/
theorem exists_step_of_event {event : Event}
    (awaits : Awaits site c.sent P ahead (c.hosts host).server
      (event.received.toList ++ waiting))
    (settings : (c.hosts host).monitor.configuration = (c.hosts host).agent.configuration)
    (stepped : eventStep (c.hosts host).agent event = some a) :
    ∃ action c', clusterStep site c action = some c' ∧ c.Asked P Q action ∧ c.Moved c' host a ∧
      Awaits site c'.sent P ahead (c'.hosts host).server waiting := by
  obtain ⟨server, server_eq⟩ : ∃ server, (c.hosts host).server = server := ⟨_, rfl⟩
  obtain ⟨total, total_eq⟩ : ∃ total, event.received.toList ++ waiting = total := ⟨_, rfl⟩
  rw [server_eq, total_eq] at awaits
  cases awaits with
  | same total asked =>
      rw [← total_eq] at asked
      obtain ⟨c', performed, askedNow, moved, server_eq'⟩ := exists_event (Q := Q)
        (fun received member => asked received (by simp [Option.mem_def.mp member])) stepped
      refine ⟨_, c', performed, askedNow, moved, ?_⟩
      rw [server_eq', server_eq]
      exact .same waiting fun received member => asked received (List.mem_append_right _ member)
  | delivered server index sending msg found accepted =>
      cases received_eq : event.received with
      | none =>
          obtain ⟨c', performed, askedNow, moved, server_eq'⟩ := exists_event (Q := Q) (P := P)
            (by simp [received_eq]) stepped
          refine ⟨_, c', performed, askedNow, moved, ?_⟩
          rw [received_eq] at total_eq
          obtain rfl : waiting = [.udp msg] := total_eq
          rw [server_eq', server_eq, moved.sent]
          exact .delivered server index sending msg found accepted
      | some received =>
          rw [received_eq] at total_eq
          obtain ⟨rfl, rfl⟩ := List.cons.inj total_eq
          obtain rfl : event = .udp msg := by
            cases event with
            | udp msg' => simpa [Event.received] using received_eq
            | tcp msg' reading => simp [Event.received] at received_eq
            | cycle suspendAt resumeAt => simp [Event.received] at received_eq
          rw [← server_eq] at accepted
          obtain ⟨c', performed, moved, server_eq'⟩ :=
            exists_delivery found accepted settings stepped
          exact ⟨.deliver host index, c', performed, trivial, moved,
            Awaits.nothing_iff.mpr server_eq'⟩

/-- **Events of the agent are steps of the cluster.** -/
theorem exists_run_of_events {events : List Event}
    (awaits : Awaits site c.sent P ahead (c.hosts host).server
      (events.filterMap Event.received ++ waiting))
    (settings : (c.hosts host).monitor.configuration = (c.hosts host).agent.configuration)
    (ran : run eventStep (c.hosts host).agent events = some a) :
    ∃ actions c', run (clusterStep site) c actions = some c' ∧
      Meets (clusterStep site) (Cluster.Asked P Q) c actions ∧ c.Moved c' host a ∧
      Awaits site c'.sent P ahead (c'.hosts host).server waiting := by
  induction events generalizing c with
  | nil =>
      cases ran
      exact ⟨[], c, rfl, trivial, ⟨rfl, rfl, by rw [← settings], fun _ _ => rfl⟩, awaits⟩
  | cons event rest ih =>
      obtain ⟨middle, stepped, later⟩ := run_cons_eq_some.mp ran
      have order : (event :: rest).filterMap Event.received ++ waiting =
          event.received.toList ++ (rest.filterMap Event.received ++ waiting) := by
        rw [List.filterMap_cons]
        cases event.received <;> rfl
      rw [order] at awaits
      obtain ⟨action, c₁, moves, asked, moved, awaitsNow⟩ :=
        exists_step_of_event (Q := Q) awaits settings stepped
      have settingsNow : (c₁.hosts host).monitor.configuration =
          (c₁.hosts host).agent.configuration := by
        rw [moved.monitor, moved.agent]
      rw [← moved.agent] at later
      obtain ⟨actions, c', moveLater, askedLater, movedLater, awaitsLater⟩ :=
        ih awaitsNow settingsNow later
      refine ⟨action :: actions, c', run_cons_eq_some.mpr ⟨c₁, moves, moveLater⟩,
        ⟨asked, ?_⟩, moved.trans movedLater, awaitsLater⟩
      intro next stepped
      rw [moves] at stepped
      cases stepped
      exact askedLater

end Host

/-! ## All hosts -/

/-- A host whose threads are where the agent of another one is after whole events. -/
structure ThreadedHost.Follows (site : Site ι) (sent : List (Sending ι)) (P : Received → Prop)
    (th : ThreadedHost) (h : Host) : Prop where
  unstarted : th.world.Unstarted
  sound : th.world.Sound
  monitor : h.monitor = { th.monitor with configuration := h.agent.configuration }
  waiting : ∃ waiting, Serialized th.world waiting h.agent ∧
    Awaits site sent P th.server h.server waiting

/-- Every host is followed, and the same has been sent. -/
structure ThreadedCluster.Follows (site : Site ι) (P : Received → Prop) (t : ThreadedCluster ι)
    (c : Cluster ι) : Prop where
  sent : c.sent = t.sent
  hosts : ∀ host, (t.hosts host).Follows site t.sent P (c.hosts host)

theorem ThreadedCluster.follows_initial (site : Site ι) (P : Received → Prop)
    (created started : ι → HostReading) (memory : ι → Buffer maxLength) :
    (ThreadedCluster.initial created started memory).Follows site P
      (.initial created memory) where
  sent := rfl
  hosts := fun _ =>
    ⟨unstarted_initial _ _, World.sound_initial _ _, rfl, [], serialized_initial _ _,
      Awaits.nothing_iff.mpr rfl⟩

/-- Settings that no message is left to assign are those after the whole messages. -/
theorem Serialized.configuration_eq {w : World} {waiting : List Received} {a : Agent}
    (serialized : Serialized w waiting a)
    (settled : ∀ statement ∈ w.io, statement.assigns = false) :
    a.configuration = w.agent.configuration := by
  obtain ⟨rest, underway, synced⟩ := serialized.synced
  rw [synced.configuration]
  generalize w.io = io at underway settled
  cases underway with
  | waits received first rest statements => rfl
  | begun rest follow =>
      refine List.foldlRecOn (motive := (· = w.agent.configuration)) rest _ rfl ?_
      rintro configuration rfl statement member
      cases statement with
      | configure setting => cases settled _ member
      | _ => rfl

section Steps

variable [DecidableEq ι] {site : Site ι} {P : Received → Prop}
  {Q : CpuMonitor → MonitorReading → Prop} {t next : ThreadedCluster ι} {c : Cluster ι}

/-- Steps of the one cluster lead to where a step of the other one leads. -/
def Simulated (site : Site ι) (P : Received → Prop) (Q : CpuMonitor → MonitorReading → Prop)
    (c : Cluster ι) (next : ThreadedCluster ι) : Prop :=
  ∃ actions c', run (clusterStep site) c actions = some c' ∧ next.Follows site P c' ∧
    Meets (clusterStep site) (Cluster.Asked P Q) c actions

omit [DecidableEq ι] in
/-- A host follows another one when more has been sent. -/
theorem ThreadedHost.Follows.append {sent : List (Sending ι)} {th : ThreadedHost} {h : Host}
    (follows : th.Follows site sent P h) (more : List (Sending ι)) :
    th.Follows site (sent ++ more) P h := by
  obtain ⟨unstarted, sound, monitor, waiting, serialized, awaits⟩ := follows
  exact ⟨unstarted, sound, monitor, waiting, serialized, awaits.append more⟩

namespace ThreadedCluster.Follows

/-- One host changes on both sides, and more may be sent. -/
theorem update (follows : t.Follows site P c) (host : ι) (th : ThreadedHost) (h : Host)
    (more : List (Sending ι)) (followsHost : th.Follows site (t.sent ++ more) P h) :
    ThreadedCluster.Follows site P ⟨Function.update t.hosts host th, t.sent ++ more⟩
      ⟨Function.update c.hosts host h, c.sent ++ more⟩ where
  sent := by rw [follows.sent]
  hosts := by
    intro other
    by_cases own : other = host
    · subst own
      simpa using followsHost
    · simpa [Function.update_of_ne own] using (follows.hosts other).append more

/-- **The threads of a host are followed by steps of the cluster.** -/
theorem of_followed (follows : t.Follows site P c) {host : ι} (th : ThreadedHost)
    (unstarted : th.world.Unstarted) (sound : th.world.Sound)
    (monitor_eq : th.monitor = (t.hosts host).monitor)
    {waiting received : List Received}
    (awaits : Awaits site t.sent P th.server (c.hosts host).server (waiting ++ received))
    (followed : Followed waiting received (c.hosts host).agent th.world) :
    Simulated site P Q c { t with hosts := Function.update t.hosts host th } := by
  obtain ⟨events, a, waiting', ran, serialized, order⟩ := followed
  rw [order, ← follows.sent] at awaits
  have settings : (c.hosts host).monitor.configuration = (c.hosts host).agent.configuration := by
    rw [(follows.hosts host).monitor]
  obtain ⟨actions, c', moves, asked, moved, awaitsThen⟩ :=
    exists_run_of_events (Q := Q) awaits settings ran
  refine ⟨actions, c', moves, ⟨moved.sent.trans follows.sent, ?_⟩, asked⟩
  intro other
  by_cases own : other = host
  · subst own
    rw [moved.sent, follows.sent] at awaitsThen
    dsimp only
    rw [Function.update_self]
    refine ⟨unstarted, sound, ?_, waiting', moved.agent.symm ▸ serialized, awaitsThen⟩
    rw [moved.monitor, (follows.hosts other).monitor, monitor_eq, moved.agent]
  · dsimp only
    rw [Function.update_of_ne own, moved.others other own]
    exact follows.hosts other

/-- An iteration of a monitor that finds the settings of whole messages. -/
theorem iteration (follows : t.Follows site P c) {host : ι} {reading : MonitorReading}
    (asked : t.Asked P Q (.iteration host reading))
    (stepped : threadedStep site t (.iteration host reading) = some next) :
    Simulated site P Q c next := by
  obtain ⟨unstarted, sound, monitor, waiting, serialized, awaits⟩ := follows.hosts host
  obtain ⟨settled, holds⟩ := asked
  obtain ⟨-, rfl⟩ := Option.ite_some_none_eq_some.mp stepped
  have same : (c.hosts host).monitor = (t.hosts host).current := by
    rw [monitor, serialized.configuration_eq settled]
    rfl
  refine ⟨[.iteration host reading], _, run_cons_eq_some.mpr ⟨_, rfl, rfl⟩, ?_, ?_,
    fun _ _ => trivial⟩
  · rw [same]
    refine follows.update host _ _ _ ⟨unstarted, sound, ?_, waiting, serialized,
      awaits.append _⟩
    have kept := configuration_iterate site.pow (t.hosts host).current reading .exact
    rw [serialized.configuration_eq settled]
    generalize (t.hosts host).current.iterate site.pow reading = iterated at kept ⊢
    have settings : (t.hosts host).world.agent.configuration = iterated.configuration := kept.symm
    rw [settings]
  · change Q (c.hosts host).monitor reading
    rw [same]
    exact holds

/-- What a server passes on is nothing or one message. -/
theorem messages_of_receiveFrom {server ahead : UdpAsyncServer} {received : CString}
    {messages : List CString} (accepted : server.receiveFrom received = .ok (ahead, messages)) :
    messages = [] ∨ ∃ msg, messages = [msg] := by
  obtain ⟨data, -, handled⟩ := bind_eq_ok.mp accepted
  unfold UdpAsyncServer.handleReceiveFrom at handled
  split at handled
  · obtain ⟨closed, -, returned⟩ := bind_eq_ok.mp handled
    cases returned
    exact Or.inr ⟨_, rfl⟩
  · cases handled
    exact Or.inl rfl

/-- A host receives a datagram of the cluster. -/
theorem deliver (follows : t.Follows site P c) {host : ι} {index : ℕ}
    (stepped : threadedStep site t (.deliver host index) = some next) :
    Simulated site P Q c next := by
  obtain ⟨unstarted, sound, monitor, waiting, serialized, awaits⟩ := follows.hosts host
  obtain ⟨sending, found, received⟩ := Option.bind_eq_some_iff.mp stepped
  obtain ⟨th, taken, returned⟩ := Option.bind_eq_some_iff.mp received
  cases returned
  obtain ⟨empty, taken⟩ := Option.ite_none_right_eq_some.mp taken
  obtain ⟨⟨ahead, messages⟩, accepted, handled⟩ := Option.bind_eq_some_iff.mp taken
  obtain ⟨world, ran, rfl⟩ := Option.map_eq_some_iff.mp handled
  rw [toOption_eq_some] at accepted
  obtain rfl := serialized.waiting_eq.2 empty
  have server_eq := Awaits.nothing_iff.mp awaits
  rw [← follows.sent] at found
  rw [← server_eq] at accepted
  rcases messages_of_receiveFrom accepted with rfl | ⟨msg, rfl⟩
  · cases ran
    have changed := Host.receive_of_messages accepted
      (rfl : run eventStep (c.hosts host).agent [] = some (c.hosts host).agent)
    have moves : clusterStep site c (.deliver host index) = some { c with
        hosts := Function.update c.hosts host { c.hosts host with server := ahead } } := by
      simp [clusterStep, found, changed]
    refine ⟨[.deliver host index], _, run_cons_eq_some.mpr ⟨_, moves, rfl⟩, ?_,
      trivial, fun _ _ => trivial⟩
    have kept := follows.update host ⟨(t.hosts host).world, (t.hosts host).monitor, ahead⟩
      { c.hosts host with server := ahead } []
      ⟨unstarted, sound, monitor, [], serialized, Awaits.nothing_iff.mpr rfl⟩
    simpa using kept
  · obtain ⟨world', received, returned⟩ := run_cons_eq_some.mp ran
    cases returned
    rw [follows.sent] at found
    exact follows.of_followed ⟨world, (t.hosts host).monitor, ahead⟩
      (unstarted.step received) (sound.step received) rfl
      (.delivered _ index sending msg found accepted)
      (serialized.step unstarted sound (show WritesOutside _ (.receiveUdp msg) from trivial)
        received)

omit [DecidableEq ι] in
/-- A message is received when the one before it is done with. -/
theorem io_eq_nil_of_received {w next : World} {action : ThreadAction} {received : Received}
    (received_eq : action.received = some received) (stepped : threadStep w action = some next) :
    w.io = [] := by
  cases action with
  | receiveUdp msg => exact (Option.ite_some_none_eq_some.mp stepped).1
  | receiveTcp msg => exact (Option.ite_some_none_eq_some.mp stepped).1
  | _ => cases received_eq

/-- A step of the threads, or a message from elsewhere. -/
theorem thread (follows : t.Follows site P c) {host : ι} {action : ThreadAction}
    (asked : t.Asked P Q (.thread host action))
    (stepped : threadedStep site t (.thread host action) = some next) :
    Simulated site P Q c next := by
  obtain ⟨unstarted, sound, monitor, waiting, serialized, awaits⟩ := follows.hosts host
  obtain ⟨world, moved, returned⟩ := Option.bind_eq_some_iff.mp stepped
  cases returned
  obtain ⟨asked, outside⟩ := asked
  refine follows.of_followed { t.hosts host with world } (unstarted.step moved)
    (sound.step moved) rfl ?_ (serialized.step unstarted sound outside moved)
  cases received_eq : action.received with
  | none =>
      rw [Option.toList_none, List.append_nil]
      exact awaits
  | some received =>
      have empty : (t.hosts host).world.io = [] := io_eq_nil_of_received received_eq moved
      obtain rfl := serialized.waiting_eq.2 empty
      rw [Awaits.nothing_iff.mp awaits]
      refine .same _ fun other member => asked other ?_
      rw [received_eq]
      exact Option.mem_toList.mp member

/-- **A step of the one cluster is followed by steps of the other.** -/
theorem step (follows : t.Follows site P c) {action : ThreadedAction ι}
    (asked : t.Asked P Q action) (stepped : threadedStep site t action = some next) :
    Simulated site P Q c next := by
  cases action with
  | iteration host reading => exact follows.iteration asked stepped
  | deliver host index => exact follows.deliver stepped
  | thread host action => exact follows.thread asked stepped

end ThreadedCluster.Follows

/-- A run is followed by a run. -/
theorem ThreadedCluster.follows_of_run (site : Site ι) (P : Received → Prop)
    (Q : CpuMonitor → MonitorReading → Prop) (created started : ι → HostReading)
    (memory : ι → Buffer maxLength) (actions : List (ThreadedAction ι))
    (asked : Meets (threadedStep site) (ThreadedCluster.Asked P Q)
      (.initial created started memory) actions)
    (t : ThreadedCluster ι)
    (ran : run (threadedStep site) (.initial created started memory) actions = some t) :
    ∃ matching c, run (clusterStep site) (.initial created memory) matching = some c ∧
      t.Follows site P c ∧
      Meets (clusterStep site) (Cluster.Asked P Q) (.initial created memory) matching :=
  exists_run_of_simulation (ThreadedCluster.Follows site P)
    (fun _ _ _ _ follows asked stepped => follows.step asked stepped)
    (ThreadedCluster.follows_initial site P created started memory) asked ran

/-- **A cluster of threads does what one of whole messages does.** In every interleaving of
the threads of all hosts, over a network that loses, doubles and reorders datagrams, with
monitors that read the settings of whole messages and messages that leave the interfaces
alone while a pass over them is under way: there is a run in which messages and cycles are
performed as a whole, which sends the same factors, whose messages and iterations have the
properties that those of the interleaving have, and after which each agent has come where
the threads of its host have. -/
theorem threads_refine_cluster (site : Site ι) (P : Received → Prop)
    (Q : CpuMonitor → MonitorReading → Prop) (created started : ι → HostReading)
    (memory : ι → Buffer maxLength) (actions : List (ThreadedAction ι))
    (asked : Meets (threadedStep site) (ThreadedCluster.Asked P Q)
      (.initial created started memory) actions)
    (t : ThreadedCluster ι)
    (ran : run (threadedStep site) (.initial created started memory) actions = some t) :
    ∃ matching c, run (clusterStep site) (.initial created memory) matching = some c ∧
      Meets (clusterStep site) (Cluster.Asked P Q) (.initial created memory) matching ∧
      c.sent = t.sent ∧
      ∀ host, (t.hosts host).world.EndsAs (c.hosts host).agent ∧ (c.hosts host).monitor =
        { (t.hosts host).monitor with configuration := (c.hosts host).agent.configuration } := by
  obtain ⟨matching, c, matched, follows, askedThen⟩ :=
    ThreadedCluster.follows_of_run site P Q created started memory actions asked t ran
  refine ⟨matching, c, matched, askedThen, follows.sent, fun host => ?_⟩
  obtain ⟨-, -, monitor, waiting, serialized, -⟩ := follows.hosts host
  exact ⟨serialized.endsAs, monitor⟩

end Steps

/-! ## The bounds of the factors -/

section Bounds

variable (low high : ℚ)

/-- A message imposes factors within the bounds only. -/
def Received.Imposes (received : Received) : Prop :=
  ∀ statement ∈ statementsOf received.message, statement.Imposes low high

/-- The bounds of a monitor are within two numbers, with settings it can compute with. -/
def CpuMonitor.Restrained (m : CpuMonitor) (reading : MonitorReading) : Prop :=
  m.configuration.Numeric ∧ m.LoadDefined reading ∧ low ≤ m.configuration.tdfMin.toRat ∧
    m.configuration.tdfMax.toRat ≤ high

/-- The bounds that the monitors find are within two numbers, and the messages from elsewhere
bring no entry and impose factors within them. -/
def ThreadedCluster.Restrained (c : ThreadedCluster ι) : ThreadedAction ι → Prop
  | .iteration host reading => (c.hosts host).current.Restrained low high reading
  | .deliver _ _ => True
  | .thread _ action => ∀ received ∈ action.received, received.Imposes low high

/-- A statement writes a factor that has a property, and an entry that may stand under its
name. -/
def Statement.Sourced (P : LongDouble → Prop) (written : CString → LongDouble → Prop) :
    Statement → Prop
  | .tdfTableSet hostname tdf => P tdf ∧ written hostname tdf
  | .enforceTdf tdf => P tdf
  | _ => True

/-- The factors of the threads have a property, and the entries may stand under their names,
those of the message under way included. -/
structure World.Sourced (P : LongDouble → Prop) (written : CString → LongDouble → Prop)
    (w : World) : Prop where
  all : w.AllTdf P
  entries : ∀ (name : CString) (entry : TdfEntry),
    w.agent.tdfTable.tdfMap[name]? = some (some entry) → written name entry.baseTdf
  io : ∀ statement ∈ w.io, statement.Sourced P written

section Sourced

variable {P : LongDouble → Prop} {written more : CString → LongDouble → Prop} {w next : World}

theorem Statement.Sourced.brings {statement : Statement} (sourced : statement.Sourced P written) :
    ∀ tdf ∈ statement.brings, P tdf := by
  intro tdf member
  cases statement with
  | tdfTableSet hostname tdf' =>
      obtain rfl := List.mem_singleton.mp member
      exact sourced.1
  | enforceTdf tdf' =>
      obtain rfl := List.mem_singleton.mp member
      exact sourced
  | _ => cases member

theorem Statement.Sourced.mono {statement : Statement} (sourced : statement.Sourced P written)
    (weaker : ∀ name factor, written name factor → more name factor) :
    statement.Sourced P more := by
  cases statement with
  | tdfTableSet hostname tdf => exact ⟨sourced.1, weaker _ _ sourced.2⟩
  | _ => exact sourced

theorem World.Sourced.mono (sourced : w.Sourced P written)
    (weaker : ∀ name factor, written name factor → more name factor) : w.Sourced P more :=
  ⟨sourced.all, fun name entry found => weaker _ _ (sourced.entries name entry found),
    fun statement member => (sourced.io statement member).mono weaker⟩

/-- **Every step keeps the factors and the entries**, whatever falls between the statements
of a message. -/
theorem World.Sourced.step (sourced : w.Sourced P written) {action : ThreadAction}
    (brought : ∀ received ∈ action.received, ∀ statement ∈ statementsOf received.message,
      statement.Sourced P written)
    (stepped : threadStep w action = some next) : next.Sourced P written := by
  have brings : ∀ tdf ∈ action.brings, P tdf := by
    intro tdf member
    cases action with
    | receiveUdp msg | receiveTcp msg =>
        obtain ⟨statement, inMessage, inside⟩ := List.mem_flatMap.mp member
        exact (brought _ rfl statement inMessage).brings tdf inside
    | _ => cases member
  have all := sourced.all.step brings stepped
  cases threadStep_effect stepped with
  | idle agent_eq _ io_eq _ _ _ =>
      exact ⟨all, agent_eq ▸ sourced.entries, io_eq ▸ sourced.io⟩
  | receivedUdp msg _ => exact ⟨all, sourced.entries, brought (.udp msg) rfl⟩
  | receivedTcp msg _ => exact ⟨all, sourced.entries, brought (.tcp msg) rfl⟩
  | started _ => exact ⟨all, sourced.entries, sourced.io⟩
  | notified _ => exact ⟨all, sourced.entries, sourced.io⟩
  | virtualTime stepped =>
      obtain ⟨-, io_eq, tdfTable_eq, -⟩ := virtualTime_frame stepped
      exact ⟨all, tdfTable_eq ▸ sourced.entries, io_eq ▸ sourced.io⟩
  | message statement rest agent notified io_eq _ executed =>
      have here := sourced.io statement (io_eq ▸ List.mem_cons_self)
      refine ⟨all, ?_, fun other member =>
        sourced.io other (io_eq ▸ List.mem_cons_of_mem _ member)⟩
      intro name entry found
      rcases tdfMap_of_exec executed with same | cleared | ⟨hostname, tdf, rfl, set⟩
      · exact sourced.entries name entry (same ▸ found)
      · simp [cleared] at found
      · simp only [set, Std.ExtTreeMap.getElem?_insert] at found
        split at found
        case isTrue same =>
          obtain rfl := Std.LawfulEqCmp.eq_of_compare same
          cases found
          exact here.2
        case isFalse => exact sourced.entries name entry found

end Sourced

/-- The threads of every host are sound, the numbers of the monitors finite, and what was
sent is within the bounds. -/
structure ThreadedCluster.Sound (site : Site ι) (c : ThreadedCluster ι) : Prop where
  world : ∀ host,
    (c.hosts host).world.Sourced (OneOrInBounds low high) (Written site c.sent)
  finite : ∀ host, (c.hosts host).monitor.Finite
  sent : ∀ sending ∈ c.sent, InBounds low high sending.2

namespace ThreadedCluster.Sound

variable {low high} {site : Site ι} {c next : ThreadedCluster ι}

theorem initial (created started : ι → HostReading) (memory : ι → Buffer maxLength) :
    (ThreadedCluster.initial created started memory).Sound low high site where
  world := fun host => ⟨allTdf_initial (Or.inl rfl) _ _,
    by simp [ThreadedCluster.initial, World.initial, Agent.initial],
    by simp [ThreadedCluster.initial, World.initial]⟩
  finite := fun _ => CpuMonitor.finite_start (by decide +kernel)
  sent := by simp [ThreadedCluster.initial]

variable [DecidableEq ι]

/-- **An iteration sends a factor within the bounds**, and changes no threads. -/
theorem iteration (sound : c.Sound low high site) (regular : site.Regular low high) {host : ι}
    {reading : MonitorReading} (restrained : c.Restrained low high (.iteration host reading))
    (stepped : threadedStep site c (.iteration host reading) = some next) :
    next.Sound low high site := by
  obtain ⟨numeric, defined, least, greatest⟩ := restrained
  obtain ⟨-, rfl⟩ := Option.ite_some_none_eq_some.mp stepped
  have finite : (c.hosts host).current.Finite := by
    obtain ⟨average, tdfLoad, tdfSim⟩ := sound.finite host
    exact ⟨average, tdfLoad, tdfSim⟩
  refine ⟨?_, ?_, ?_⟩
  · intro other
    have kept := (sound.world other).mono fun name factor written =>
      written.append (((c.hosts host).current.broadcast site.pow reading).map (host, ·)).toList
    by_cases own : other = host
    · subst own
      simpa using kept
    · simpa [Function.update_of_ne own] using kept
  · intro other
    by_cases own : other = host
    · subst own
      simpa using (iterate_spec regular.isPow numeric finite defined).1
    · simpa [Function.update_of_ne own] using sound.finite other
  · intro sending member
    rcases List.mem_append.mp member with old | new
    · exact sound.sent sending old
    · obtain ⟨factor, broadcast, rfl⟩ := Option.map_eq_some_iff.mp (Option.mem_toList.mp new)
      exact inBounds_of_broadcast regular.isPow numeric finite defined least greatest broadcast

/-- The threads of a host are replaced by sound ones. -/
theorem update (sound : c.Sound low high site) {host : ι} {changed : ThreadedHost}
    (world : changed.world.Sourced (OneOrInBounds low high) (Written site c.sent))
    (finite : changed.monitor.Finite) :
    ThreadedCluster.Sound low high site
      { c with hosts := Function.update c.hosts host changed } where
  world := by
    intro other
    by_cases own : other = host
    · subst own
      simpa using world
    · simpa [Function.update_of_ne own] using sound.world other
  finite := by
    intro other
    by_cases own : other = host
    · subst own
      simpa using finite
    · simpa [Function.update_of_ne own] using sound.finite other
  sent := sound.sent

/-- A datagram of the cluster is received. -/
theorem deliver (sound : c.Sound low high site) (regular : site.Regular low high) {host : ι}
    {index : ℕ} (stepped : threadedStep site c (.deliver host index) = some next) :
    next.Sound low high site := by
  obtain ⟨sending, found, received⟩ := Option.bind_eq_some_iff.mp stepped
  obtain ⟨h, taken, returned⟩ := Option.bind_eq_some_iff.mp received
  cases returned
  obtain ⟨-, taken⟩ := Option.ite_none_right_eq_some.mp taken
  have member := List.mem_of_getElem? found
  let b := regular.hostBroadcast sending (sound.sent sending member)
  have readBack : InBounds low high (site.readBack sending.2) := by
    obtain ⟨q, value, least, greatest⟩ := sound.sent sending member
    exact regular.readBack _ q value least greatest
  obtain ⟨server, accepted⟩ := b.receiveFrom_msg (c.hosts host).server
  have same : (c.hosts host).server.receiveFrom (site.datagram sending) = _ := accepted
  rw [same] at taken
  obtain ⟨world, ran, rfl⟩ := Option.map_eq_some_iff.mp taken
  obtain ⟨world', moved, returned⟩ := run_cons_eq_some.mp ran
  cases returned
  refine sound.update ((sound.world host).step ?_ moved) (sound.finite host)
  intro received from_msg statement inMessage
  obtain rfl : Received.udp (upToNul b.msg) = received := Option.some.inj from_msg
  rw [Received.message, b.parseUdpMsg_msg] at inMessage
  obtain rfl := List.mem_singleton.mp inMessage
  exact ⟨Or.inr readBack, sending, member, rfl, rfl⟩

/-- **Every step keeps the cluster sound.** -/
theorem step (sound : c.Sound low high site) (regular : site.Regular low high)
    {action : ThreadedAction ι} (restrained : c.Restrained low high action)
    (stepped : threadedStep site c action = some next) : next.Sound low high site := by
  cases action with
  | iteration host reading => exact sound.iteration regular restrained stepped
  | deliver host index => exact sound.deliver regular stepped
  | thread host action =>
      obtain ⟨world, moved, returned⟩ := Option.bind_eq_some_iff.mp stepped
      cases returned
      refine sound.update ((sound.world host).step ?_ moved) (sound.finite host)
      intro received member statement inMessage
      have imposes := restrained received member statement inMessage
      cases statement with
      | tdfTableSet hostname tdf => exact imposes.elim
      | enforceTdf tdf => exact Or.inr imposes
      | _ => trivial

end ThreadedCluster.Sound

/-- **No factor gets out of hand between the threads.** In every interleaving of the threads
of all hosts in which the bounds set on the hosts, as their monitors find them, and the
factors imposed are within two numbers, the latest factor of each agent and the factor its
guests run on are one or within these numbers, and each entry of its table was broadcast by
a host of that name, within these numbers. -/
theorem threads_in_bounds [DecidableEq ι] (site : Site ι) (regular : site.Regular low high)
    (created started : ι → HostReading) (memory : ι → Buffer maxLength)
    (actions : List (ThreadedAction ι))
    (restrained : Meets (threadedStep site) (ThreadedCluster.Restrained low high)
      (.initial created started memory) actions)
    (t : ThreadedCluster ι)
    (ran : run (threadedStep site) (.initial created started memory) actions = some t)
    (host : ι) :
    OneOrInBounds low high (t.hosts host).world.agent.tdfTable.latestTdf ∧
      OneOrInBounds low high (t.hosts host).world.agent.sharedTdf ∧
      ∀ (name : CString) (entry : TdfEntry),
        (t.hosts host).world.agent.tdfTable.tdfMap[name]? = some (some entry) →
        ∃ sender factor, (sender, factor) ∈ t.sent ∧ site.hostname sender = name ∧
          InBounds low high factor ∧ entry.baseTdf = site.readBack factor := by
  have sound : t.Sound low high site := run_invariant_of_meets
    (ThreadedCluster.Sound low high site)
    (fun _ _ _ sound restrained stepped => sound.step regular restrained stepped)
    (.initial created started memory) restrained ran
  obtain ⟨all, entries, -⟩ := sound.world host
  refine ⟨all.agent.latestTdf, all.agent.sharedTdf, ?_⟩
  intro name entry found
  obtain ⟨⟨sender, factor⟩, member, named, read⟩ := entries name entry found
  exact ⟨sender, factor, member, named, sound.sent _ member, read⟩

end Bounds

/-! ## Two hosts -/

section Decide

variable {low high : ℚ}

instance : DecidablePred (Received.Imposes low high) := fun received =>
  inferInstanceAs (Decidable (∀ statement ∈ statementsOf received.message, _))

instance (m : CpuMonitor) : DecidablePred (m.Restrained low high) := fun reading =>
  have : Decidable (m.LoadDefined reading) :=
    inferInstanceAs (Decidable (LoadDefined m (.iteration reading)))
  inferInstanceAs (Decidable (_ ∧ _ ∧ _ ≤ _ ∧ _ ≤ _))

instance (c : ThreadedCluster ι) : DecidablePred (c.Restrained low high)
  | .iteration host reading =>
      inferInstanceAs (Decidable ((c.hosts host).current.Restrained low high reading))
  | .deliver _ _ => inferInstanceAs (Decidable True)
  | .thread _ action =>
      inferInstanceAs (Decidable (∀ received ∈ action.received, received.Imposes low high))

instance (P : Received → Prop) (Q : CpuMonitor → MonitorReading → Prop) [DecidablePred P]
    [∀ m, DecidablePred (Q m)] (c : ThreadedCluster ι) : DecidablePred (c.Asked P Q)
  | .iteration host reading =>
      inferInstanceAs (Decidable ((c.hosts host).SettingsDone ∧ Q (c.hosts host).current reading))
  | .deliver _ _ => inferInstanceAs (Decidable True)
  | .thread host action =>
      inferInstanceAs (Decidable ((∀ received ∈ action.received, P received) ∧
        WritesOutside (c.hosts host).world action))

end Decide

/-- The second host is busy and asks for the greatest factor. The first one receives it
again while it takes the factor to its guests. -/
def receivedAgainInCycle : List (ThreadedAction Bool) :=
  [.thread false .main, .thread false .main] ++
    (receive (ascii "20|3|4|1") ++ [ThreadAction.message, .message]).map (.thread false) ++
    (startUp ++ receive (ascii "12")).map (.thread true) ++
    [.iteration false ⟨0, 0, 0, 0⟩, .deliver true 0, .thread true .message] ++
    (turns 4).map (.thread true) ++ [.deliver true 0] ++ (turns 6).map (.thread true) ++
    [.thread true .message]

theorem exists_receivedAgainInCycle :
    ∃ t, run (threadedStep twoHosts) (.initial (fun _ => ⟨0, 0⟩) (fun _ => ⟨1, 1⟩)
        fun _ => Buffer.zeros maxLength) receivedAgainInCycle = some t ∧
      (t.hosts true).world.agent.sharedTdf = .ofRat 20 ∧ t.sent.length = 1 := by
  apply exists_of_any
  decide +kernel

theorem threads_refine_cluster_inCycle :
    ∃ t matching c, run (threadedStep twoHosts) (.initial (fun _ => ⟨0, 0⟩) (fun _ => ⟨1, 1⟩)
        fun _ => Buffer.zeros maxLength) receivedAgainInCycle = some t ∧
      run (clusterStep twoHosts) (.initial (fun _ => ⟨0, 0⟩) fun _ => Buffer.zeros maxLength)
        matching = some c ∧
      (c.hosts true).agent.tdfTable = (t.hosts true).world.agent.tdfTable ∧
      c.sent.length = 1 := by
  obtain ⟨t, ran, -, one⟩ := exists_receivedAgainInCycle
  obtain ⟨matching, c, matched, -, sent, hosts⟩ :=
    threads_refine_cluster twoHosts (fun _ => True) (fun _ _ => True) _ _ _
      receivedAgainInCycle (by decide +kernel) t ran
  exact ⟨t, matching, c, ran, matched, (hosts true).1.tdfTable, sent ▸ one⟩

theorem threads_in_bounds_inCycle :
    ∃ t, run (threadedStep twoHosts) (.initial (fun _ => ⟨0, 0⟩) (fun _ => ⟨1, 1⟩)
        fun _ => Buffer.zeros maxLength) receivedAgainInCycle = some t ∧
      (t.hosts true).world.agent.sharedTdf = .ofRat 20 ∧
      OneOrInBounds 1 20 (t.hosts true).world.agent.sharedTdf := by
  obtain ⟨t, ran, shared, -⟩ := exists_receivedAgainInCycle
  exact ⟨t, ran, shared, (threads_in_bounds 1 20 twoHosts regular_twoHosts _ _ _
    receivedAgainInCycle (by decide +kernel) t ran true).2.1⟩

end VirtualAgent
