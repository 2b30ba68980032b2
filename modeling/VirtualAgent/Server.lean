import VirtualAgent.ClientServer
import VirtualAgent.Library.Family
import VirtualAgent.VirtualTime

/-!
# The server and its clients

`TcpAsyncServer` accepts any number of clients, each with a session of its own. The
handlers of all sessions run one after the other, on one agent: a read that completes a
body has the message processed before any other handler runs.

`server_refines_events` is what this amounts to. Whatever the order in which the bytes
of the clients arrive and the handlers run, the agent is where a sequence of whole
messages brings it, among which the commands of each client stand in the order of its
lines, none of them twice and none left out before another. What is proved about
sequences of whole messages therefore holds of the server.
-/

set_option autoImplicit false

namespace VirtualAgent

open CText Outcome Transition

variable {ι : Type*} [DecidableEq ι]

/-- The connections of the clients, and the agent. -/
structure Server (ι : Type*) where
  links : ι → Link
  agent : Agent

/-- The clients have read nothing of their inputs. -/
def Server.initial (stdin : ι → CString) (agent : Agent) : Server ι :=
  ⟨fun client => Link.initial (stdin client), agent⟩

inductive ServerAction (ι : Type*) where
  | link (client : ι) (action : LinkAction) (host : HostReading)
  /-- A datagram, or a cycle of `VirtualTime.cpp`. -/
  | other (event : Event)

/-- The strings that a step of a connection has given to `processTcpMsg`. -/
def passedOn (before after : Link) : List CString :=
  after.processed.drop before.processed.length

/-- The step of a run of the server. -/
def Server.step (s : Server ι) : ServerAction ι → Option (Server ι)
  | .link client action host =>
      (linkStep (s.links client) action).bind fun next =>
        (run eventStep s.agent ((passedOn (s.links client) next).map (.tcp · host))).map
          fun agent => ⟨Function.update s.links client next, agent⟩
  | .other event => (eventStep s.agent event).map fun agent => { s with agent }

/-! ## What a connection passes on -/

/-- A step adds to what was passed on. -/
theorem processed_eq_append {link next : Link} {action : LinkAction}
    (stepped : linkStep link action = some next) :
    next.processed = link.processed ++ passedOn link next := by
  have kept : next.processed = link.processed →
      next.processed = link.processed ++ passedOn link next := by
    intro same
    simp [passedOn, same]
  have mapped : ∀ {moved : Option ChatClient},
      moved.map (fun client => { link with client }) = some next →
      next.processed = link.processed ++ passedOn link next := by
    intro moved same
    obtain ⟨client, -, rfl⟩ := Option.map_eq_some_iff.mp same
    exact kept rfl
  cases action with
  | main | connect | posted | written | writeFails => exact mapped stepped
  | transfer index count =>
      obtain ⟨client, -, rfl⟩ := Option.map_eq_some_iff.mp stepped
      exact kept rfl
  | readFails =>
      cases stepped
      exact kept rfl
  | arrive count =>
      obtain ⟨-, rfl⟩ := Option.ite_some_none_eq_some.mp stepped
      exact kept rfl
  | accept memory =>
      obtain ⟨-, rfl⟩ := Option.ite_some_none_eq_some.mp stepped
      exact kept rfl
  | sessionReads =>
      obtain ⟨session, -, ran⟩ := Option.bind_eq_some_iff.mp stepped
      obtain ⟨⟨after, messages, rest⟩, -, rfl⟩ := Option.map_eq_some_iff.mp ran
      simp [passedOn]
  | sessionReadFails =>
      obtain ⟨session, -, rfl⟩ := Carries.sessionReadFails_eq_some stepped
      exact kept rfl

/-! ## The sequence of messages -/

/-- What happens to the agent: a command of a client, or another event. -/
inductive Happening (ι : Type*) where
  | command (client : ι) (msg : CString) (host : HostReading)
  | other (event : Event)

def Happening.event : Happening ι → Event
  | .command _ msg host => .tcp msg host
  | .other event => event

/-- The commands of a client among what happened. -/
def commandsOf (client : ι) (happened : List (Happening ι)) : List CString :=
  happened.filterMap fun
    | .command sender msg _ => if sender = client then some msg else none
    | .other _ => none

/-- The other events among what happened. -/
def othersOf (happened : List (Happening ι)) : List Event :=
  happened.filterMap fun
    | .command _ _ _ => none
    | .other event => some event

/-- The other events among the actions. -/
def ServerAction.addOther (events : List Event) : ServerAction ι → List Event
  | .link _ _ _ => events
  | .other event => events ++ [event]

theorem commandsOf_commands (client sender : ι) (messages : List CString) (host : HostReading) :
    commandsOf client (messages.map fun msg => .command sender msg host) =
      if sender = client then messages else [] := by
  split
  · rename_i own
    simp [commandsOf, List.filterMap_map, own]
  · rename_i foreign
    simp [commandsOf, List.filterMap_map, foreign]

/-- The agent and the connections are those of what happened. -/
structure Explains (agent : Agent) (s : Server ι) (others : List Event)
    (happened : List (Happening ι)) : Prop where
  agent_eq : run eventStep agent (happened.map Happening.event) = some s.agent
  commands_eq : ∀ client, commandsOf client happened = (s.links client).processed
  others_eq : othersOf happened = others

/-- **A step is explained by the messages it passes on.** -/
theorem Explains.step {agent : Agent} {s next : Server ι} {others : List Event}
    {happened : List (Happening ι)} {action : ServerAction ι}
    (explains : Explains agent s others happened) (stepped : s.step action = some next) :
    ∃ later, Explains agent next (action.addOther others) later := by
  cases action with
  | other event =>
      obtain ⟨after, performed, rfl⟩ := Option.map_eq_some_iff.mp stepped
      refine ⟨happened ++ [.other event], ?_, ?_, ?_⟩
      · rw [List.map_append, run_append, explains.agent_eq, Option.bind_some]
        exact run_cons_eq_some.mpr ⟨after, performed, rfl⟩
      · intro client
        simpa [commandsOf, List.filterMap_cons] using explains.commands_eq client
      · simp [othersOf, ServerAction.addOther, ← explains.others_eq]
  | link client action host =>
      obtain ⟨link, moved, processed⟩ := Option.bind_eq_some_iff.mp stepped
      obtain ⟨after, performed, rfl⟩ := Option.map_eq_some_iff.mp processed
      let commands : List (Happening ι) :=
        (passedOn (s.links client) link).map fun msg => .command client msg host
      refine ⟨happened ++ commands, ?_, ?_, ?_⟩
      · have events : commands.map Happening.event =
            (passedOn (s.links client) link).map (.tcp · host) := by
          rw [List.map_map]
          rfl
        rw [List.map_append, run_append, explains.agent_eq, Option.bind_some, events]
        exact performed
      · intro other
        have split_ : commandsOf other (happened ++ commands) =
            commandsOf other happened ++ commandsOf other commands := List.filterMap_append
        rw [split_, explains.commands_eq, commandsOf_commands]
        dsimp only
        by_cases own : client = other
        · subst own
          rw [if_pos rfl, Function.update_self]
          exact (processed_eq_append moved).symm
        · rw [if_neg own, List.append_nil, Function.update_of_ne (Ne.symm own)]
      · have none_ : othersOf commands = [] := by
          simp [commands, othersOf, List.filterMap_map]
        have split_ : othersOf (happened ++ commands) = othersOf happened ++ othersOf commands :=
          List.filterMap_append
        rw [split_, none_, List.append_nil, explains.others_eq]
        rfl

/-- The actions of the connections in a run of the server. -/
def ServerAction.linkAction : ServerAction ι → Option (ι × LinkAction)
  | .link client action _ => some (client, action)
  | .other _ => none

/-- **The connections run side by side.** -/
theorem Server.run_links {s next : Server ι} {actions : List (ServerAction ι)}
    (ran : run Server.step s actions = some next) :
    run (familyStep linkStep) s.links (actions.filterMap ServerAction.linkAction) =
      some next.links := by
  induction actions generalizing s with
  | nil =>
      cases ran
      rfl
  | cons action rest ih =>
      obtain ⟨middle, stepped, later⟩ := run_cons_eq_some.mp ran
      have ranRest := ih later
      cases action with
      | other event =>
          obtain ⟨after, -, rfl⟩ := Option.map_eq_some_iff.mp stepped
          exact ranRest
      | link client action host =>
          obtain ⟨link, moved, processed⟩ := Option.bind_eq_some_iff.mp stepped
          obtain ⟨after, -, rfl⟩ := Option.map_eq_some_iff.mp processed
          exact run_cons_eq_some.mpr ⟨_, familyStep_eq_some.mpr ⟨link, moved, rfl⟩, ranRest⟩

/-- **The server does what a sequence of whole messages does.** For any clients with any
inputs, and any order in which bytes move and handlers run, there is a sequence of
commands and other events that brings the agent where it is, in which the other events
are those of the run in their order, and the commands of each client are a prefix of its
lines. -/
theorem server_refines_events (stdin : ι → CString) (agent : Agent)
    (actions : List (ServerAction ι)) (s : Server ι)
    (ran : run Server.step (Server.initial stdin agent) actions = some s) :
    ∃ happened : List (Happening ι),
      run eventStep agent (happened.map Happening.event) = some s.agent ∧
      othersOf happened = actions.foldl ServerAction.addOther [] ∧
      ∀ client, commandsOf client happened <+: (linesOf (stdin client)).map upToNul := by
  obtain ⟨happened, explains⟩ := run_foldl
    (fun s others => ∃ happened, Explains agent s others happened) ServerAction.addOther
    (fun s others action next ⟨_, explains⟩ stepped => explains.step stepped)
    ⟨[], rfl, fun _ => rfl, rfl⟩ ran
  refine ⟨happened, explains.agent_eq, explains.others_eq, ?_⟩
  intro client
  rw [explains.commands_eq]
  obtain ⟨lines, pushed, consumed, carries⟩ :=
    Carries.of_run (stdin client) (run_familyStep (Server.run_links ran) client)
  exact carries.passed_prefix

/-- Two clients with a command each, whose bytes arrive in turns. -/
def twoClients (client : Bool) : CString := if client then ascii "24" else ascii "25"

def twoClientsTurns : List (ServerAction Bool) :=
  let both (action : LinkAction) : List (ServerAction Bool) :=
    [.link true action ⟨0, 0⟩, .link false action ⟨0, 0⟩]
  both (.main (Buffer.zeros _)) ++ both .posted ++ both .connect ++
    both (.accept (Buffer.zeros _)) ++ both (.transfer 0 5) ++ both (.arrive 5) ++
    both .sessionReads ++ both (.transfer 0 1) ++ both (.arrive 1) ++ both .sessionReads

theorem server_refines_events_two :
    ∃ s : Server Bool,
      run Server.step (Server.initial twoClients (Agent.initial ⟨0, 0⟩)) twoClientsTurns =
        some s ∧
      s.agent.configuration.isVMSuspensionsEnabled = false ∧
      ∃ happened : List (Happening Bool),
        run eventStep (Agent.initial ⟨0, 0⟩) (happened.map Happening.event) = some s.agent ∧
        othersOf happened = twoClientsTurns.foldl ServerAction.addOther [] ∧
        ∀ client, commandsOf client happened <+: (linesOf (twoClients client)).map upToNul := by
  obtain ⟨s, ran, disabled⟩ :
      ∃ s : Server Bool,
        run Server.step (Server.initial twoClients (Agent.initial ⟨0, 0⟩)) twoClientsTurns =
          some s ∧ s.agent.configuration.isVMSuspensionsEnabled = false := by
    apply exists_of_any
    decide +kernel
  exact ⟨s, ran, disabled, server_refines_events _ _ _ s ran⟩

end VirtualAgent
