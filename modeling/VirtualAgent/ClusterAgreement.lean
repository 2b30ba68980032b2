import VirtualAgent.Agreement
import VirtualAgent.Cluster

/-!
# Agreement over a network that loses datagrams

The agents of a cluster do not receive the same datagrams: some are lost, some come twice,
and some come late. What counts for a table is the last datagram of each host
(`tdfMap_of_host`), since each carries all of the host's entry.

`cluster_agrees` says so: from any state that a cluster can be in, two agents that then
receive, of every host, some datagrams of which the last is the same one, hold the same
table, whatever they held before and whatever else was lost, doubled or reordered, and
each has adopted a factor within the threshold of the one greatest factor.
-/

set_option autoImplicit false

namespace VirtualAgent

open ExactFloat CText Outcome Transition KeyOrder
open Std (ExtTreeMap)

variable {ι : Type} [DecidableEq ι] {site : Site ι} {low high : ℚ}

/-! ## What an agent receives -/

/-- The broadcasts delivered to a host, of those sent. -/
def deliveredTo (sent : List (Sending ι)) (host : ι) (actions : List (ClusterAction ι)) :
    List (Sending ι) :=
  actions.filterMap fun
    | .deliver receiver index => if receiver = host then sent[index]? else none
    | _ => none

/-- The last of some broadcasts that a host has sent. -/
def lastOf (sender : ι) (received : List (Sending ι)) : Option (Sending ι) :=
  (received.filter fun sending => sending.1 = sender).getLast?

/-- The operator gives a host no command. -/
def CommandsElsewhere (host : ι) : ClusterAction ι → Prop
  | .event other event => other = host → ∃ suspendAt resumeAt, event = .cycle suspendAt resumeAt
  | _ => True

/-- The entry a broadcast writes. -/
def Site.entry (site : Site ι) (sending : Sending ι) : CString × Option TdfEntry :=
  (site.hostname sending.1, some ⟨site.readBack sending.2⟩)

/-- What is sent stays sent. -/
theorem sent_grows {c next : Cluster ι} {action : ClusterAction ι}
    (stepped : clusterStep site c action = some next) : c.sent <+: next.sent := by
  cases action with
  | iteration host reading =>
      cases stepped
      exact List.prefix_append _ _
  | deliver host index =>
      obtain ⟨sending, -, received⟩ := Option.bind_eq_some_iff.mp stepped
      obtain ⟨h, -, returned⟩ := Option.bind_eq_some_iff.mp received
      cases returned
      exact List.prefix_rfl
  | event host event =>
      obtain ⟨h, -, returned⟩ := Option.bind_eq_some_iff.mp stepped
      cases returned
      exact List.prefix_rfl

theorem sent_grows_of_run {c next : Cluster ι} {actions : List (ClusterAction ι)}
    (ran : run (clusterStep site) c actions = some next) : c.sent <+: next.sent :=
  run_invariant (fun after : Cluster ι => c.sent <+: after.sent)
    (fun _ _ _ kept stepped => kept.trans (sent_grows stepped)) List.prefix_rfl ran

/-- What is delivered has been sent. -/
theorem mem_sent_of_mem_deliveredTo {sent : List (Sending ι)} {host : ι}
    {actions : List (ClusterAction ι)} {sending : Sending ι}
    (member : sending ∈ deliveredTo sent host actions) : sending ∈ sent := by
  obtain ⟨action, -, found⟩ := List.mem_filterMap.mp member
  cases action with
  | deliver receiver index =>
      obtain ⟨-, found⟩ := Option.ite_none_right_eq_some.mp found
      exact List.mem_of_getElem? found
  | iteration host reading => cases found
  | event host event => cases found

/-! ## What the table of an agent becomes -/

/-- An agent's table after some broadcasts, none of which is a command. -/
structure TableFollows (before after : Agent) (entries : List (CString × Option TdfEntry)) :
    Prop where
  tdfMap : after.tdfTable.tdfMap = insertAll before.tdfTable.tdfMap entries
  enabled : after.tdfTable.isTableEnabled = before.tdfTable.isTableEnabled
  threshold : after.configuration.tdfChangeThreshold = before.configuration.tdfChangeThreshold
  settled : entries ≠ [] ∨ before.tdfTable.Settled before.configuration.tdfChangeThreshold →
    after.tdfTable.Settled after.configuration.tdfChangeThreshold

/-- An agent whose table and threshold stay. -/
theorem TableFollows.same {before after : Agent} (tdfTable_eq : after.tdfTable = before.tdfTable)
    (configuration_eq : after.configuration = before.configuration) :
    TableFollows before after [] where
  tdfMap := by
    rw [tdfTable_eq]
    rfl
  enabled := by rw [tdfTable_eq]
  threshold := by rw [configuration_eq]
  settled := by
    rw [tdfTable_eq, configuration_eq]
    exact fun settled => settled.resolve_left (fun impossible => impossible rfl)

/-- First some broadcasts, then others. -/
theorem TableFollows.trans {before middle after : Agent}
    {entries more : List (CString × Option TdfEntry)} (first : TableFollows before middle entries)
    (second : TableFollows middle after more) : TableFollows before after (entries ++ more) where
  tdfMap := by
    rw [second.tdfMap, first.tdfMap, insertAll, insertAll, insertAll, List.foldl_append]
  enabled := second.enabled.trans first.enabled
  threshold := second.threshold.trans first.threshold
  settled := by
    intro start
    apply second.settled
    by_cases empty : more = []
    · refine Or.inr (first.settled (start.imp_left ?_))
      simp [empty]
    · exact Or.inl empty

/-- **Setting an entry of an enabled table** writes it and settles the table. -/
theorem TableFollows.set {a : Agent} {tdfTable : TdfTable} {hostname : CString} {tdf : LongDouble}
    {notified : Bool} (enabled : a.tdfTable.isTableEnabled = true)
    (positive : a.configuration.tdfChangeThreshold.Positive)
    (done : a.tdfTable.set a.configuration.tdfChangeThreshold hostname tdf =
      .ok (tdfTable, notified)) :
    TableFollows a { a with tdfTable } [(hostname, some ⟨tdf⟩)] where
  tdfMap := TdfTable.set_tdfMap done
  enabled := by
    obtain ⟨rfl, -⟩ | ⟨maxVal, -, rfl, -⟩ := TdfTable.set_cases done
    · rfl
    · rfl
  threshold := rfl
  settled := fun _ => settled_of_set positive enabled done

/-- **What a step does to the table of an agent** that is given no command. -/
theorem tableFollows_of_step {c next : Cluster ι} (sound : c.Sound site low high)
    (regular : site.Regular low high) {host : ι} {action : ClusterAction ι}
    (enabled : (c.hosts host).agent.tdfTable.isTableEnabled = true)
    (positive : (c.hosts host).agent.configuration.tdfChangeThreshold.Positive)
    (elsewhere : CommandsElsewhere host action)
    (stepped : clusterStep site c action = some next) {sent : List (Sending ι)}
    (later : c.sent <+: sent) :
    TableFollows (c.hosts host).agent (next.hosts host).agent
      ((deliveredTo sent host [action]).map site.entry) := by
  cases action with
  | iteration other reading =>
      cases stepped
      have agent_eq : (Function.update c.hosts other
          { c.hosts other with monitor := (c.hosts other).monitor.iterate site.pow reading }
            host).agent = (c.hosts host).agent := by
        by_cases own : host = other
        · subst own
          rw [Function.update_self]
        · rw [Function.update_of_ne own]
      exact .same (by rw [agent_eq]) (by rw [agent_eq])
  | deliver other index =>
      obtain ⟨sending, tdfTable, notified, server, found, set, rfl, -⟩ :=
        sound.deliver regular stepped
      by_cases own : other = host
      · subst own
        obtain ⟨rest, rfl⟩ := later
        have received :
            deliveredTo (c.sent ++ rest) other [ClusterAction.deliver other index] = [sending] := by
          have inBounds := (List.getElem?_eq_some_iff.mp found).1
          simp [deliveredTo, List.getElem?_append_left inBounds, found]
        rw [received]
        dsimp only
        rw [Function.update_self]
        exact .set enabled positive set
      · have received : deliveredTo sent host [ClusterAction.deliver other index] = [] := by
          simp [deliveredTo, own]
        rw [received]
        dsimp only
        rw [Function.update_of_ne (Ne.symm own)]
        exact .same rfl rfl
  | event other event =>
      obtain ⟨h, performedBy, returned⟩ := Option.bind_eq_some_iff.mp stepped
      cases returned
      change TableFollows _ (Function.update c.hosts other h host).agent []
      by_cases own : other = host
      · subst own
        obtain ⟨suspendAt, resumeAt, rfl⟩ := elsewhere rfl
        obtain ⟨agent, performed, rfl⟩ := Option.map_eq_some_iff.mp performedBy
        obtain ⟨-, -, -, tdfTable_eq, -, -, configuration_eq, -⟩ :=
          Agent.updateCycle_ok (eventStep_eq_some.mp performed)
        rw [Function.update_self]
        exact .same tdfTable_eq configuration_eq
      · rw [Function.update_of_ne (Ne.symm own)]
        exact .same rfl rfl

/-- **What a run does to the table of an agent** that is given no command. -/
theorem tableFollows_of_run {c next : Cluster ι} (sound : c.Sound site low high)
    (regular : site.Regular low high) {host : ι} {actions : List (ClusterAction ι)}
    (enabled : (c.hosts host).agent.tdfTable.isTableEnabled = true)
    (positive : (c.hosts host).agent.configuration.tdfChangeThreshold.Positive)
    (elsewhere : ∀ action ∈ actions, CommandsElsewhere host action)
    (restrained : Meets (clusterStep site) (Restrained low high) c actions)
    (ran : run (clusterStep site) c actions = some next) :
    TableFollows (c.hosts host).agent (next.hosts host).agent
      ((deliveredTo next.sent host actions).map site.entry) := by
  induction actions generalizing c with
  | nil =>
      cases ran
      exact .same rfl rfl
  | cons action rest ih =>
      obtain ⟨middle, stepped, later⟩ := run_cons_eq_some.mp ran
      have prefixes := (sent_grows stepped).trans (sent_grows_of_run later)
      have first := tableFollows_of_step sound regular enabled positive
        (elsewhere action List.mem_cons_self) stepped prefixes
      have second := ih (sound.step regular restrained.1 stepped) (first.enabled.trans enabled)
        (first.threshold ▸ positive)
        (fun other member => elsewhere other (List.mem_cons_of_mem _ member))
        (restrained.2 middle stepped) later
      have split : deliveredTo next.sent host (action :: rest) =
          deliveredTo next.sent host [action] ++ deliveredTo next.sent host rest := by
        rw [deliveredTo, deliveredTo, deliveredTo, ← List.filterMap_append]
        rfl
      rw [split, List.map_append]
      exact first.trans second

/-! ## Agreement -/

/-- The updates of the entry of a host are what was delivered of it. -/
theorem updatesOf_entry (named : Function.Injective site.hostname) (sender : ι)
    (received : List (Sending ι)) :
    updatesOf (site.hostname sender) (received.map site.entry) =
      (received.filter fun sending => sending.1 = sender).map site.entry := by
  rw [updatesOf, List.filter_map]
  refine congrArg (List.map site.entry) (List.filter_congr ?_)
  intro sending _
  simp [Site.entry, named.eq_iff]

/-- **The entry of a host is that of its last datagram**, whatever the table held before. -/
theorem tdfMap_of_host (named : Function.Injective site.hostname) {before after : Agent}
    {received : List (Sending ι)} (follows : TableFollows before after (received.map site.entry))
    {sender : ι} {sending : Sending ι} (last : lastOf sender received = some sending) :
    after.tdfTable.tdfMap[site.hostname sender]? = some (some ⟨site.readBack sending.2⟩) := by
  unfold lastOf at last
  rw [follows.tdfMap, getElem?_insertAll, updatesOf_entry named, List.getLast?_map, last]
  rfl

omit [DecidableEq ι] in
/-- A table of a sound cluster has entries of hosts only. -/
theorem tdfMap_of_stranger {c : Cluster ι} (sound : c.Sound site low high) (host : ι)
    {name : CString} (stranger : ∀ sender, site.hostname sender ≠ name) :
    (c.hosts host).agent.tdfTable.tdfMap[name]? = none := by
  obtain ⟨nonNull, -, entries⟩ := sound.agent host
  rcases found : (c.hosts host).agent.tdfTable.tdfMap[name]? with _ | pointer
  · rfl
  · cases pointer with
    | none => exact absurd found (nonNull.tdfMap name)
    | some entry =>
        obtain ⟨sending, -, same, -⟩ := entries name entry found
        exact absurd same (stranger sending.1)

/-- **The table of an agent that is given no command settles** once the agent has heard of
some host. -/
theorem settled_of_run {c next : Cluster ι} (sound : c.Sound site low high)
    (regular : site.Regular low high) {host : ι} {actions : List (ClusterAction ι)}
    {threshold : LongDouble} (positive : threshold.Positive)
    (ready : (c.hosts host).agent.tdfTable.isTableEnabled = true ∧
      (c.hosts host).agent.configuration.tdfChangeThreshold = threshold ∧
      ∀ action ∈ actions, CommandsElsewhere host action)
    (restrained : Meets (clusterStep site) (Restrained low high) c actions)
    (ran : run (clusterStep site) c actions = some next)
    (heard : ∃ sender sending, lastOf sender (deliveredTo next.sent host actions) = some sending) :
    TableFollows (c.hosts host).agent (next.hosts host).agent
        ((deliveredTo next.sent host actions).map site.entry) ∧
      (next.hosts host).agent.tdfTable.Settled threshold := by
  obtain ⟨enabled, threshold_eq, elsewhere⟩ := ready
  have follows := tableFollows_of_run sound regular enabled (threshold_eq ▸ positive) elsewhere
    restrained ran
  have nonempty : deliveredTo next.sent host actions ≠ [] := by
    obtain ⟨sender, sending, last⟩ := heard
    intro empty
    rw [empty] at last
    cases last
  refine ⟨follows, ?_⟩
  rw [← threshold_eq, ← follows.threshold]
  exact follows.settled (Or.inl (by simpa using nonempty))

/-- **Two agents agree once the last they received of each host is the same.** From every
state of a cluster, whatever its network does: if two agents with enabled tables and the
same threshold then receive broadcasts of every host, of which the last is the same one for
both, they hold the same table, and the factor each has adopted is within the threshold of
its greatest one. -/
theorem cluster_agrees (site : Site ι) (low high : ℚ) (regular : site.Regular low high)
    (named : Function.Injective site.hostname) (created : ι → HostReading)
    (memory : ι → Buffer maxLength) (before after : List (ClusterAction ι))
    (restrained : Meets (clusterStep site) (Restrained low high)
      (Cluster.initial created memory) (before ++ after))
    (c next : Cluster ι)
    (ranBefore : run (clusterStep site) (Cluster.initial created memory) before = some c)
    (ranAfter : run (clusterStep site) c after = some next) (first second : ι)
    (threshold : LongDouble) (positive : threshold.Positive)
    (ready : ∀ host, host = first ∨ host = second →
      (c.hosts host).agent.tdfTable.isTableEnabled = true ∧
        (c.hosts host).agent.configuration.tdfChangeThreshold = threshold ∧
        ∀ action ∈ after, CommandsElsewhere host action)
    (last : ∀ sender, ∃ sending,
      lastOf sender (deliveredTo next.sent first after) = some sending ∧
        lastOf sender (deliveredTo next.sent second after) = some sending) :
    (next.hosts first).agent.tdfTable.tdfMap = (next.hosts second).agent.tdfTable.tdfMap ∧
      ∃ maxVal, (next.hosts first).agent.tdfTable.maxTdf = .ok maxVal ∧
        (next.hosts second).agent.tdfTable.maxTdf = .ok maxVal ∧
        ¬ threshold ≤ (next.hosts first).agent.tdfTable.gap maxVal ∧
        ¬ threshold ≤ (next.hosts second).agent.tdfTable.gap maxVal := by
  obtain ⟨restrainedBefore, restrainedAfter⟩ := (meets_append ranBefore).mp restrained
  have sound : c.Sound site low high :=
    Cluster.Sound.of_run (.initial created memory) regular restrainedBefore ranBefore
  have soundNext := sound.of_run regular restrainedAfter ranAfter
  have follows : ∀ host, host = first ∨ host = second →
      TableFollows (c.hosts host).agent (next.hosts host).agent
          ((deliveredTo next.sent host after).map site.entry) ∧
        (next.hosts host).agent.tdfTable.Settled threshold := by
    intro host one
    refine settled_of_run sound regular positive (ready host one) restrainedAfter ranAfter ?_
    obtain ⟨sending, atFirst, atSecond⟩ := last host
    rcases one with rfl | rfl
    · exact ⟨_, sending, atFirst⟩
    · exact ⟨_, sending, atSecond⟩
  have maps : (next.hosts first).agent.tdfTable.tdfMap =
      (next.hosts second).agent.tdfTable.tdfMap := by
    refine ExtTreeMap.ext_getElem? ?_
    intro name
    by_cases known : ∃ sender, site.hostname sender = name
    · obtain ⟨sender, rfl⟩ := known
      obtain ⟨sending, atFirst, atSecond⟩ := last sender
      rw [tdfMap_of_host named (follows first (Or.inl rfl)).1 atFirst,
        tdfMap_of_host named (follows second (Or.inr rfl)).1 atSecond]
    · have stranger := not_exists.mp known
      rw [tdfMap_of_stranger soundNext first stranger, tdfMap_of_stranger soundNext second stranger]
  obtain ⟨maxVal, greatest, near⟩ := (follows first (Or.inl rfl)).2
  obtain ⟨maxVal₂, greatest₂, near₂⟩ := (follows second (Or.inr rfl)).2
  obtain rfl : maxVal = maxVal₂ := by
    have same : (next.hosts second).agent.tdfTable.maxTdf = .ok maxVal := by
      rw [TdfTable.maxTdf, ← maps]
      exact greatest
    exact Except.ok.inj (same.symm.trans greatest₂)
  exact ⟨maps, maxVal, greatest, greatest₂, near, near₂⟩

/-- The tables are enabled, and both monitors follow their last reading alone. -/
def enableBoth : List (ClusterAction Bool) :=
  [.event true (.tcp (ascii "12") ⟨1, 1⟩), .event false (.tcp (ascii "12") ⟨1, 1⟩),
    .event true (.tcp (ascii "20|3|4|1") ⟨1, 1⟩), .event false (.tcp (ascii "20|3|4|1") ⟨1, 1⟩)]

/-- The second host is busy and then idle. Its first datagram does not reach itself, and the
one of the first host reaches it twice. -/
def lossyExchange : List (ClusterAction Bool) :=
  [.iteration false ⟨0, 0, 0, 0⟩, .iteration true ⟨1, 0, 0, 0⟩, .deliver true 0, .deliver false 1,
    .iteration false ⟨1, 0, 0, 0⟩, .deliver true 2, .deliver true 1, .deliver false 1,
    .deliver false 2]

theorem cluster_agrees_lossy :
    ∃ c next, run (clusterStep twoHosts)
        (Cluster.initial (fun _ => ⟨0, 0⟩) fun _ => Buffer.zeros maxLength) enableBoth = some c ∧
      run (clusterStep twoHosts) c lossyExchange = some next ∧
      (next.hosts true).agent.tdfTable.tdfMap = (next.hosts false).agent.tdfTable.tdfMap := by
  obtain ⟨c, ranBefore, ready, goesOn⟩ :
      ∃ c, run (clusterStep twoHosts)
        (Cluster.initial (fun _ => ⟨0, 0⟩) fun _ => Buffer.zeros maxLength) enableBoth = some c ∧
      (∀ host, (c.hosts host).agent.tdfTable.isTableEnabled = true ∧
        (c.hosts host).agent.configuration.tdfChangeThreshold =
          ({} : Configuration).tdfChangeThreshold) ∧
      (run (clusterStep twoHosts) c lossyExchange).any (fun next =>
        decide (∀ sender, (lastOf sender (deliveredTo next.sent true lossyExchange)).isSome = true ∧
          lastOf sender (deliveredTo next.sent false lossyExchange) =
            lastOf sender (deliveredTo next.sent true lossyExchange))) = true := by
    apply exists_of_any
    decide +kernel
  obtain ⟨next, ranAfter, last⟩ := exists_of_any goesOn
  refine ⟨c, next, ranBefore, ranAfter, (cluster_agrees twoHosts 1 20 regular_twoHosts ?_ _ _
    enableBoth lossyExchange (by decide +kernel) c next ranBefore ranAfter true false
    ({} : Configuration).tdfChangeThreshold (by decide +kernel) ?_ ?_).1⟩
  · decide
  · intro host _
    exact ⟨(ready host).1, (ready host).2, by simp [lossyExchange, CommandsElsewhere]⟩
  · intro sender
    obtain ⟨found, same⟩ := last sender
    obtain ⟨sending, atFirst⟩ := Option.isSome_iff_exists.mp found
    exact ⟨sending, atFirst, same.trans atFirst⟩

end VirtualAgent
