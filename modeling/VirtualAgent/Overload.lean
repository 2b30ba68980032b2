import VirtualAgent.PrintedTdf
import VirtualAgent.SustainedLoad

/-!
# A host that stays busy

The monitor of a host that stays busy asks for its greatest factor sooner or later, and the
network carries what it asks for to the other hosts. `overload_dictates_factor` puts the
parts together. From every state of a cluster whose hosts print their factors, there is a
number of iterations of the busy host after which any agent that hears of it, by a datagram
sent from then on, adopts a factor within its threshold of that greatest factor, and its
guests run on it after the next update cycle. What the other hosts measure and ask for, and
what else the network does, makes no difference.

`run_monitor` projects a run of the cluster to the run of one monitor, and
`exists_iteration_of_sent` finds the iteration that sent a datagram.
-/

set_option autoImplicit false

namespace VirtualAgent

open ExactFloat CText Outcome Transition
open ExactFloat.LongDouble (HasValue hasValue_toRat)

variable {ι : Type} {site : Site ι}

/-! ## The monitor of a host -/

/-- Each agent and its monitor have the same settings. -/
def Cluster.SharesConfiguration (c : Cluster ι) : Prop :=
  ∀ host, (c.hosts host).monitor.configuration = (c.hosts host).agent.configuration

theorem sharesConfiguration_initial (created : ι → HostReading) (memory : ι → Buffer maxLength) :
    (Cluster.initial created memory).SharesConfiguration :=
  fun _ => rfl

/-- What an event of the agent is to the monitor. -/
def Event.monitorActions : Event → List MonitorAction
  | .tcp msg _ => [.receiveTcp msg]
  | .udp _ | .cycle _ _ => []

/-- A datagram assigns no setting, and is nothing to the monitor. -/
theorem Host.receive_shares {h next : Host} {received : CString}
    (done : h.receive received = some next) :
    next.monitor = h.monitor ∧ next.agent.configuration = h.agent.configuration := by
  obtain ⟨⟨server, messages⟩, -, performed⟩ := Option.bind_eq_some_iff.mp done
  obtain ⟨agent, ran, rfl⟩ := Option.map_eq_some_iff.mp performed
  refine ⟨rfl, ?_⟩
  have udp : Meets eventStep (fun _ event => ∃ msg, event = .udp msg) h.agent
      (messages.map Event.udp) := by
    refine meets_of_forall ?_ _
    intro event member _
    obtain ⟨msg, -, rfl⟩ := List.mem_map.mp member
    exact ⟨msg, rfl⟩
  refine run_invariant_of_meets (fun a : Agent => a.configuration = h.agent.configuration) ?_ rfl
    udp ran
  rintro a event after same ⟨msg, rfl⟩ stepped
  exact (configuration_of_udp (eventStep_eq_some.mp stepped)).trans same

/-- **The monitor sees an event as the agent performs it.** -/
theorem run_monitorActions (pow : LongDouble → LongDouble → LongDouble) {m : CpuMonitor}
    {a next : Agent} {event : Event} (shared : m.configuration = a.configuration)
    (done : event.perform a = .ok next) :
    run (monitorStep pow) m event.monitorActions =
      some { m with configuration := next.configuration } := by
  cases event with
  | udp msg =>
      rw [configuration_of_udp done, ← shared]
      rfl
  | tcp msg host =>
      have stepped := monitorStep_receiveTcp pow m done
      rw [← shared] at stepped
      exact run_cons_eq_some.mpr ⟨_, stepped, rfl⟩
  | cycle suspendAt resumeAt =>
      obtain ⟨-, -, -, -, -, -, configuration_eq, -⟩ := Agent.updateCycle_ok done
      rw [configuration_eq, ← shared]
      rfl

variable [DecidableEq ι]

/-- What an action of the cluster is to the monitor of a host. -/
def onMonitor (host : ι) : ClusterAction ι → List MonitorAction
  | .iteration other reading => if other = host then [.iteration reading] else []
  | .deliver _ _ => []
  | .event other event => if other = host then event.monitorActions else []

/-- What the monitor of a host goes through. -/
def monitorActionsOf (host : ι) (actions : List (ClusterAction ι)) : List MonitorAction :=
  actions.flatMap (onMonitor host)

theorem monitorActionsOf_append (host : ι) (first second : List (ClusterAction ι)) :
    monitorActionsOf host (first ++ second) =
      monitorActionsOf host first ++ monitorActionsOf host second :=
  List.flatMap_append

/-- A step of the cluster is a run of each monitor. -/
theorem run_onMonitor {c next : Cluster ι} {action : ClusterAction ι}
    (shared : c.SharesConfiguration) (stepped : clusterStep site c action = some next) (host : ι) :
    run (monitorStep site.pow) (c.hosts host).monitor (onMonitor host action) =
        some (next.hosts host).monitor ∧
      (next.hosts host).monitor.configuration = (next.hosts host).agent.configuration := by
  cases action with
  | iteration other reading =>
      cases stepped
      dsimp only [onMonitor]
      by_cases own : other = host
      · subst own
        rw [if_pos rfl, Function.update_self]
        exact ⟨rfl, (configuration_iterate site.pow _ reading .exact).trans (shared other)⟩
      · rw [if_neg own, Function.update_of_ne (Ne.symm own)]
        exact ⟨rfl, shared host⟩
  | deliver other index =>
      obtain ⟨sending, found, received⟩ := Option.bind_eq_some_iff.mp stepped
      obtain ⟨h, receivedBy, returned⟩ := Option.bind_eq_some_iff.mp received
      cases returned
      dsimp only [onMonitor]
      by_cases own : other = host
      · subst own
        obtain ⟨monitor_eq, configuration_eq⟩ := Host.receive_shares receivedBy
        rw [Function.update_self, monitor_eq, configuration_eq]
        exact ⟨rfl, shared other⟩
      · rw [Function.update_of_ne (Ne.symm own)]
        exact ⟨rfl, shared host⟩
  | event other event =>
      obtain ⟨h, performedBy, returned⟩ := Option.bind_eq_some_iff.mp stepped
      cases returned
      obtain ⟨agent, performed, rfl⟩ := Option.map_eq_some_iff.mp performedBy
      dsimp only [onMonitor]
      by_cases own : other = host
      · subst own
        rw [if_pos rfl, Function.update_self]
        exact ⟨run_monitorActions site.pow (shared other) (eventStep_eq_some.mp performed), rfl⟩
      · rw [if_neg own, Function.update_of_ne (Ne.symm own)]
        exact ⟨rfl, shared host⟩

/-- **In a cluster a monitor runs as it does by itself.** -/
theorem run_monitor {c next : Cluster ι} {actions : List (ClusterAction ι)}
    (shared : c.SharesConfiguration) (ran : run (clusterStep site) c actions = some next)
    (host : ι) :
    run (monitorStep site.pow) (c.hosts host).monitor (monitorActionsOf host actions) =
      some (next.hosts host).monitor := by
  induction actions generalizing c with
  | nil =>
      cases ran
      rfl
  | cons action rest ih =>
      obtain ⟨middle, stepped, later⟩ := run_cons_eq_some.mp ran
      have ranRest := ih (fun other => (run_onMonitor shared stepped other).2) later
      rw [monitorActionsOf, List.flatMap_cons, run_append, (run_onMonitor shared stepped host).1]
      exact ranRest

theorem sharesConfiguration_of_run {c next : Cluster ι} {actions : List (ClusterAction ι)}
    (shared : c.SharesConfiguration) (ran : run (clusterStep site) c actions = some next) :
    next.SharesConfiguration :=
  run_invariant Cluster.SharesConfiguration
    (fun _ _ _ shared stepped host => (run_onMonitor shared stepped host).2) shared ran

/-! ## Where a datagram comes from -/

/-- What a step sends, an iteration of the sender broadcasts. -/
theorem sent_of_step {c next : Cluster ι} {action : ClusterAction ι}
    (stepped : clusterStep site c action = some next) :
    ∃ fresh, next.sent = c.sent ++ fresh ∧ ∀ sending ∈ fresh, ∃ reading,
      action = .iteration sending.1 reading ∧
        (c.hosts sending.1).monitor.broadcast site.pow reading = some sending.2 := by
  cases action with
  | iteration host reading =>
      cases stepped
      refine ⟨_, rfl, ?_⟩
      intro sending member
      obtain ⟨factor, broadcast, rfl⟩ := Option.map_eq_some_iff.mp (Option.mem_toList.mp member)
      exact ⟨reading, rfl, broadcast⟩
  | deliver host index =>
      obtain ⟨sending, -, received⟩ := Option.bind_eq_some_iff.mp stepped
      obtain ⟨h, -, returned⟩ := Option.bind_eq_some_iff.mp received
      cases returned
      exact ⟨[], (List.append_nil _).symm, List.forall_mem_nil _⟩
  | event host event =>
      obtain ⟨h, -, returned⟩ := Option.bind_eq_some_iff.mp stepped
      cases returned
      exact ⟨[], (List.append_nil _).symm, List.forall_mem_nil _⟩

/-- **Each datagram was sent by an iteration of its host.** -/
theorem exists_iteration_of_sent {c next : Cluster ι} {actions : List (ClusterAction ι)}
    (ran : run (clusterStep site) c actions = some next) {sending : Sending ι}
    (member : sending ∈ next.sent.drop c.sent.length) :
    ∃ before reading rest middle, actions = before ++ .iteration sending.1 reading :: rest ∧
      run (clusterStep site) c before = some middle ∧
      (middle.hosts sending.1).monitor.broadcast site.pow reading = some sending.2 := by
  induction actions generalizing c with
  | nil =>
      cases ran
      rw [List.drop_length] at member
      cases member
  | cons action rest ih =>
      obtain ⟨middle, stepped, later⟩ := run_cons_eq_some.mp ran
      obtain ⟨fresh, grown, broadcasts⟩ := sent_of_step stepped
      obtain ⟨afterwards, grownLater⟩ := sent_grows_of_run later
      rw [← grownLater, grown, List.append_assoc, List.drop_left, List.mem_append] at member
      rcases member with now | afterNow
      · obtain ⟨reading, rfl, broadcast⟩ := broadcasts sending now
        exact ⟨[], reading, rest, c, rfl, rfl, broadcast⟩
      · have inRest : sending ∈ next.sent.drop middle.sent.length := by
          rw [← grownLater, List.drop_left]
          exact afterNow
        obtain ⟨before, reading, afterIt, state, rfl, ranBefore, broadcast⟩ := ih later inRest
        exact ⟨action :: before, reading, afterIt, state, rfl,
          run_cons_eq_some.mpr ⟨middle, stepped, ranBefore⟩, broadcast⟩

/-! ## What a busy host sends -/

section Busy

variable {c : Cluster ι} {busy : ι} {slope target least high alpha ratio low : ℚ} {exponent : ℕ}

/-- **After some number of iterations a busy host sends its greatest factor only.** -/
theorem exists_enough (isNatPow : IsNatPow site.pow) (shared : c.SharesConfiguration)
    (finite : (c.hosts busy).monitor.Finite)
    (follows : (c.hosts busy).monitor.configuration.FollowsLoad slope target least high alpha
      exponent) (belowTarget : ratio < 1 - target) :
    ∃ enough, ∀ (warmUp after : List (ClusterAction ι)) (middle next : Cluster ι),
      run (clusterStep site) c warmUp = some middle →
      run (clusterStep site) middle after = some next →
      Meets (monitorStep site.pow) (SettingsStay (Set.Iic ratio)) (c.hosts busy).monitor
        (monitorActionsOf busy (warmUp ++ after)) →
      enough ≤ iterations (monitorActionsOf busy warmUp) →
      ∀ sending ∈ next.sent.drop middle.sent.length, sending.1 = busy →
        sending.2.HasValue high := by
  have raises := loadMove_neg follows.steep follows.settings.positive exponent
    (by linarith : ratio + (1 - target - ratio) / 2 < 1 - target)
  obtain ⟨enough, raised⟩ := exists_iterations isNatPow follows
    (pulls_busy follows ratio (c.hosts busy).monitor.tdfLoad.toRat) (by linarith)
    (neg_pos.mpr raises) rfl (hasValue_toRat finite.average) (hasValue_toRat finite.tdfLoad)
    (le_max_right _ _)
  refine ⟨enough, ?_⟩
  rintro warmUp after middle next ranWarmUp ranAfter stays reached sending member rfl
  obtain ⟨before, reading, rest, state, rfl, ranBefore, broadcast⟩ :=
    exists_iteration_of_sent ranAfter member
  have ranState : run (clusterStep site) c (warmUp ++ before) = some state := by
    rw [run_append, ranWarmUp]
    exact ranBefore
  have ranMonitor := run_monitor shared ranState sending.1
  have split : monitorActionsOf sending.1
      (warmUp ++ (before ++ .iteration sending.1 reading :: rest)) =
        monitorActionsOf sending.1 (warmUp ++ before) ++
          .iteration reading :: monitorActionsOf sending.1 rest := by
    rw [← List.append_assoc, monitorActionsOf_append (sending.1) (warmUp ++ before)]
    simp [monitorActionsOf, onMonitor]
  rw [split] at stays
  obtain ⟨staysBefore, stay, -⟩ := (meets_append ranMonitor).mp stays
  obtain ⟨q, inside, value, closed, configuration_eq⟩ := raised
    (monitorActionsOf sending.1 (warmUp ++ before) ++ [.iteration reading])
    ((state.hosts sending.1).monitor.iterate site.pow reading)
    ((meets_append ranMonitor).mpr ⟨staysBefore, stay, fun _ _ => trivial⟩)
    (by rw [run_append, ranMonitor]; rfl)
    (reached.trans (by
      rw [monitorActionsOf_append, List.append_assoc]
      exact iterations_le_append _ _))
  obtain rfl : q = high := inside.2.antisymm (sub_nonpos.mp closed)
  -- the mode is the one with `TDF_load` only
  rw [CpuMonitor.broadcast] at broadcast
  obtain ⟨-, rTdf_eq⟩ := Option.ite_none_right_eq_some.mp broadcast
  rw [← Option.some.inj rTdf_eq, CpuMonitor.rTdf, configuration_eq, follows.mode]
  exact value

/-! ## What the other agents make of it -/

/-- An agent with an enabled table that receives some datagram of a host after a run, and
none of it from before, and is given no command meanwhile. -/
structure Hears (busy host : ι) (threshold : ℚ) (middle next : Cluster ι)
    (after : List (ClusterAction ι)) : Prop where
  positive : 0 < threshold
  enabled : (middle.hosts host).agent.tdfTable.isTableEnabled = true
  threshold_eq : (middle.hosts host).agent.configuration.tdfChangeThreshold = .ofRat threshold
  elsewhere : ∀ action ∈ after, CommandsElsewhere host action
  fresh : ∀ (index : ℕ) (sending : Sending ι), .deliver host index ∈ after →
    next.sent[index]? = some sending → sending.1 = busy → middle.sent.length ≤ index
  heard : ∃ sending, lastOf busy (deliveredTo next.sent host after) = some sending

theorem exists_index_of_mem_deliveredTo {sent : List (Sending ι)} {host : ι}
    {actions : List (ClusterAction ι)} {sending : Sending ι}
    (member : sending ∈ deliveredTo sent host actions) :
    ∃ index, .deliver host index ∈ actions ∧ sent[index]? = some sending := by
  obtain ⟨action, among, found⟩ := List.mem_filterMap.mp member
  cases action with
  | deliver receiver index =>
      obtain ⟨own, found⟩ := Option.ite_none_right_eq_some.mp found
      exact ⟨index, own ▸ among, found⟩
  | iteration host reading => cases found
  | event host event => cases found

/-- The last datagram that such an agent receives of the host is a fresh one. -/
theorem Hears.exists_fresh {host : ι} {threshold : ℚ} {middle next : Cluster ι}
    {after : List (ClusterAction ι)} (hears : Hears busy host threshold middle next after) :
    ∃ sending, lastOf busy (deliveredTo next.sent host after) = some sending ∧
      sending ∈ next.sent.drop middle.sent.length ∧ sending.1 = busy := by
  obtain ⟨sending, last⟩ := hears.heard
  obtain ⟨delivered, sender⟩ := List.mem_filter.mp (List.mem_of_getLast? last)
  have sender : sending.1 = busy := of_decide_eq_true sender
  obtain ⟨index, among, found⟩ := exists_index_of_mem_deliveredTo delivered
  have fresh := hears.fresh index sending among found sender
  refine ⟨sending, last, List.mem_of_getElem? (i := index - middle.sent.length) ?_, sender⟩
  rw [List.getElem?_drop, Nat.add_sub_cancel' fresh]
  exact found

end Busy

/-- **A host that stays busy dictates the factor.** From every state of a cluster whose hosts
print their factors, for a host whose monitor follows the load, with the greatest factor of
the cluster, and readings below its target that leave its settings alone: there is a number
of its iterations after which every agent that hears of it, by datagrams sent from then on,
has adopted a factor within its threshold of that greatest factor, and its guests run on it
after the next update cycle, whatever the other hosts, operators and the network do. -/
theorem overload_dictates_factor (site : Site ι) (low high : ℚ) (prints : site.Prints)
    (range : PrintRange low high) (named : Function.Injective site.hostname)
    (isNatPow : IsNatPow site.pow) (created : ι → HostReading)
    (memory : ι → Buffer maxLength) (before : List (ClusterAction ι))
    (restrained : Meets (clusterStep site) (Restrained low high)
      (Cluster.initial created memory) before)
    (c : Cluster ι)
    (ran : run (clusterStep site) (Cluster.initial created memory) before = some c) (busy : ι)
    {slope target least alpha ratio : ℚ} {exponent : ℕ}
    (follows : (c.hosts busy).monitor.configuration.FollowsLoad slope target least high alpha
      exponent) (belowTarget : ratio < 1 - target) :
    ∃ enough, ∀ (warmUp after : List (ClusterAction ι)) (middle next : Cluster ι),
      run (clusterStep site) c warmUp = some middle →
      run (clusterStep site) middle after = some next →
      Meets (clusterStep site) (Restrained low high) c (warmUp ++ after) →
      Meets (monitorStep site.pow) (SettingsStay (Set.Iic ratio)) (c.hosts busy).monitor
        (monitorActionsOf busy (warmUp ++ after)) →
      enough ≤ iterations (monitorActionsOf busy warmUp) →
      ∀ (host : ι) (threshold : ℚ), Hears busy host threshold middle next after →
        ∃ latest, (next.hosts host).agent.tdfTable.latestTdf.HasValue latest ∧
          |high - latest| < threshold * latest ∧
          ∀ suspendAt resumeAt guests,
            clusterStep site next (.event host (.cycle suspendAt resumeAt)) = some guests →
            (guests.hosts host).agent.sharedTdf.HasValue latest := by
  have regular := regular_printed prints range
  have sound : c.Sound site low high :=
    Cluster.Sound.of_run (.initial created memory) regular restrained ran
  have shared := sharesConfiguration_of_run (sharesConfiguration_initial created memory) ran
  obtain ⟨enough, saturated⟩ :=
    exists_enough isNatPow shared (sound.finite busy) follows belowTarget
  refine ⟨enough, ?_⟩
  intro warmUp after middle next ranWarmUp ranAfter restrained stays reached host threshold hears
  obtain ⟨restrainedWarmUp, restrainedAfter⟩ := (meets_append ranWarmUp).mp restrained
  have soundMiddle := sound.of_run regular restrainedWarmUp ranWarmUp
  have soundNext := soundMiddle.of_run regular restrainedAfter ranAfter
  obtain ⟨sending, last, fresh, sender⟩ := hears.exists_fresh
  have value := saturated warmUp after middle next ranWarmUp ranAfter stays reached sending
    fresh sender
  obtain ⟨followsTable, settled⟩ := settled_of_run soundMiddle regular
    (LongDouble.positive_ofRat.mpr hears.positive)
    ⟨hears.enabled, hears.threshold_eq, hears.elsewhere⟩ restrainedAfter ranAfter ⟨_, _, last⟩
  have found := tdfMap_of_host named followsTable last
  obtain ⟨other, greatest, latest, adopts⟩ :=
    soundNext.exists_adopts prints range settled found
  -- the entry of the busy host is the greatest factor
  have atMost : high ∈ Set.Icc low high := ⟨adopts.mem.1.trans adopts.mem.2, le_rfl⟩
  have readBack := prints.readBack range value atMost
  rw [range.readTdf_high atMost.1] at readBack
  obtain rfl : greatest = high :=
    adopts.mem.2.antisymm (adopts.isGreatest _ _ _ found readBack)
  refine ⟨latest, adopts.latestTdf, adopts.near, ?_⟩
  intro suspendAt resumeAt guests cycled
  rw [sharedTdf_of_cycle cycled]
  exact adopts.latestTdf

/-! ## A host that is busy all the time -/

theorem configuration_of_iteration {c next : Cluster ι} {busy : ι} {reading : MonitorReading}
    (stepped : clusterStep site c (.iteration busy reading) = some next) :
    (next.hosts busy).monitor.configuration = (c.hosts busy).monitor.configuration := by
  cases stepped
  dsimp only
  rw [Function.update_self]
  exact configuration_iterate site.pow _ reading .exact

theorem sent_of_iteration {c next : Cluster ι} {busy : ι} {reading : MonitorReading}
    (monitored : (c.hosts busy).monitor.configuration.isLoadMonitored = true)
    (stepped : clusterStep site c (.iteration busy reading) = some next) :
    ∃ factor, next.sent = c.sent ++ [(busy, factor)] := by
  cases stepped
  simp only [CpuMonitor.broadcast, monitored, if_true, Option.map_some, Option.toList_some]
  exact ⟨_, rfl⟩

/-- One iteration of a host after another. -/
theorem exists_iterated (site : Site ι) (busy : ι) (reading : MonitorReading) (count : ℕ)
    (c : Cluster ι) (monitored : (c.hosts busy).monitor.configuration.isLoadMonitored = true) :
    ∃ next, run (clusterStep site) c (List.replicate count (.iteration busy reading)) = some next ∧
      (∀ other, other ≠ busy → next.hosts other = c.hosts other) ∧
      (next.hosts busy).monitor.configuration = (c.hosts busy).monitor.configuration ∧
      next.sent.length = c.sent.length + count := by
  induction count generalizing c with
  | zero => exact ⟨c, rfl, fun _ _ => rfl, rfl, rfl⟩
  | succ count ih =>
      obtain ⟨first, stepped⟩ : ∃ first,
          clusterStep site c (.iteration busy reading) = some first := ⟨_, rfl⟩
      have same := configuration_of_iteration stepped
      have others : ∀ other, other ≠ busy → first.hosts other = c.hosts other := by
        intro other apart
        cases stepped
        exact Function.update_of_ne apart _ _
      have sent : first.sent.length = c.sent.length + 1 := by
        obtain ⟨factor, sent_eq⟩ := sent_of_iteration monitored stepped
        rw [sent_eq, List.length_append, List.length_singleton]
      obtain ⟨next, ran, unchanged, kept, length_eq⟩ := ih first (same ▸ monitored)
      refine ⟨next, run_cons_eq_some.mpr ⟨first, stepped, ran⟩, ?_, kept.trans same, by omega⟩
      exact fun other apart => (unchanged other apart).trans (others other apart)

/-- What the iterations are to the monitor of the host. -/
theorem monitorActionsOf_iterated (busy : ι) (reading : MonitorReading) (count : ℕ) :
    monitorActionsOf busy (List.replicate count (.iteration busy reading)) =
      List.replicate count (.iteration reading) := by
  induction count with
  | zero => rfl
  | succ count ih =>
      have head : onMonitor busy (.iteration busy reading) = [.iteration reading] := if_pos rfl
      rw [List.replicate_succ, List.replicate_succ, ← ih, monitorActionsOf, List.flatMap_cons, head]
      rfl

/-- The settings of a host stay as they are in its iterations. -/
theorem meets_iterated {low high : ℚ} {busy : ι} {reading : MonitorReading} {s : Configuration}
    (restrained : ∀ m : CpuMonitor, m.configuration = s → m.configuration.Numeric ∧
      m.LoadDefined reading ∧ low ≤ m.configuration.tdfMin.toRat ∧
        m.configuration.tdfMax.toRat ≤ high) (count : ℕ)
    (c : Cluster ι) (settings : (c.hosts busy).monitor.configuration = s) :
    Meets (clusterStep site) (Restrained low high) c
      (List.replicate count (.iteration busy reading)) := by
  induction count generalizing c with
  | zero => trivial
  | succ count ih =>
      exact ⟨restrained _ settings, fun next stepped =>
        ih next ((configuration_of_iteration stepped).trans settings)⟩

/-- The first host has its table enabled. -/
def enableFirst : List (ClusterAction Bool) := [.event true (.tcp (ascii "12") ⟨1, 1⟩)]

/-- The second host finds a quarter of its time idle. -/
def busyIteration : ClusterAction Bool := .iteration false ⟨1 / 4, 0, 0, 0⟩

theorem restrained_busyIteration (m : CpuMonitor) (settings : m.configuration = {}) :
    m.configuration.Numeric ∧ m.LoadDefined ⟨1 / 4, 0, 0, 0⟩ ∧
      1 ≤ m.configuration.tdfMin.toRat ∧ m.configuration.tdfMax.toRat ≤ 20 := by
  rw [CpuMonitor.LoadDefined, settings]
  refine ⟨by decide +kernel, fun _ => ⟨by decide +kernel, Or.inl (by decide +kernel)⟩, ?_⟩
  decide +kernel

/-- The second host is busy for a while, and a datagram that it sends after that is heard. -/
theorem exists_heard {c : Cluster Bool} (sound : c.Sound printingHosts 1 20)
    (enabled : (c.hosts true).agent.tdfTable.isTableEnabled = true) {threshold : ℚ}
    (positive : 0 < threshold)
    (threshold_eq : (c.hosts true).agent.configuration.tdfChangeThreshold = .ofRat threshold)
    (settings : (c.hosts false).monitor.configuration = {}) (nothing : c.sent.length = 0)
    (count : ℕ) :
    ∃ middle next,
      run (clusterStep printingHosts) c (List.replicate count busyIteration) = some middle ∧
      run (clusterStep printingHosts) middle [busyIteration, .deliver true count] = some next ∧
      Meets (clusterStep printingHosts) (Restrained 1 20) c
        (List.replicate count busyIteration ++ [busyIteration, .deliver true count]) ∧
      Hears false true threshold middle next [busyIteration, .deliver true count] := by
  have regular := regular_printed prints_printingHosts printRange_default
  obtain ⟨middle, ranWarmUp, others, kept, length_eq⟩ :=
    exists_iterated printingHosts false ⟨1 / 4, 0, 0, 0⟩ count c (by rw [settings])
  rw [nothing, Nat.zero_add] at length_eq
  have restrainedWarmUp : Meets (clusterStep printingHosts) (Restrained 1 20) c
      (List.replicate count busyIteration) :=
    meets_iterated restrained_busyIteration count c settings
  have restrained : Restrained 1 20 middle busyIteration :=
    restrained_busyIteration _ (kept.trans settings)
  have sound := sound.of_run regular restrainedWarmUp ranWarmUp
  -- the host sends once more, and that datagram is delivered
  obtain ⟨ahead, iterated⟩ : ∃ ahead, clusterStep printingHosts middle busyIteration = some ahead :=
    ⟨_, rfl⟩
  obtain ⟨factor, sent_eq⟩ := sent_of_iteration (by rw [kept, settings]) iterated
  have found : ahead.sent[count]? = some (false, factor) := by
    rw [sent_eq, ← length_eq, List.getElem?_concat_length]
  obtain ⟨tdfTable, notified, server, -, delivered, -⟩ :=
    (sound.step regular restrained iterated).exists_deliver regular true found
  refine ⟨middle, _, ranWarmUp, run_cons_eq_some.mpr ⟨ahead, iterated,
    run_cons_eq_some.mpr ⟨_, delivered, rfl⟩⟩, (meets_append ranWarmUp).mpr ⟨restrainedWarmUp,
      restrained, fun _ _ => ⟨trivial, fun _ _ => trivial⟩⟩, ?_⟩
  have unchanged := others true (by decide)
  refine ⟨positive, unchanged ▸ enabled, unchanged ▸ threshold_eq, ?_, ?_, ?_⟩
  · simp [busyIteration, CommandsElsewhere]
  · intro index sending member _ _
    simp only [busyIteration, List.mem_cons, reduceCtorEq, ClusterAction.deliver.injEq, true_and,
      List.not_mem_nil, or_false, false_or] at member
    exact (length_eq.trans member.symm).le
  · exact ⟨(false, factor), by simp [deliveredTo, busyIteration, found, lastOf]⟩

theorem settingsStay_busyIteration (count : ℕ) (m : CpuMonitor) :
    Meets (monitorStep printingHosts.pow) (SettingsStay (Set.Iic (1 / 4))) m (monitorActionsOf false
      (List.replicate count busyIteration ++ [busyIteration, .deliver true count])) := by
  refine meets_of_forall ?_ m
  intro action member _
  rw [monitorActionsOf_append, busyIteration, monitorActionsOf_iterated] at member
  have same : action = .iteration ⟨1 / 4, 0, 0, 0⟩ := by
    rcases List.mem_append.mp member with warmUp | last
    · exact List.eq_of_mem_replicate warmUp
    · exact List.mem_singleton.mp last
  subst same
  exact Set.mem_Iic.mpr le_rfl

theorem overload_dictates_factor_default :
    ∃ c count middle next latest,
      run (clusterStep printingHosts)
        (Cluster.initial (fun _ => ⟨0, 0⟩) fun _ => Buffer.zeros maxLength) enableFirst = some c ∧
      run (clusterStep printingHosts) c (List.replicate count busyIteration) = some middle ∧
      run (clusterStep printingHosts) middle [busyIteration, .deliver true count] = some next ∧
      (next.hosts true).agent.tdfTable.latestTdf.HasValue latest ∧
      |20 - latest| < ({} : Configuration).tdfChangeThreshold.toRat * latest ∧
      ∀ suspendAt resumeAt guests,
        clusterStep printingHosts next (.event true (.cycle suspendAt resumeAt)) = some guests →
        (guests.hosts true).agent.sharedTdf.HasValue latest := by
  obtain ⟨c, ranBefore, enabled, threshold_eq, settings, nothing⟩ :
      ∃ c, run (clusterStep printingHosts)
        (Cluster.initial (fun _ => ⟨0, 0⟩) fun _ => Buffer.zeros maxLength) enableFirst = some c ∧
      (c.hosts true).agent.tdfTable.isTableEnabled = true ∧
      (c.hosts true).agent.configuration.tdfChangeThreshold =
        .ofRat ({} : Configuration).tdfChangeThreshold.toRat ∧
      (c.hosts false).monitor.configuration = {} ∧ c.sent.length = 0 := by
    apply exists_of_any
    decide +kernel
  have restrained : Meets (clusterStep printingHosts) (Restrained 1 20)
      (Cluster.initial (fun _ => ⟨0, 0⟩) fun _ => Buffer.zeros maxLength) enableFirst := by
    decide +kernel
  obtain ⟨enough, dictates⟩ := overload_dictates_factor printingHosts 1 20 prints_printingHosts
    printRange_default (by decide) isNatPow_integerPow _ _ enableFirst restrained c ranBefore false
    (settings ▸ followsLoad_default) (by norm_num : (1 / 4 : ℚ) < 1 - 1 / 2)
  have sound := Cluster.Sound.of_run (.initial _ _)
    (regular_printed prints_printingHosts printRange_default) restrained ranBefore
  obtain ⟨middle, next, ranWarmUp, ranAfter, restrained, hears⟩ :=
    exists_heard sound enabled (by decide +kernel) threshold_eq settings nothing enough
  have counted :
      enough ≤ iterations (monitorActionsOf false (List.replicate enough busyIteration)) := by
    rw [busyIteration, monitorActionsOf_iterated, iterations_replicate]
  obtain ⟨latest, value, near, carried⟩ := dictates _ _ middle next ranWarmUp ranAfter restrained
    (settingsStay_busyIteration enough _) counted true _ hears
  exact ⟨c, enough, middle, next, latest, ranBefore, ranWarmUp, ranAfter, value, near, carried⟩

end VirtualAgent
