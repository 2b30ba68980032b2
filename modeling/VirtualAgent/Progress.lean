import VirtualAgent.Shutdown
import VirtualAgent.ThreadFaults

/-!
# The threads go on

Nothing in the agent waits for ever on the mutex of the table of factors. The virtual
time thread can always go on while it holds the mutex, and gives it back in at most nine of
its steps and four for each entry of the interface table, over which it passes meanwhile. So
a message that needs the mutex gets it however the other threads run (`mutex_is_released`).

After a SIGTERM the three threads of `VirtualAgent::start` have a bounded number of steps
left, to which the messages that are still performed can add four each, by an entry ahead of
the pass. When none of the threads can take another step, all of them have ended, or the
virtual time thread is stranded (`shutdown_completes`): a missed notification is the only way
in which the shutdown gets stuck.
-/

set_option autoImplicit false

namespace VirtualAgent

open ExactFloat CText Outcome Transition

/-! ## A step of the virtual time thread -/

/-- A bound of the steps of the thread until it gives the mutex back. -/
def VtPc.turnsToRelease (t : InterfaceAttributeTable) : VtPc → ℕ
  | .disable => PassPc.idle.turnsLeft t + 7
  | .stop => PassPc.idle.turnsLeft t + 6
  | .getLatestTdf => PassPc.idle.turnsLeft t + 5
  | .setTdf _ => PassPc.idle.turnsLeft t + 4
  | .updateInterfaceAttribute pc => pc.turnsLeft t + 3
  | .enable => 3
  | .go => 2
  | .unlock | .wait => 1
  | _ => 0

/-- A bound of the steps of the thread until its end, once `isRunning` is false. -/
def VtPc.turnsToEnd (t : InterfaceAttributeTable) : VtPc → ℕ
  | .notStarted | .finished => 0
  | .test => 1
  | .goAtStart | .unlock => 2
  | .enableAtStart | .go => 3
  | .enable => 4
  | .updateInterfaceAttribute pc => pc.turnsLeft t + 4
  | .setTdf _ => PassPc.idle.turnsLeft t + 5
  | .getLatestTdf => PassPc.idle.turnsLeft t + 6
  | .stop => PassPc.idle.turnsLeft t + 7
  | .disable => PassPc.idle.turnsLeft t + 8
  | .blocked _ => PassPc.idle.turnsLeft t + 9
  | .wait => PassPc.idle.turnsLeft t + 10
  | .lock => PassPc.idle.turnsLeft t + 11

section Turns

variable {t next : InterfaceAttributeTable}

@[simp] theorem VtPc.notified_turnsToRelease (pc : VtPc) :
    pc.notified.turnsToRelease t = pc.turnsToRelease t := by
  cases pc <;> rfl

@[simp] theorem VtPc.notified_turnsToEnd (pc : VtPc) :
    pc.notified.turnsToEnd t = pc.turnsToEnd t := by
  cases pc <;> rfl

theorem VtPc.holdsMutex_of_turnsToRelease {pc : VtPc} (released : pc.turnsToRelease t = 0) :
    pc.holdsMutex = false := by
  cases pc with
  | notStarted | enableAtStart | goAtStart | test | lock | blocked _ | finished => rfl
  | _ => simp [VtPc.turnsToRelease] at released

theorem PassPc.turnsLeft_le (pc : PassPc) : pc.turnsLeft t ≤ PassPc.idle.turnsLeft t + 2 := by
  have before := KeyOrder.remaining_le_size (m := t.ifaceAttrMap)
  cases pc with
  | test it | erase ifaceName it =>
      have fewer := before it
      simp only [PassPc.turnsLeft]
      omega
  | rate ifaceName | delay ifaceName rate | change ifaceName rate delay | delete ifaceName =>
      have fewer : KeyOrder.following t.ifaceAttrMap ifaceName ≤ t.ifaceAttrMap.size :=
        KeyOrder.countKeys_le_size _
      simp only [PassPc.turnsLeft]
      omega
  | idle => exact Nat.le_add_right _ 2

theorem VtPc.turnsToRelease_le (pc : VtPc) :
    pc.turnsToRelease t ≤ 9 + 4 * t.ifaceAttrMap.size := by
  cases pc with
  | updateInterfaceAttribute pc =>
      have bound := pc.turnsLeft_le (t := t)
      simp only [VtPc.turnsToRelease, PassPc.turnsLeft] at bound ⊢
      omega
  | _ =>
      simp only [VtPc.turnsToRelease, PassPc.turnsLeft]
      omega

theorem VtPc.turnsToEnd_le (pc : VtPc) : pc.turnsToEnd t ≤ 13 + 4 * t.ifaceAttrMap.size := by
  cases pc with
  | updateInterfaceAttribute pc =>
      have bound := pc.turnsLeft_le (t := t)
      simp only [VtPc.turnsToEnd, PassPc.turnsLeft] at bound ⊢
      omega
  | _ =>
      simp only [VtPc.turnsToEnd, PassPc.turnsLeft]
      omega

/-- **A message adds at most four steps**, by an entry that the pass has still to come to. -/
theorem VtPc.turnsToEnd_exec_le {statement : Statement} {a after : Agent} {host : HostReading}
    {notified : Bool} (executed : statement.exec a host = .ok (after, notified)) (pc : VtPc) :
    pc.turnsToEnd after.ifaceAttrTable ≤ pc.turnsToEnd a.ifaceAttrTable + 4 := by
  have more : ∀ place : PassPc,
      place.turnsLeft after.ifaceAttrTable ≤ place.turnsLeft a.ifaceAttrTable + 4 := by
    intro place
    rcases exec_ifaceAttrTable executed with same | ⟨name, entry, same⟩
    · rw [same]
      exact Nat.le_add_right _ 4
    · rw [same]
      exact turnsLeft_insert_le place name (some entry)
  have whole := more .idle
  cases pc with
  | updateInterfaceAttribute place =>
      have here := more place
      simp only [VtPc.turnsToEnd]
      omega
  | _ =>
      simp only [VtPc.turnsToEnd]
      omega

/-- A statement of the pass leaves fewer steps, of the pass or of the cycle after it. -/
theorem turns_of_passStatement {latestTdf : LongDouble} {pc pc' : PassPc}
    {commands : List TcCommand}
    (performed : passStatement latestTdf t pc = some (pc', next, commands)) :
    (VtPc.afterPass pc').turnsToRelease next + 1 ≤ pc.turnsLeft t + 3 ∧
      (VtPc.afterPass pc').turnsToEnd next + 1 ≤ pc.turnsLeft t + 4 := by
  rcases VtPc.afterPass_cases pc' with ⟨rfl, ended⟩ | ⟨underway, goesOn⟩
  · have some_left : 1 ≤ pc.turnsLeft t := by
      cases passStatement_effect performed with
      | ends => exact Nat.le_add_left 1 _
    rw [ended]
    simp only [VtPc.turnsToRelease, VtPc.turnsToEnd]
    omega
  · have fewer := turnsLeft_of_passStatement underway performed
    rw [goesOn]
    simp only [VtPc.turnsToRelease, VtPc.turnsToEnd]
    omega

end Turns

/-- **The places the thread goes through**, and what it leaves alone. -/
structure VtTurn (w next : World) : Prop where
  isRunning : next.isRunning = w.isRunning
  mainPc : next.mainPc = w.mainPc
  monitorPc : next.monitorPc = w.monitorPc
  io : next.io = w.io
  started : next.vtPc ≠ .notStarted
  unfinished : w.vtPc ≠ .finished
  toRelease : 0 < w.vtPc.turnsToRelease w.agent.ifaceAttrTable →
    next.vtPc.turnsToRelease next.agent.ifaceAttrTable + 1 ≤
      w.vtPc.turnsToRelease w.agent.ifaceAttrTable
  toEnd : w.isRunning = false →
    next.vtPc.turnsToEnd next.agent.ifaceAttrTable + 1 ≤
      w.vtPc.turnsToEnd w.agent.ifaceAttrTable

theorem virtualTime_turn {w next : World} (stepped : w.virtualTime = some next) :
    VtTurn w next := by
  cases virtualTime_effect stepped with
  | test at_pc =>
      refine ⟨rfl, rfl, rfl, rfl, ?_, by simp [at_pc], by simp [at_pc, VtPc.turnsToRelease], ?_⟩
      · cases w.isRunning <;> simp
      · intro stopping
        simp [stopping, at_pc, VtPc.turnsToEnd]
  | updateInterfaceAttribute pc pc' ifaceAttrTable commands at_pc performed =>
      have ⟨toRelease, toEnd⟩ := turns_of_passStatement performed
      refine ⟨rfl, rfl, rfl, rfl, ?_, by simp [at_pc], fun _ => ?_, fun _ => ?_⟩
      · cases pc' <;> simp [VtPc.afterPass]
      · rw [at_pc]
        exact toRelease
      · rw [at_pc]
        exact toEnd
  | setTdf newTdf at_pc =>
      constructor <;>
        simp [at_pc, VtPc.turnsToRelease, VtPc.turnsToEnd, MemoryDatabase.setTdf]
  | enableAtStart at_pc | goAtStart at_pc | lock at_pc | wait at_pc | woken at_pc | disable at_pc
  | stop at_pc | getLatestTdf at_pc | enable at_pc | go at_pc | unlock at_pc =>
      constructor <;>
        simp [at_pc, VtPc.turnsToRelease, VtPc.turnsToEnd, Agent.cpuDisableTicks]

/-! ## The mutex is given back -/

/-- The steps of the virtual time thread until it gives the mutex back. -/
def World.turnsToRelease (w : World) : ℕ := w.vtPc.turnsToRelease w.agent.ifaceAttrTable

/-- A message waits with its next statement, and nothing faults. -/
structure Waits (statement : Statement) (rest : List Statement) (w : World) : Prop where
  sound : w.Sound
  io_eq : w.io = statement :: rest

/-- **Nobody but the virtual time thread moves it**, and it moves towards the release,
while a message waits. -/
theorem Waits.step {statement : Statement} {rest : List Statement} {w next : World}
    {action : ThreadAction} (waits : Waits statement rest w) (other : action ≠ .message)
    (stepped : threadStep w action = some next) (held : 0 < w.turnsToRelease) :
    Waits statement rest next ∧
      next.turnsToRelease + (decide (action = .virtualTime)).toNat ≤ w.turnsToRelease := by
  have sound := waits.sound.step stepped
  have busy : w.io ≠ [] := by
    rw [waits.io_eq]
    exact List.cons_ne_nil _ _
  cases threadStep_effect stepped with
  | idle agent_eq vtPc_eq io_eq _ _ noVirtualTime =>
      refine ⟨⟨sound, io_eq.trans waits.io_eq⟩, ?_⟩
      simp [World.turnsToRelease, noVirtualTime, vtPc_eq, agent_eq]
  | receivedUdp msg empty => exact absurd empty busy
  | receivedTcp msg empty => exact absurd empty busy
  | message statement rest agent notified _ _ _ => exact absurd rfl other
  | virtualTime stepped =>
      have turn := virtualTime_turn stepped
      refine ⟨⟨sound, turn.io.trans waits.io_eq⟩, ?_⟩
      simpa [World.turnsToRelease] using turn.toRelease held
  | started _ => exact ⟨⟨sound, waits.io_eq⟩, by simp [World.turnsToRelease, VtPc.turnsToRelease]⟩
  | notified _ => exact ⟨⟨sound, waits.io_eq⟩, by simp [World.turnsToRelease]⟩

/-- **A message that needs the mutex gets it.** In every reachable state the virtual time
thread can go on if it holds the mutex. If the next statement of a message needs the
mutex, then in every run from there in which the virtual time thread takes nine steps and
four for each entry of the interface table, there is a point at which the statement can be
performed, unless it was. -/
theorem mutex_is_released (created host : HostReading) (actions : List ThreadAction) (w : World)
    (ran : run threadStep (World.initial created host) actions = some w) :
    (w.vtPc.holdsMutex = true → ∃ next, threadStep w .virtualTime = some next) ∧
      ∀ statement rest, w.io = statement :: rest → statement.locksTdfTable = true →
        ∀ later next, run threadStep w later = some next → .message ∉ later →
          9 + 4 * w.agent.ifaceAttrTable.ifaceAttrMap.size ≤ later.countP (· = .virtualTime) →
          ∃ before after middle, later = before ++ after ∧
            run threadStep w before = some middle ∧ middle.io = statement :: rest ∧
            ∃ performed, threadStep middle .message = some performed := by
  have sound := sound_of_threads ran
  constructor
  · intro holds
    refine exists_virtualTime sound ?_ ?_ ?_ <;> intro at_pc <;> rw [at_pc] at holds <;>
      cases holds
  · intro statement rest io_eq locks later next ranLater silent enough
    have others : Meets threadStep (fun _ action => action ≠ .message) w later :=
      meets_of_forall (fun action member _ => ne_of_mem_of_not_mem member silent) w
    obtain ⟨before, after, middle, rfl, ranBefore, waits, released⟩ :=
      exists_zero_of_countP (· = .virtualTime) (Waits statement rest)
        World.turnsToRelease
        (fun _ _ _ waits other stepped held => waits.step other stepped held)
        ⟨sound, io_eq⟩ others ranLater ((VtPc.turnsToRelease_le _).trans enough)
    refine ⟨before, after, middle, rfl, ranBefore, waits.io_eq, ?_⟩
    have named : statement.NamesEntry middle.agent := by
      cases statement with
      | tdfTableSet hostname tdf => trivial
      | enforceTdf tdf => trivial
      | _ => cases locks
    obtain ⟨⟨agent, notified⟩, executed⟩ :=
      (exec_ok waits.sound.nonNull middle.host statement).mpr named
    exact ⟨_, message_eq_some.mpr ⟨statement, rest, agent, notified, waits.io_eq,
      by simp [VtPc.holdsMutex_of_turnsToRelease released], executed, rfl⟩⟩

/-- An interface is in the table, and a second factor comes while the thread is at the
beginning of an iteration. -/
def secondFactor : List ThreadAction :=
  startUp ++ receive (ascii "1|eth0|1000|5") ++ [.message] ++ receive (ascii "12") ++
    [.receiveUdp (ascii "10|a|2"), .message] ++ turns 1 ++ [.receiveUdp (ascii "10|b|3")]

theorem mutex_is_released_waiting :
    ∃ w, run threadStep (World.initial ⟨0, 0⟩ ⟨1, 1⟩) secondFactor = some w ∧
      threadStep w .message = none ∧
      ∃ before after middle, turns 13 = before ++ after ∧
        run threadStep w before = some middle ∧
        middle.io = [.tdfTableSet (ascii "b") (.ofRat 3)] ∧
        ∃ performed, threadStep middle .message = some performed := by
  obtain ⟨w, ran, waiting, io_eq, one, goesOn⟩ :
      ∃ w, run threadStep (World.initial ⟨0, 0⟩ ⟨1, 1⟩) secondFactor = some w ∧
        threadStep w .message = none ∧ w.io = [.tdfTableSet (ascii "b") (.ofRat 3)] ∧
        w.agent.ifaceAttrTable.ifaceAttrMap.size = 1 ∧
        (run threadStep w (turns 13)).any (fun _ => decide True) = true := by
    apply exists_of_any
    decide +kernel
  obtain ⟨next, ranLater, -⟩ := exists_of_any goesOn
  refine ⟨w, ran, waiting, ?_⟩
  exact (mutex_is_released ⟨0, 0⟩ ⟨1, 1⟩ _ w ran).2 _ _ io_eq rfl (turns 13) next ranLater
    (by decide) (by rw [one]; decide)

/-! ## The shutdown ends -/

/-- The steps of the main thread, and of the threads it still starts, once `isRunning` is
false. -/
def MainPc.turnsToEnd : MainPc → ℕ
  | .startVirtualTime => 9
  | .startCpuMonitor => 5
  | .joinCpuMonitor => 3
  | .notify => 2
  | .joinVirtualTime => 1
  | .stopped => 0

def MonitorPc.turnsToEnd : MonitorPc → ℕ
  | .running => 1
  | _ => 0

/-- The steps left to the three threads. -/
def World.turnsToEnd (w : World) : ℕ :=
  w.mainPc.turnsToEnd + w.vtPc.turnsToEnd w.agent.ifaceAttrTable + w.monitorPc.turnsToEnd

/-- A step of one of the three threads. -/
def ThreadAction.isOwn : ThreadAction → Bool
  | .virtualTime | .main | .monitor => true
  | _ => false

/-- The main thread does not clear the flag, nor set it. -/
theorem main_isRunning {w next : World} (stepped : w.main = some next) :
    next.isRunning = w.isRunning := by
  cases main_effect stepped with
  | _ => rfl

/-- What the threads have behind them when the main thread is past a place. -/
structure JoinOrder (w : World) : Prop where
  unstarted : w.Unstarted
  vtStarted : w.mainPc ≠ .startVirtualTime → w.vtPc ≠ .notStarted
  monitorStarted : w.mainPc = .joinCpuMonitor → w.monitorPc ≠ .notStarted
  monitorJoined : w.mainPc.isPastMonitor = true → w.monitorPc = .finished
  vtJoined : w.mainPc = .stopped → w.vtPc = .finished

namespace JoinOrder

variable {w next : World}

theorem initial (created host : HostReading) : JoinOrder (World.initial created host) where
  unstarted := unstarted_initial created host
  vtStarted := fun past => absurd rfl past
  monitorStarted := by simp [World.initial]
  monitorJoined := by simp [World.initial, MainPc.isPastMonitor]
  vtJoined := by simp [World.initial]

/-- Steps that leave the main thread and the monitor alone. -/
theorem congr (order : JoinOrder w) (mainPc_eq : next.mainPc = w.mainPc)
    (monitorPc_eq : next.monitorPc = w.monitorPc) (unstarted : next.Unstarted)
    (started : w.vtPc ≠ .notStarted → next.vtPc ≠ .notStarted)
    (finished : w.vtPc = .finished → next.vtPc = .finished) : JoinOrder next where
  unstarted := unstarted
  vtStarted := by
    rw [mainPc_eq]
    exact fun past => started (order.vtStarted past)
  monitorStarted := by
    rw [mainPc_eq, monitorPc_eq]
    exact order.monitorStarted
  monitorJoined := by
    rw [mainPc_eq, monitorPc_eq]
    exact order.monitorJoined
  vtJoined := by
    rw [mainPc_eq]
    exact fun stopped => finished (order.vtJoined stopped)

/-- A notification neither starts the virtual time thread nor ends it. -/
theorem notified (order : JoinOrder w) (mainPc_eq : next.mainPc = w.mainPc)
    (monitorPc_eq : next.monitorPc = w.monitorPc)
    (vtPc_eq : next.vtPc = w.vtPc ∨ next.vtPc = w.vtPc.notified) : JoinOrder next := by
  have same : (w.vtPc = .notStarted ↔ next.vtPc = .notStarted) ∧
      (w.vtPc = .finished → next.vtPc = .finished) := by
    rcases vtPc_eq with same | same
    · rw [same]
      exact ⟨Iff.rfl, id⟩
    · rw [same]
      cases w.vtPc <;> simp [VtPc.notified]
  refine order.congr mainPc_eq monitorPc_eq ?_ (mt same.1.mpr) same.2
  intro start
  exact same.1.mp (order.unstarted (mainPc_eq ▸ start))

/-- **The main thread joins what has ended**, and each of its steps leaves fewer. -/
theorem main (order : JoinOrder w) (stepped : w.main = some next) :
    JoinOrder next ∧ next.turnsToEnd + 1 ≤ w.turnsToEnd := by
  cases main_effect stepped with
  | startVirtualTime at_main =>
      refine ⟨⟨by simp [World.Unstarted], by simp, by simp, by simp [MainPc.isPastMonitor],
        by simp⟩, ?_⟩
      simp only [World.turnsToEnd, at_main, MainPc.turnsToEnd, order.unstarted at_main,
        VtPc.turnsToEnd]
      omega
  | startCpuMonitor at_main =>
      have started := order.vtStarted (by simp [at_main])
      refine ⟨⟨by simp [World.Unstarted], fun _ => started, by simp,
        by simp [MainPc.isPastMonitor], by simp⟩, ?_⟩
      simp only [World.turnsToEnd, at_main, MainPc.turnsToEnd, MonitorPc.turnsToEnd]
      omega
  | joinCpuMonitor at_main finished =>
      have started := order.vtStarted (by simp [at_main])
      refine ⟨⟨by simp [World.Unstarted], fun _ => started, by simp, fun _ => finished,
        by simp⟩, ?_⟩
      simp only [World.turnsToEnd, at_main, MainPc.turnsToEnd]
      omega
  | notify at_main =>
      have started := order.vtStarted (by simp [at_main])
      have joined := order.monitorJoined (by simp [at_main, MainPc.isPastMonitor])
      refine ⟨⟨by simp [World.Unstarted], fun _ => ?_, by simp, fun _ => joined, by simp⟩, ?_⟩
      · cases at_pc : w.vtPc <;> simp_all [VtPc.notified]
      · simp only [World.turnsToEnd, at_main, MainPc.turnsToEnd, VtPc.notified_turnsToEnd]
        omega
  | joinVirtualTime at_main finished =>
      have started := order.vtStarted (by simp [at_main])
      have joined := order.monitorJoined (by simp [at_main, MainPc.isPastMonitor])
      refine ⟨⟨by simp [World.Unstarted], fun _ => started, by simp, fun _ => joined,
        fun _ => finished⟩, ?_⟩
      simp only [World.turnsToEnd, at_main, MainPc.turnsToEnd]
      omega

/-- **Each step keeps the order of the joins**, and after a SIGTERM those of the three
threads leave fewer, to which a message adds four at most. -/
theorem step {action : ThreadAction} (order : JoinOrder w)
    (stepped : threadStep w action = some next) :
    JoinOrder next ∧ (w.isRunning = false →
      next.isRunning = false ∧ next.turnsToEnd + action.isOwn.toNat ≤
        w.turnsToEnd + 4 * (decide (action = .message)).toNat) := by
  cases action with
  | advance elapsed ticks =>
      cases stepped
      exact ⟨order.notified rfl rfl (Or.inl rfl), fun stopping => ⟨stopping, le_rfl⟩⟩
  | receiveUdp msg | receiveTcp msg =>
      obtain ⟨-, rfl⟩ := Option.ite_some_none_eq_some.mp stepped
      exact ⟨order.notified rfl rfl (Or.inl rfl), fun stopping => ⟨stopping, le_rfl⟩⟩
  | message =>
      obtain ⟨statement, rest, agent, notified, -, -, executed, rfl⟩ := message_eq_some.mp stepped
      have bound := VtPc.turnsToEnd_exec_le executed w.vtPc
      cases notified with
      | false =>
          refine ⟨order.notified rfl rfl (Or.inl rfl), fun stopping => ⟨stopping, ?_⟩⟩
          simp [World.turnsToEnd, ThreadAction.isOwn]
          omega
      | true =>
          refine ⟨order.notified rfl rfl (Or.inr rfl), fun stopping => ⟨stopping, ?_⟩⟩
          simp [World.turnsToEnd, ThreadAction.isOwn]
          omega
  | virtualTime =>
      have turn := virtualTime_turn stepped
      refine ⟨order.congr turn.mainPc turn.monitorPc (order.unstarted.step stepped)
        (fun _ => turn.started) (fun ended => absurd ended turn.unfinished), fun stopping => ?_⟩
      have fewer := turn.toEnd stopping
      refine ⟨turn.isRunning.trans stopping, ?_⟩
      simp only [World.turnsToEnd, turn.mainPc, turn.monitorPc, ThreadAction.isOwn,
        Bool.toNat_true]
      omega
  | main =>
      obtain ⟨kept, fewer⟩ := order.main stepped
      exact ⟨kept, fun stopping => ⟨(main_isRunning stepped).trans stopping, fewer⟩⟩
  | monitor =>
      obtain ⟨running, rfl⟩ := Option.ite_some_none_eq_some.mp stepped
      cases is_running : w.isRunning with
      | true => exact ⟨order, fun stopping => nomatch stopping⟩
      | false =>
          refine ⟨⟨order.unstarted, order.vtStarted, by simp, fun _ => rfl, order.vtJoined⟩,
            fun _ => ⟨rfl, ?_⟩⟩
          simp [World.turnsToEnd, running, MonitorPc.turnsToEnd, ThreadAction.isOwn]
  | sigterm =>
      cases stepped
      exact ⟨order.notified rfl rfl (Or.inl rfl), fun _ => ⟨rfl, le_rfl⟩⟩

theorem turnsToEnd_le (order : JoinOrder w) :
    w.turnsToEnd ≤ 19 + 4 * w.agent.ifaceAttrTable.ifaceAttrMap.size := by
  have vtPc := w.vtPc.turnsToEnd_le (t := w.agent.ifaceAttrTable)
  have monitorPc : w.monitorPc.turnsToEnd ≤ 1 := by
    cases w.monitorPc <;> simp [MonitorPc.turnsToEnd]
  unfold World.turnsToEnd
  cases at_main : w.mainPc with
  | startVirtualTime =>
      have unstarted : w.vtPc.turnsToEnd w.agent.ifaceAttrTable = 0 := by
        rw [order.unstarted at_main]
        rfl
      simp only [MainPc.turnsToEnd]
      omega
  | _ =>
      simp only [MainPc.turnsToEnd]
      omega

/-- **When no thread can go on**, all have ended or the virtual time thread is stranded. -/
theorem ended_or_stranded (order : JoinOrder w) (sound : w.Sound)
    (stopping : w.isRunning = false)
    (still : ∀ action, ThreadAction.isOwn action = true → threadStep w action = none) :
    (w.mainPc = .stopped ∧ w.vtPc = .finished ∧ w.monitorPc = .finished) ∨ w.Stranded := by
  have main : w.main = none := still .main rfl
  cases at_main : w.mainPc with
  | startVirtualTime | startCpuMonitor | notify => simp [World.main, at_main] at main
  | joinCpuMonitor =>
      have monitor : threadStep w .monitor = none := still .monitor rfl
      have started := order.monitorStarted at_main
      cases at_monitor : w.monitorPc with
      | notStarted => exact absurd at_monitor started
      | running => simp [threadStep, at_monitor] at monitor
      | finished => simp [World.main, at_main, at_monitor] at main
  | joinVirtualTime =>
      refine Or.inr ⟨stopping, at_main, ?_⟩
      have unfinished : w.vtPc ≠ .finished := by
        intro ended
        simp [World.main, at_main, ended] at main
      by_contra awake
      obtain ⟨next, stepped⟩ :=
        exists_virtualTime sound (order.vtStarted (by simp [at_main])) unfinished awake
      have stuck : w.virtualTime = none := still .virtualTime rfl
      rw [stuck] at stepped
      cases stepped
  | stopped =>
      exact Or.inl ⟨rfl, order.vtJoined at_main,
        order.monitorJoined (by simp [at_main, MainPc.isPastMonitor])⟩

end JoinOrder

/-- **The shutdown comes to an end.** From any reachable state in which a SIGTERM has come,
the three threads take at most nineteen steps, and four for each entry of the interface table
and for each statement of messages performed between them. When none of them can take
another, they have all ended, or the virtual time thread is stranded. -/
theorem shutdown_completes (created host : HostReading) (actions : List ThreadAction) (w : World)
    (ran : run threadStep (World.initial created host) actions = some w)
    (stopping : w.isRunning = false) (later : List ThreadAction) (next : World)
    (ranLater : run threadStep w later = some next) :
    later.countP ThreadAction.isOwn ≤
        19 + 4 * (w.agent.ifaceAttrTable.ifaceAttrMap.size + later.countP (· = .message)) ∧
      ((∀ action, ThreadAction.isOwn action = true → threadStep next action = none) →
        (next.mainPc = .stopped ∧ next.vtPc = .finished ∧ next.monitorPc = .finished) ∨
          next.Stranded) := by
  have order : JoinOrder w := run_invariant JoinOrder
    (fun _ _ _ order stepped => (order.step stepped).1) (.initial created host) ran
  have free : Meets threadStep (fun _ _ => True) w later := meets_of_forall (fun _ _ _ => trivial) w
  constructor
  · have bound := countP_le_of_meets ThreadAction.isOwn (· = .message) 4
      (fun w => JoinOrder w ∧ w.isRunning = false) World.turnsToEnd ?_ ⟨order, stopping⟩ free
      ranLater
    · have whole := order.turnsToEnd_le
      omega
    · rintro s action after ⟨kept, stopped⟩ - stepped
      obtain ⟨keptAfter, fewer⟩ := kept.step stepped
      exact ⟨⟨keptAfter, (fewer stopped).1⟩, (fewer stopped).2⟩
  · obtain ⟨keptNext, stoppedNext, sound⟩ :
        JoinOrder next ∧ next.isRunning = false ∧ next.Sound := by
      refine run_invariant
        (fun w => JoinOrder w ∧ w.isRunning = false ∧ w.Sound) ?_
        ⟨order, stopping, sound_of_threads ran⟩ ranLater
      rintro s action after ⟨kept, stopped, sound⟩ stepped
      obtain ⟨keptAfter, fewer⟩ := kept.step stepped
      exact ⟨keptAfter, (fewer stopped).1, sound.step stepped⟩
    exact keptNext.ended_or_stranded sound stoppedNext

/-- A SIGTERM comes during the wait, and all threads end. -/
theorem shutdown_completes_in_wait :
    ∃ w next, run threadStep (World.initial ⟨0, 0⟩ ⟨1, 1⟩) (startUp ++ [.main, .sigterm]) =
        some w ∧
      run threadStep w ([.monitor, .main, .main] ++ turns 11 ++ [.main]) = some next ∧
      ((next.mainPc = .stopped ∧ next.vtPc = .finished ∧ next.monitorPc = .finished) ∨
        next.Stranded) := by
  obtain ⟨w, ran, stopping, goesOn⟩ :
      ∃ w, run threadStep (World.initial ⟨0, 0⟩ ⟨1, 1⟩) (startUp ++ [.main, .sigterm]) =
          some w ∧ w.isRunning = false ∧
        (run threadStep w ([.monitor, .main, .main] ++ turns 11 ++ [.main])).any
          (fun next => decide (threadStep next .main = none ∧
            threadStep next .virtualTime = none ∧ threadStep next .monitor = none)) = true := by
    apply exists_of_any
    decide +kernel
  obtain ⟨next, ranLater, main, virtualTime, monitor⟩ := exists_of_any goesOn
  refine ⟨w, next, ran, ranLater, ?_⟩
  refine (shutdown_completes ⟨0, 0⟩ ⟨1, 1⟩ _ w ran stopping _ next ranLater).2 ?_
  intro action own
  cases action with
  | main => exact main
  | virtualTime => exact virtualTime
  | monitor => exact monitor
  | _ => cases own

end VirtualAgent
