import VirtualAgent.SharedMemory
import VirtualAgent.Threads

/-!
# An agent that is started again

An agent that is killed leaves its shared objects behind, and the next one finds them as
they are. `timers_state_create` sets all fields of the clock but one, and nobody sets the
semaphore before the virtual time thread starts.

`restart_goes_unnoticed` says that this makes no difference. Whatever has happened to the
objects before, an agent that creates them runs, in every interleaving of its threads, as
one that finds nothing there: it has the same factors, tables and commands, its clock shows
the same, and from the start of its virtual time thread on the semaphore has the same value.
Guests that have found what is under the keys then have the same objects as the new agent.
-/

set_option autoImplicit false

namespace VirtualAgent

open ExactFloat Transition KeyedObjects Outcome

/-! ## What is left over -/

/-- The clock with another restart reading of the tick counter. -/
def TimersState.withRestart (ts : TimersState) (restart : ℤ) : TimersState :=
  { ts with cpuTicksRestart := restart }

/-- The agent with what an earlier one has left. -/
def Agent.withLeftovers (a : Agent) (restart : ℤ) (gostop : Gostop) : Agent :=
  { a with timersState := a.timersState.withRestart restart, gostop }

/-- The threads with what an earlier agent has left. -/
def World.withLeftovers (w : World) (restart : ℤ) (gostop : Gostop) : World :=
  { w with agent := w.agent.withLeftovers restart gostop }

/-- The virtual time thread has let the virtual hosts go. -/
def VtPc.hasStarted : VtPc → Bool
  | .notStarted | .enableAtStart | .goAtStart => false
  | _ => true

/-- What is left is not seen: while the clock runs, and when the thread has started, there
is nothing left. -/
structure World.Unseen (w : World) (restart : ℤ) (gostop : Gostop) : Prop where
  restart : w.agent.timersState.cpuTicksEnabled = true →
    restart = w.agent.timersState.cpuTicksRestart
  gostop : w.vtPc.hasStarted = true → gostop = w.agent.gostop

/-! ## The clock -/

namespace TimersState

variable {ts : TimersState} {restart : ℤ}

theorem withRestart_self (ts : TimersState) : ts.withRestart ts.cpuTicksRestart = ts := rfl

/-- Reading the counter leaves its restart reading. -/
theorem cpuGetTicks_restart (ts : TimersState) (tdf : LongDouble) (host : HostReading) :
    (ts.cpuGetTicks tdf host).2.cpuTicksRestart = ts.cpuTicksRestart := by
  unfold cpuGetTicks
  cases ts.cpuTicksEnabled with
  | false => rfl
  | true =>
      by_cases back : ts.cpuTicksPrev > host.ticks
      · simp [back]
      · simp [back]

/-- A restart reading is not used while the clock stands. -/
theorem cpuGetTicks_withRestart (unseen : ts.cpuTicksEnabled = true → restart = ts.cpuTicksRestart)
    (tdf : LongDouble) (host : HostReading) :
    ((ts.withRestart restart).cpuGetTicks tdf host).1 = (ts.cpuGetTicks tdf host).1 := by
  cases enabled : ts.cpuTicksEnabled with
  | true => rw [unseen enabled, withRestart_self]
  | false => simp [cpuGetTicks, withRestart, enabled]

theorem cpuEnableTicks_withRestart
    (unseen : ts.cpuTicksEnabled = true → restart = ts.cpuTicksRestart) (host : HostReading) :
    (ts.withRestart restart).cpuEnableTicks host = ts.cpuEnableTicks host := by
  cases enabled : ts.cpuTicksEnabled with
  | true => rw [unseen enabled, withRestart_self]
  | false => simp [cpuEnableTicks, withRestart, enabled]

theorem cpuDisableTicks_withRestart
    (unseen : ts.cpuTicksEnabled = true → restart = ts.cpuTicksRestart) (tdf : LongDouble)
    (host : HostReading) :
    (ts.withRestart restart).cpuDisableTicks tdf host =
      (ts.cpuDisableTicks tdf host).withRestart restart := by
  cases enabled : ts.cpuTicksEnabled with
  | true =>
      have same : (ts.cpuDisableTicks tdf host).cpuTicksRestart = ts.cpuTicksRestart := by
        simp only [cpuDisableTicks, enabled, if_true]
        exact ts.cpuGetTicks_restart tdf host
      rw [unseen enabled, withRestart_self, ← same, withRestart_self]
  | false => simp [cpuDisableTicks, withRestart, enabled]

end TimersState

/-! ## The statements -/

section Statements

variable {a : Agent} {restart : ℤ}

/-- A statement does the same, whatever is left over, and what is left stays unseen. -/
theorem exec_withLeftovers (gostop : Gostop)
    (unseen : a.timersState.cpuTicksEnabled = true → restart = a.timersState.cpuTicksRestart)
    (host : HostReading) (statement : Statement) :
    ∃ restart' gostop', statement.exec (a.withLeftovers restart gostop) host =
        (statement.exec a host).map (fun done => (done.1.withLeftovers restart' gostop', done.2)) ∧
      ∀ next notified, statement.exec a host = .ok (next, notified) →
        (next.timersState.cpuTicksEnabled = true → restart' = next.timersState.cpuTicksRestart) ∧
          (gostop = a.gostop → gostop' = next.gostop) := by
  cases statement with
  | tdfTableSet hostname tdf =>
      refine ⟨restart, gostop, ?_, ?_⟩
      · change (a.tdfTable.set a.configuration.tdfChangeThreshold hostname tdf >>= _) = Except.map _
          (a.tdfTable.set a.configuration.tdfChangeThreshold hostname tdf >>= _)
        cases a.tdfTable.set a.configuration.tdfChangeThreshold hostname tdf with
        | error fault => rfl
        | ok set => rfl
      · intro next notified done
        obtain ⟨tdfTable, -, rfl⟩ := exec_tdfTableSet.mp done
        exact ⟨unseen, id⟩
  | setFlagKeep ifaceName flagKeep =>
      refine ⟨restart, gostop, ?_, ?_⟩
      · change (a.ifaceAttrTable.setFlagKeep ifaceName flagKeep >>= _) = Except.map _
          (a.ifaceAttrTable.setFlagKeep ifaceName flagKeep >>= _)
        cases a.ifaceAttrTable.setFlagKeep ifaceName flagKeep with
        | error fault => rfl
        | ok set => rfl
      · intro next notified done
        obtain ⟨ifaceAttrTable, -, rfl, -⟩ := exec_setFlagKeep.mp done
        exact ⟨unseen, id⟩
  | cpuEnableTicks =>
      refine ⟨(a.cpuEnableTicks host).timersState.cpuTicksRestart, gostop, ?_, ?_⟩
      · have same := TimersState.cpuEnableTicks_withRestart unseen host
        simp only [Statement.exec, Agent.withLeftovers, Agent.cpuEnableTicks, same]
        rfl
      · rintro next notified ⟨rfl⟩
        exact ⟨fun _ => rfl, id⟩
  | cpuDisableTicks =>
      refine ⟨restart, gostop, ?_, ?_⟩
      · have same := TimersState.cpuDisableTicks_withRestart unseen a.sharedTdf host
        simp only [Statement.exec, Agent.withLeftovers, Agent.cpuDisableTicks, same]
        rfl
      · rintro next notified ⟨rfl⟩
        refine ⟨fun enabled => ?_, id⟩
        simp [Agent.cpuDisableTicks] at enabled
  | semaphoreSetval value =>
      refine ⟨restart, value, rfl, ?_⟩
      rintro next notified ⟨rfl⟩
      exact ⟨unseen, fun _ => rfl⟩
  | _ =>
      refine ⟨restart, gostop, rfl, ?_⟩
      rintro next notified ⟨rfl⟩
      exact ⟨unseen, id⟩

end Statements

/-! ## The threads -/

/-- Two steps end alike: both cannot be taken, or they lead to states that differ in what is
left over. -/
def EndsAlike (result result' : Option World) : Prop :=
  (result = none ∧ result' = none) ∨ ∃ t restart gostop, result = some t ∧
    result' = some (t.withLeftovers restart gostop) ∧ t.Unseen restart gostop

theorem hasStarted_notified (pc : VtPc) : pc.notified.hasStarted = pc.hasStarted := by
  cases pc <;> rfl

section Threads

variable {w : World} {restart : ℤ} {gostop : Gostop}

/-- A step that leaves the clock and the semaphore alone, and does not start the thread. -/
theorem EndsAlike.same {t : World} (unseen : w.Unseen restart gostop)
    (timersState_eq : t.agent.timersState = w.agent.timersState)
    (gostop_eq : t.agent.gostop = w.agent.gostop)
    (started : t.vtPc.hasStarted = true → w.vtPc.hasStarted = true) :
    EndsAlike (some t) (some (t.withLeftovers restart gostop)) := by
  refine Or.inr ⟨t, restart, gostop, rfl, rfl, ?_, ?_⟩
  · rw [timersState_eq]
    exact unseen.restart
  · rw [gostop_eq]
    exact fun running => unseen.gostop (started running)

/-- A step that has to wait for something that is left alone. -/
theorem EndsAlike.ite {condition : Prop} [Decidable condition] {result result' : Option World}
    (alike : EndsAlike result result') :
    EndsAlike (if condition then result else none) (if condition then result' else none) := by
  split
  · exact alike
  · exact Or.inl ⟨rfl, rfl⟩

/-- A step of the virtual time thread. -/
theorem virtualTime_withLeftovers (unseen : w.Unseen restart gostop) :
    EndsAlike w.virtualTime (w.withLeftovers restart gostop).virtualTime := by
  have pc_eq : (w.withLeftovers restart gostop).vtPc = w.vtPc := rfl
  unfold World.virtualTime
  rw [pc_eq]
  cases at_pc : w.vtPc with
  | notStarted | finished => exact Or.inl ⟨rfl, rfl⟩
  | enableAtStart =>
      have same := TimersState.cpuEnableTicks_withRestart unseen.restart w.host
      refine Or.inr ⟨_, (w.agent.cpuEnableTicks w.host).timersState.cpuTicksRestart, gostop, rfl,
        ?_, fun _ => rfl, nofun⟩
      simp only [World.withLeftovers, Agent.withLeftovers, Agent.cpuEnableTicks, same]
      rfl
  | goAtStart => exact Or.inr ⟨_, restart, .semGo, rfl, rfl, unseen.restart, fun _ => rfl⟩
  | test | lock | wait | getLatestTdf | setTdf newTdf | unlock =>
      exact .same unseen rfl rfl fun _ => at_pc ▸ rfl
  | blocked woken =>
      cases woken with
      | false => exact Or.inl ⟨rfl, rfl⟩
      | true => exact .same unseen rfl rfl fun _ => at_pc ▸ rfl
  | disable =>
      have same := TimersState.cpuDisableTicks_withRestart unseen.restart w.agent.sharedTdf w.host
      refine Or.inr ⟨_, restart, gostop, rfl, ?_, fun enabled => ?_, fun _ =>
        unseen.gostop (at_pc ▸ rfl)⟩
      · simp only [World.withLeftovers, Agent.withLeftovers, Agent.cpuDisableTicks, same]
      · simp [Agent.cpuDisableTicks] at enabled
  | enable =>
      have same := TimersState.cpuEnableTicks_withRestart unseen.restart w.host
      refine Or.inr ⟨_, (w.agent.cpuEnableTicks w.host).timersState.cpuTicksRestart, gostop, rfl,
        ?_, fun _ => rfl, fun _ => unseen.gostop (at_pc ▸ rfl)⟩
      simp only [World.withLeftovers, Agent.withLeftovers, Agent.cpuEnableTicks, same]
      rfl
  | stop | go =>
      obtain rfl := unseen.gostop (at_pc ▸ rfl)
      simp only [Agent.semaphoreSetvalIfEnabled_eq]
      exact Or.inr ⟨_, restart, _, rfl, rfl, unseen.restart, fun _ => rfl⟩
  | updateInterfaceAttribute pc =>
      simp only [World.withLeftovers, Agent.withLeftovers]
      cases passStatement w.agent.tdfTable.latestTdf w.agent.ifaceAttrTable pc with
      | none => exact Or.inl ⟨rfl, rfl⟩
      | some performed =>
          exact Or.inr ⟨_, restart, gostop, rfl, rfl, unseen.restart, fun _ =>
            unseen.gostop (at_pc ▸ rfl)⟩

/-- A statement of the message under way. -/
theorem message_withLeftovers (unseen : w.Unseen restart gostop) :
    EndsAlike w.message (w.withLeftovers restart gostop).message := by
  have io_eq : (w.withLeftovers restart gostop).io = w.io := rfl
  unfold World.message
  rw [io_eq]
  cases w.io with
  | nil => exact Or.inl ⟨rfl, rfl⟩
  | cons statement rest =>
      dsimp only
      have pc_eq : (w.withLeftovers restart gostop).vtPc = w.vtPc := rfl
      rw [pc_eq]
      split
      · exact Or.inl ⟨rfl, rfl⟩
      · obtain ⟨restart', gostop', same, unseen'⟩ :=
          exec_withLeftovers gostop unseen.restart w.host statement
        have executed : statement.exec (w.withLeftovers restart gostop).agent
            (w.withLeftovers restart gostop).host = _ := same
        rw [executed]
        cases done : statement.exec w.agent w.host with
        | error fault => exact Or.inl ⟨rfl, rfl⟩
        | ok done' =>
            obtain ⟨next, notified⟩ := done'
            obtain ⟨restartUnseen, gostopUnseen⟩ := unseen' next notified done
            refine Or.inr ⟨_, restart', gostop', rfl, rfl, restartUnseen, ?_⟩
            intro started
            refine gostopUnseen (unseen.gostop ?_)
            cases notified with
            | false => exact started
            | true => exact hasStarted_notified w.vtPc ▸ started

/-- A step of the main thread. -/
theorem main_withLeftovers (unseen : w.Unseen restart gostop) :
    EndsAlike w.main (w.withLeftovers restart gostop).main := by
  have pc_eq : (w.withLeftovers restart gostop).mainPc = w.mainPc := rfl
  unfold World.main
  rw [pc_eq]
  cases w.mainPc with
  | startVirtualTime => exact .same unseen rfl rfl nofun
  | startCpuMonitor => exact .same unseen rfl rfl id
  | joinCpuMonitor => exact EndsAlike.ite (.same unseen rfl rfl id)
  | notify => exact .same unseen rfl rfl fun started => hasStarted_notified w.vtPc ▸ started
  | joinVirtualTime => exact EndsAlike.ite (.same unseen rfl rfl id)
  | stopped => exact Or.inl ⟨rfl, rfl⟩

/-- **A step does the same, whatever is left over**, and what is left stays unseen. -/
theorem step_withLeftovers (unseen : w.Unseen restart gostop) (action : ThreadAction) :
    EndsAlike (threadStep w action) (threadStep (w.withLeftovers restart gostop) action) := by
  cases action with
  | advance elapsed ticks => exact .same unseen rfl rfl id
  | receiveUdp msg => exact EndsAlike.ite (.same unseen rfl rfl id)
  | receiveTcp msg => exact EndsAlike.ite (.same unseen rfl rfl id)
  | message => exact message_withLeftovers unseen
  | virtualTime => exact virtualTime_withLeftovers unseen
  | main => exact main_withLeftovers unseen
  | monitor =>
      refine EndsAlike.ite ?_
      have running : (w.withLeftovers restart gostop).isRunning = w.isRunning := rfl
      rw [running]
      cases w.isRunning with
      | true => exact .same unseen rfl rfl id
      | false => exact .same unseen rfl rfl id
  | sigterm => exact .same unseen rfl rfl id

/-- **A run does the same, whatever is left over.** -/
theorem run_withLeftovers (unseen : w.Unseen restart gostop) (actions : List ThreadAction) :
    EndsAlike (run threadStep w actions)
      (run threadStep (w.withLeftovers restart gostop) actions) := by
  induction actions generalizing w restart gostop with
  | nil => exact Or.inr ⟨w, restart, gostop, rfl, rfl, unseen⟩
  | cons action rest ih =>
      rw [run, run]
      rcases step_withLeftovers unseen action with ⟨stuck, stuck'⟩ |
        ⟨t, restart', gostop', stepped, stepped', unseen'⟩
      · rw [stuck, stuck']
        exact Or.inl ⟨rfl, rfl⟩
      · rw [stepped, stepped']
        exact ih unseen'

end Threads

/-! ## What an agent finds -/

namespace Ipc

variable {ι : Type}

/-- What is under a key, or what a new object would have. -/
def content (s : Ipc ι) (key : IpcKey) : key.Content := (s.registry key).contentUnder key.fresh

/-- A process names the object under a key, which has some content. -/
structure Sees (s : Ipc ι) (p : ι) (process : IpcProcess) (key : IpcKey)
    (content : key.Content) : Prop where
  runs : s.processes p = some process
  content : ∃ id entry, process.object key = some id ∧
    (s.registry key).objects id = some entry ∧ entry.content = content

/-- A process has found the objects under some keys, those that were there and new ones. -/
structure Finds (s t : Ipc ι) (p : ι) (process process' : IpcProcess) (keys : List IpcKey) :
    Prop where
  runs : t.processes p = some process'
  sees : ∀ key ∈ keys, t.Sees p process' key (s.content key)
  shared : ∀ key ∈ keys, ∀ id, (s.registry key).current = some id → process'.object key = some id
  others : ∀ key ∉ keys, t.registry key = s.registry key ∧
    process'.ids key = process.ids key ∧ process'.attached key = process.attached key

namespace Finds

variable {s t u : Ipc ι} {p : ι} {process process' process'' : IpcProcess} {key : IpcKey}
  {keys : List IpcKey}

/-- Elsewhere a process names what it did. -/
theorem object_eq (finds : s.Finds t p process process' keys) (elsewhere : key ∉ keys) :
    process'.object key = process.object key := by
  simp only [IpcProcess.object, finds.others key elsewhere]

/-- Elsewhere a process sees what it did. -/
theorem seen (finds : s.Finds t p process process' keys) (elsewhere : key ∉ keys)
    {content : key.Content} (sees : s.Sees p process key content) :
    t.Sees p process' key content := by
  refine ⟨finds.runs, ?_⟩
  rw [finds.object_eq elsewhere, (finds.others key elsewhere).1]
  exact sees.content

/-- First the object under one key, then those under others. -/
theorem cons (first : s.Finds t p process process' [key])
    (rest : t.Finds u p process' process'' keys) (apart : key ∉ keys) :
    s.Finds u p process process'' (key :: keys) where
  runs := rest.runs
  sees := by
    intro other member
    by_cases same : other = key
    · subst same
      exact rest.seen apart (first.sees other (List.mem_singleton_self other))
    · have later : other ∈ keys := (List.mem_cons.mp member).resolve_left same
      have unchanged : t.content other = s.content other := by
        rw [content, content, (first.others other (by simpa using same)).1]
      exact unchanged ▸ rest.sees other later
  shared := by
    intro other member id under
    by_cases same : other = key
    · subst same
      rw [rest.object_eq apart]
      exact first.shared other (List.mem_singleton_self other) id under
    · have later : other ∈ keys := (List.mem_cons.mp member).resolve_left same
      refine rest.shared other later id ?_
      rw [(first.others other (by simpa using same)).1]
      exact under
  others := by
    intro other elsewhere
    rw [List.mem_cons, not_or] at elsewhere
    obtain ⟨registry, ids, attached⟩ := first.others other (by simpa using elsewhere.1)
    obtain ⟨registry', ids', attached'⟩ := rest.others other elsewhere.2
    exact ⟨registry'.trans registry, ids'.trans ids, attached'.trans attached⟩

end Finds

variable [DecidableEq ι] {s : Ipc ι} {p : ι} {process : IpcProcess} {key : IpcKey}

theorem update_update (process' process'' : IpcProcess)
    (registry registry' : Registry ι key.Content) :
    (s.update p process' key registry).update p process'' key registry' =
      s.update p process'' key registry' := by
  simp only [Ipc.update, Function.update_idem]

/-- The object under a key is found when the process names it. -/
theorem finds_update {process' : IpcProcess} {registry : Registry ι key.Content} {id : ℕ}
    {entry : Entry ι key.Content} (names : process'.object key = some id)
    (there : registry.objects id = some entry) (content_eq : entry.content = s.content key)
    (shared : ∀ id', (s.registry key).current = some id' → id = id')
    (others : ∀ other, other ≠ key → process'.ids other = process.ids other ∧
      process'.attached other = process.attached other) :
    s.Finds (s.update p process' key registry) p process process' [key] where
  runs := Function.update_self ..
  sees := by
    intro other member
    obtain rfl := List.mem_singleton.mp member
    have changed : (s.update p process' other registry).registry other = registry :=
      Function.update_self ..
    refine ⟨Function.update_self .., id, entry, names, ?_, content_eq⟩
    rw [changed]
    exact there
  shared := by
    intro other member id' under
    obtain rfl := List.mem_singleton.mp member
    rw [names, shared id' under]
  others := by
    intro other elsewhere
    have apart : other ≠ key := by simpa using elsewhere
    exact ⟨Function.update_of_ne apart _ _, others other apart⟩

/-- **A process finds an object**, and attaches it if it is a segment. -/
theorem exists_get (sound : s.Sound) (runs : s.processes p = some process)
    (free : process.attached key = none) :
    ∃ t process', run ipcStep s ((ipcGet true key).map (.call p)) = some t ∧
      s.Finds t p process process' [key] := by
  have shared : ∀ id, (s.registry key).current = some id →
      ((s.registry key).create key.fresh).1 = id := by
    intro id under
    rw [Registry.create_of_current under]
  obtain ⟨entry, there, content_eq⟩ := Registry.exists_create (sound.wellFormed key) key.fresh
  obtain ⟨found, found_eq⟩ : ∃ found, (s.registry key).create key.fresh = found := ⟨_, rfl⟩
  have got : ipcStep s (.call p (.get key true)) =
      some (s.update p (process.find key found.1) key found.2) := by
    simp [ipcStep, runs, Ipc.perform, found_eq]
  rw [found_eq] at shared there
  cases segment : key.isSegment with
  | false =>
      refine ⟨s.update p (process.find key found.1) key found.2, process.find key found.1, ?_,
        finds_update ?_ there content_eq shared fun other apart =>
          ⟨process.find_ids_of_ne apart _, rfl⟩⟩
      · simp only [ipcGet, segment, Bool.false_eq_true, if_false, List.map]
        exact run_cons_eq_some.mpr ⟨_, got, rfl⟩
      · simp [IpcProcess.object, segment]
  | true =>
      have attached : ipcStep (s.update p (process.find key found.1) key found.2)
          (.call p (.attach key)) = some (s.update p
            ((process.find key found.1).setAttached key (some found.1)) key
            (found.2.attach p found.1)) := by
        rw [← update_update (process.find key found.1) _ found.2 (found.2.attach p found.1)]
        simp [ipcStep, Ipc.update, Ipc.perform, segment, free, there]
      refine ⟨s.update p ((process.find key found.1).setAttached key (some found.1)) key
        (found.2.attach p found.1), (process.find key found.1).setAttached key (some found.1), ?_,
        finds_update ?_ (Registry.objects_attach there) content_eq shared fun other apart =>
          ⟨process.find_ids_of_ne apart _,
            (process.find key found.1).setAttached_of_ne apart _⟩⟩
      · simp only [ipcGet, segment, if_true, List.map]
        exact run_cons_eq_some.mpr ⟨_, got, run_cons_eq_some.mpr ⟨_, attached, rfl⟩⟩
      · simp [IpcProcess.object, segment]

/-- **A process finds several objects**, one after the other. -/
theorem exists_gets (sound : s.Sound) (runs : s.processes p = some process) (keys : List IpcKey)
    (distinct : keys.Nodup) (free : ∀ key ∈ keys, process.attached key = none) :
    ∃ t process', run ipcStep s ((keys.flatMap (ipcGet true)).map (.call p)) = some t ∧
      t.Sound ∧ s.Finds t p process process' keys := by
  induction keys generalizing s process with
  | nil => exact ⟨s, process, rfl, sound, runs, nofun, nofun, fun _ _ => ⟨rfl, rfl, rfl⟩⟩
  | cons key rest ih =>
      obtain ⟨apart, distinct⟩ := List.nodup_cons.mp distinct
      obtain ⟨middle, process', ran, first⟩ :=
        exists_get sound runs (free key (List.mem_cons_self ..))
      obtain ⟨t, process'', ran', sound', finds⟩ := by
        refine ih (sound.of_run ran) first.runs distinct fun other member => ?_
        have different : other ∉ [key] := by
          rintro same
          exact apart (List.mem_singleton.mp same ▸ member)
        rw [(first.others other different).2.2]
        exact free other (List.mem_cons_of_mem _ member)
      refine ⟨t, process'', ?_, sound', first.cons finds apart⟩
      rw [List.flatMap_cons, List.map_append]
      exact run_append_eq_some.mpr ⟨middle, ran, ran'⟩

/-! ## What an agent stores -/

/-- A store changes the content that a process sees, and nothing else that it sees. -/
theorem Sees.store {content : key.Content} (sees : s.Sees p process key content)
    (sound : s.Sound) (f : key.Content → key.Content) :
    ∃ t, ipcStep s (.call p (.store key f)) = some t ∧ t.Sees p process key (f content) ∧
      ∀ (other : IpcKey) (content' : other.Content), other ≠ key →
        s.Sees p process other content' → t.Sees p process other content' := by
  obtain ⟨runs, id, entry, names, found, rfl⟩ := sees
  refine ⟨s.update p process key ((s.registry key).store id f), ?_, ?_, ?_⟩
  · simp [ipcStep, runs, Ipc.perform, names, found]
  · have stored : (s.update p process key ((s.registry key).store id f)).registry key =
        (s.registry key).store id f := Function.update_self ..
    refine ⟨Function.update_self .., id, { entry with content := f entry.content }, names, ?_, rfl⟩
    rw [stored]
    exact Registry.objects_store (sound.wellFormed key) found f
  · intro other content' different sees
    have stays : (s.update p process key ((s.registry key).store id f)).registry other =
        s.registry other := Function.update_of_ne different _ _
    refine ⟨Function.update_self .., ?_⟩
    rw [stays]
    exact sees.content

/-- Several stores, in order. -/
theorem Sees.stores {content : key.Content} (sees : s.Sees p process key content)
    (sound : s.Sound) (fs : List (key.Content → key.Content)) :
    ∃ t, run ipcStep s ((fs.map (IpcCall.store key)).map (.call p)) = some t ∧ t.Sound ∧
      t.Sees p process key (fs.foldl (fun content f => f content) content) ∧
      ∀ (other : IpcKey) (content' : other.Content), other ≠ key →
        s.Sees p process other content' → t.Sees p process other content' := by
  induction fs generalizing s content with
  | nil => exact ⟨s, rfl, sound, sees, fun _ _ _ sees => sees⟩
  | cons f rest ih =>
      obtain ⟨middle, stepped, seesNow, others⟩ := sees.store sound f
      obtain ⟨t, ran, soundNext, seesThen, othersThen⟩ := ih seesNow (sound.step stepped)
      exact ⟨t, run_cons_eq_some.mpr ⟨middle, stepped, ran⟩, soundNext, seesThen,
        fun other content' different sees => othersThen other content' different
          (others other content' different sees)⟩

/-- What `SharedMemory::create` leaves, for the process and in its shared objects. -/
structure Created (s t : Ipc ι) (p : ι) (process : IpcProcess) (created : HostReading)
    (restart : ℤ) (gostop : Gostop) : Prop where
  timersState : t.Sees p process .timersState ((TimersState.create created).withRestart restart)
  tdf : t.Sees p process .tdf (1 : LongDouble)
  simulatorsState : t.Sees p process .simulatorsState (⟨0, 0⟩ : SimulatorsState)
  gostop : t.Sees p process .gostop gostop
  shared : ∀ key id, (s.registry key).current = some id → process.object key = some id

/-- **`SharedMemory::create` succeeds, whatever it finds**, and sets all but the restart
reading of the counter and the semaphore. -/
theorem exists_created (sound : s.Sound) (runs : s.processes p = some {})
    (created : HostReading) :
    ∃ t process restart gostop,
      run ipcStep s ((sharedMemoryCreate created).map (.call p)) = some t ∧
        s.Created t p process created restart gostop := by
  obtain ⟨found, process, ranFinds, soundFound, finds⟩ :=
    exists_gets sound runs [.timersState, .tdf, .simulatorsState, .gostop] (by decide)
      fun _ _ => rfl
  have sees : ∀ key, found.Sees p process key (s.content key) := by
    intro key
    refine finds.sees key ?_
    cases key <;> decide
  obtain ⟨first, ranFirst, soundFirst, timers, others⟩ :=
    (sees .timersState).stores soundFound (timersStateStores created)
  obtain ⟨second, ranSecond, soundSecond, tdf, others'⟩ :=
    (others .tdf _ nofun (sees .tdf)).stores soundFirst [fun _ => (1 : LongDouble)]
  obtain ⟨t, ranThird, -, simulators, others''⟩ :=
    (others' .simulatorsState _ nofun (others .simulatorsState _ nofun
      (sees .simulatorsState))).stores soundSecond
      [fun state : SimulatorsState => { state with overheadDelay := 0 },
        fun state : SimulatorsState => { state with time := 0 }]
  refine ⟨t, process, TimersState.cpuTicksRestart (s.content .timersState), s.content .gostop,
    ?_, ?_, ?_, simulators, ?_, ?_⟩
  · refine run_append_eq_some.mpr ⟨second, run_append_eq_some.mpr ⟨first, run_append_eq_some.mpr
      ⟨found, ranFinds, ranFirst⟩, ranSecond⟩, ranThird⟩
  · exact others'' .timersState _ nofun (others' .timersState _ nofun timers)
  · exact others'' .tdf _ nofun tdf
  · exact others'' .gostop _ nofun (others' .gostop _ nofun (others .gostop _ nofun (sees .gostop)))
  · intro key id under
    refine finds.shared key ?_ id under
    cases key <;> decide

end Ipc

/-! ## The run of the new agent -/

/-- Threads of which no one can tell which of the two they are. -/
structure World.Resembles (w w' : World) : Prop where
  threads : w' = { w with agent := w'.agent }
  agent : w'.agent =
    { w.agent with timersState := w'.agent.timersState, gostop := w'.agent.gostop }
  cpuGetClock : ∀ host, w'.agent.timersState.cpuGetClock w'.agent.sharedTdf host =
    w.agent.timersState.cpuGetClock w.agent.sharedTdf host
  cpuGetTicks : ∀ host, (w'.agent.timersState.cpuGetTicks w'.agent.sharedTdf host).1 =
    (w.agent.timersState.cpuGetTicks w.agent.sharedTdf host).1
  gostop : w.vtPc.hasStarted = true → w'.agent.gostop = w.agent.gostop

/-- What is left over is not seen at first. -/
theorem unseen_initial (created host : HostReading) (restart : ℤ) (gostop : Gostop) :
    (World.initial created host).Unseen restart gostop := ⟨nofun, nofun⟩

theorem World.Unseen.resembles {w : World} {restart : ℤ} {gostop : Gostop}
    (unseen : w.Unseen restart gostop) : w.Resembles (w.withLeftovers restart gostop) where
  threads := rfl
  agent := rfl
  cpuGetClock := fun _ => rfl
  cpuGetTicks := TimersState.cpuGetTicks_withRestart unseen.restart _
  gostop := unseen.gostop

/-- The agent of a process that has created the shared memory. -/
structure Ipc.HasAgent {ι : Type} (s : Ipc ι) (p : ι) (process : IpcProcess)
    (created : HostReading) (a : Agent) : Prop where
  timersState : s.Sees p process .timersState a.timersState
  sharedTdf : s.Sees p process .tdf a.sharedTdf
  gostop : s.Sees p process .gostop a.gostop
  others : a = { Agent.initial created with timersState := a.timersState, gostop := a.gostop }

/-- **A restart goes unnoticed.** Whatever has happened to the shared objects, an agent that
starts creates them without failing, and gets those that are under the keys, where there are
any. What it finds makes no difference to it: every run of its threads is possible just when it
is for an agent that has found nothing, and ends with the same factors, tables, commands and
clock, and from the start of its virtual time thread on with the same semaphore. -/
theorem restart_goes_unnoticed {ι : Type} [DecidableEq ι] (before : List (IpcAction ι))
    (s : Ipc ι) (ranBefore : run ipcStep .initial before = some s) (p : ι)
    (runs : s.processes p = some {}) (created host : HostReading) :
    ∃ t process a, run ipcStep s ((sharedMemoryCreate created).map (.call p)) = some t ∧
      t.HasAgent p process created a ∧
      (∀ key id, (s.registry key).current = some id → process.object key = some id) ∧
      ∀ actions,
        (run threadStep (.initial created host) actions = none ∧
          run threadStep { World.initial created host with agent := a } actions = none) ∨
        ∃ w w', run threadStep (.initial created host) actions = some w ∧
          run threadStep { World.initial created host with agent := a } actions = some w' ∧
          w.Resembles w' := by
  have sound := Ipc.sound_initial.of_run ranBefore
  obtain ⟨t, process, restart, gostop, ran, leaves⟩ := Ipc.exists_created sound runs created
  refine ⟨t, process, (Agent.initial created).withLeftovers restart gostop, ran,
    ⟨leaves.timersState, leaves.tdf, leaves.gostop, rfl⟩, leaves.shared, fun actions => ?_⟩
  rcases run_withLeftovers (unseen_initial created host restart gostop) actions with stuck |
    ⟨w, restart', gostop', ran, ran', unseen⟩
  · exact Or.inl stuck
  · exact Or.inr ⟨w, w.withLeftovers restart' gostop', ran, ran', unseen.resembles⟩

/-- An agent lets the virtual hosts wait and is killed, while a guest has the objects. -/
def killed : List (IpcAction ℕ) :=
  .spawn 0 :: (sharedMemoryCreate ⟨7, 5⟩).map (.call 0) ++
    .spawn 1 :: ipcAttach.map (.call 1) ++ [.call 0 (semaphoreSetval .semStop), .exit 0]

theorem restart_goes_unnoticed_killed :
    ∃ s t process a, run ipcStep .initial (killed ++ [.spawn 2]) = some s ∧
      run ipcStep s ((sharedMemoryCreate ⟨9, 8⟩).map (.call 2)) = some t ∧
      t.HasAgent 2 process ⟨9, 8⟩ a ∧ process.object .gostop = some 0 ∧
      ∀ actions,
        (run threadStep (.initial ⟨9, 8⟩ ⟨9, 8⟩) actions = none ∧
          run threadStep { World.initial ⟨9, 8⟩ ⟨9, 8⟩ with agent := a } actions = none) ∨
        ∃ w w', run threadStep (.initial ⟨9, 8⟩ ⟨9, 8⟩) actions = some w ∧
          run threadStep { World.initial ⟨9, 8⟩ ⟨9, 8⟩ with agent := a } actions = some w' ∧
          w.Resembles w' := by
  obtain ⟨left, ran, free, under⟩ : ∃ left, run ipcStep .initial killed = some left ∧
      (left.processes 2).isNone = true ∧ (left.registry .gostop).current = some 0 := by
    apply exists_of_any
    decide +kernel
  have spawned : ipcStep left (.spawn 2) =
      some { left with processes := Function.update left.processes 2 (some {}) } := if_pos free
  have started := run_cons_eq_some.mpr ⟨_, spawned, (rfl : run ipcStep _ [] = some _)⟩
  have ranBefore := run_append_eq_some.mpr ⟨left, ran, started⟩
  obtain ⟨t, process, a, created, hasAgent, shared, alike⟩ :=
    restart_goes_unnoticed (killed ++ [.spawn 2]) _ ranBefore 2 (by simp) ⟨9, 8⟩
      ⟨9, 8⟩
  exact ⟨_, t, process, a, ranBefore, created, hasAgent, shared .gostop 0 under, alike⟩

end VirtualAgent
