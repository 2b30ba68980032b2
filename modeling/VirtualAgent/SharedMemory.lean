import VirtualAgent.MessageProcessor
import VirtualAgent.Library.KeyedObjects
import VirtualAgent.Library.Transition

/-!
# The shared objects of the agent and its guests

`SharedMemory.cpp`, the functions for shared memory in `qemu-timer.c`, and `bin_sem.c`. An
agent creates three memory segments and a set of semaphores, each under a key of its own, or
finds those that an earlier agent has left. Guests find them under the same keys. What a
process has attached stays where it is when the object is removed from its key.

A function is the list of its system calls and stores (`ipcCreate`, `ipcAttach`,
`ipcDetach`, `ipcRemove`, and what calls these). A run is any order of the calls of any
number of processes, which come and go, and may end at any place.

`objects_are_held` says which objects there are in every state of such a run: those under
the keys, and those that a running process has attached, which it has from `shmat` to
`shmdt`. The pointer that `shmdt` leaves dangling is not used any more.
-/

set_option autoImplicit false

namespace VirtualAgent

open ExactFloat Transition KeyedObjects

/-! ## The objects -/

/-- The keys of the objects. -/
inductive IpcKey where
  | timersState
  | tdf
  | simulatorsState
  | gostop

/-- `SHMKEY_TIMERS_STATE`, `SHMKEY_TDF`, `SHMKEY_SIMULATORS_STATE` and `SEMKEY_GOSTOP`. -/
def IpcKey.number : IpcKey → ℕ
  | .timersState => 528
  | .tdf => 529
  | .simulatorsState => 527
  | .gostop => 331

/-- No two objects have the same key. -/
theorem IpcKey.number_injective : Function.Injective IpcKey.number := by
  intro key other same
  cases key <;> cases other <;> first | rfl | cases same

/-- Keys are compared by their numbers. -/
instance : DecidableEq IpcKey := fun _ _ => decidable_of_iff _ IpcKey.number_injective.eq_iff

/-- The object is a memory segment, not a set of semaphores. -/
def IpcKey.isSegment : IpcKey → Bool
  | .gostop => false
  | _ => true

/-- `struct SimulatorsState`. -/
structure SimulatorsState where
  time : ℕ
  overheadDelay : ℕ
  deriving DecidableEq

/-- What is in an object. Of the set of semaphores the agent uses the first one only. -/
def IpcKey.Content : IpcKey → Type
  | .timersState => TimersState
  | .tdf => LongDouble
  | .simulatorsState => SimulatorsState
  | .gostop => Gostop

/-- An object is created with zeros. -/
def IpcKey.fresh : (key : IpcKey) → key.Content
  | .timersState => (⟨0, 0, 0, 0, 0, false⟩ : TimersState)
  | .tdf => LongDouble.ofInt 0
  | .simulatorsState => (⟨0, 0⟩ : SimulatorsState)
  | .gostop => Gostop.semGo

/-! ## The functions -/

/-- A system call for an object, or a store through a pointer. -/
inductive IpcCall where
  /-- `shmget` or `semget`, with `IPC_CREAT` or without -/
  | get (key : IpcKey) (create : Bool)
  /-- `shmat` -/
  | attach (key : IpcKey)
  /-- `shmdt` -/
  | detach (key : IpcKey)
  /-- `shmctl` or `semctl`, with `IPC_RMID` -/
  | remove (key : IpcKey)
  /-- a store through a pointer, or `semctl` with `SETVAL` -/
  | store (key : IpcKey) (f : key.Content → key.Content)
  /-- `semaphore_waitforzero` -/
  | waitForZero

/-- Find an object, and attach it if it is a segment. -/
def ipcGet (create : Bool) (key : IpcKey) : List IpcCall :=
  if key.isSegment then [.get key create, .attach key] else [.get key create]

/-- `__ipc_create`. -/
def ipcCreate : List IpcCall :=
  [IpcKey.timersState, .tdf, .simulatorsState, .gostop].flatMap (ipcGet true)

/-- `__ipc_attach`. -/
def ipcAttach : List IpcCall :=
  [IpcKey.timersState, .tdf, .simulatorsState, .gostop].flatMap (ipcGet false)

/-- `__ipc_detach`. -/
def ipcDetach : List IpcCall := [.detach .timersState, .detach .tdf, .detach .simulatorsState]

/-- `__ipc_remove`, which leaves the segment of the simulators. -/
def ipcRemove : List IpcCall :=
  [.detach .timersState, .remove .timersState, .detach .tdf, .detach .simulatorsState,
    .remove .tdf, .remove .gostop]

/-- The stores of `timers_state_create`, in order. -/
def timersStateStores (created : HostReading) : List (TimersState → TimersState) :=
  [fun ts => { ts with cpuTicksPrev := created.ticks },
    fun ts => { ts with cpuTicksOffset := created.ticks },
    fun ts => { ts with cpuClockOffset := created.clock },
    fun ts => { ts with cpuClockRestart := created.clock },
    fun ts => { ts with cpuTicksEnabled := false }]

/-- `timers_state_create`. -/
def timersStateCreate (created : HostReading) : List IpcCall :=
  ipcCreate ++ (timersStateStores created).map (IpcCall.store .timersState)

/-- `SharedMemory::create`. -/
def sharedMemoryCreate (created : HostReading) : List IpcCall :=
  timersStateCreate created ++
    [.store .tdf fun _ => (1 : LongDouble),
      .store .simulatorsState fun state : SimulatorsState => { state with overheadDelay := 0 },
      .store .simulatorsState fun state : SimulatorsState => { state with time := 0 }]

/-- `semaphore_setval(semid_gostop, VIRHOST, value)`. -/
def semaphoreSetval (value : Gostop) : IpcCall := .store .gostop fun _ => value

/-! ## Processes -/

/-- What a process has found, by the static variables with the identifiers, and the segments
it has attached, at the static pointers. -/
structure IpcProcess where
  ids : IpcKey → Option ℕ := fun _ => none
  attached : IpcKey → Option ℕ := fun _ => none

namespace IpcProcess

/-- The identifier found under a key. -/
def find (process : IpcProcess) (key : IpcKey) (id : ℕ) : IpcProcess :=
  { process with ids := Function.update process.ids key (some id) }

/-- The segment of a key that is attached, or none. -/
def setAttached (process : IpcProcess) (key : IpcKey) (segment : Option ℕ) : IpcProcess :=
  { process with attached := Function.update process.attached key segment }

variable (process : IpcProcess) (key : IpcKey)

@[simp] theorem find_attached (id : ℕ) : (process.find key id).attached = process.attached := rfl

@[simp] theorem setAttached_ids (segment : Option ℕ) :
    (process.setAttached key segment).ids = process.ids := rfl

@[simp] theorem find_ids_self (id : ℕ) : (process.find key id).ids key = some id :=
  Function.update_self ..

@[simp] theorem setAttached_self (segment : Option ℕ) :
    (process.setAttached key segment).attached key = segment := Function.update_self ..

theorem find_ids_of_ne {key other : IpcKey} (different : other ≠ key) (id : ℕ) :
    (process.find key id).ids other = process.ids other := Function.update_of_ne different _ _

theorem setAttached_of_ne {key other : IpcKey} (different : other ≠ key) (segment : Option ℕ) :
    (process.setAttached key segment).attached other = process.attached other :=
  Function.update_of_ne different _ _

end IpcProcess

/-- By what a process names an object when it stores to it. -/
def IpcProcess.object (process : IpcProcess) (key : IpcKey) : Option ℕ :=
  if key.isSegment then process.attached key else process.ids key

/-- The objects under each key, and the processes. -/
structure Ipc (ι : Type) where
  registry : (key : IpcKey) → Registry ι key.Content
  processes : ι → Option IpcProcess

variable {ι : Type}

namespace Ipc

/-- Nothing has been created. -/
def initial : Ipc ι := ⟨fun _ => .empty, fun _ => none⟩

variable [DecidableEq ι]

/-- The objects under a key change, and a process. -/
def update (s : Ipc ι) (p : ι) (process : IpcProcess) (key : IpcKey)
    (registry : Registry ι key.Content) : Ipc ι where
  registry := Function.update s.registry key registry
  processes := Function.update s.processes p (some process)

/-- A process ends, by itself, by `exit` after a failed call, or killed. -/
def exit (s : Ipc ι) (p : ι) : Ipc ι where
  registry := fun key => (s.registry key).release p
  processes := Function.update s.processes p none

section Lookup

variable {s : Ipc ι} {p q : ι} {process : IpcProcess} {key other : IpcKey}
  {registry : Registry ι key.Content}

@[simp] theorem update_registry_self : (s.update p process key registry).registry key = registry :=
  Function.update_self ..

theorem update_registry_of_ne (different : other ≠ key) :
    (s.update p process key registry).registry other = s.registry other :=
  Function.update_of_ne different _ _

@[simp] theorem update_processes_self :
    (s.update p process key registry).processes p = some process := Function.update_self ..

theorem update_processes_of_ne (different : q ≠ p) :
    (s.update p process key registry).processes q = s.processes q :=
  Function.update_of_ne different _ _

@[simp] theorem exit_processes_self : (s.exit p).processes p = none := Function.update_self ..

theorem exit_processes_of_ne (different : q ≠ p) : (s.exit p).processes q = s.processes q :=
  Function.update_of_ne different _ _

end Lookup

/-- A call of a process. A function that attaches is called once, and a call for an object
comes after the one that finds it. -/
def perform (s : Ipc ι) (p : ι) (process : IpcProcess) : IpcCall → Option (Ipc ι)
  | .get key create =>
      if (s.registry key).current = none ∧ create = false then some (s.exit p)
      else
        let found := (s.registry key).create key.fresh
        some (s.update p (process.find key found.1) key found.2)
  | .attach key => do
      let id ← process.ids key
      if key.isSegment = false ∨ process.attached key ≠ none then none
      else if ((s.registry key).objects id).isNone then some (s.exit p)
      else some (s.update p (process.setAttached key (some id)) key ((s.registry key).attach p id))
  | .detach key =>
      match process.attached key with
      | none => some s
      | some id =>
          some (s.update p (process.setAttached key none) key ((s.registry key).detach p id))
  | .remove key => do
      let id ← process.ids key
      -- only the removal of a set of semaphores is checked
      if key.isSegment = false ∧ ((s.registry key).objects id).isNone then some (s.exit p)
      else some (s.update p process key ((s.registry key).remove id))
  | .store key f => do
      let id ← process.object key
      if ((s.registry key).objects id).isNone then some (s.exit p)
      else some (s.update p process key ((s.registry key).store id f))
  | .waitForZero => do
      let id ← process.ids .gostop
      match (s.registry .gostop).objects id with
      | none => some (s.exit p)
      | some set =>
          let value : Gostop := set.content
          if value = .semGo then some s else none

end Ipc

/-- What can happen next. -/
inductive IpcAction (ι : Type) where
  | spawn (p : ι)
  | call (p : ι) (c : IpcCall)
  | exit (p : ι)

/-- The step of a run. -/
def ipcStep [DecidableEq ι] (s : Ipc ι) : IpcAction ι → Option (Ipc ι)
  | .spawn p =>
      if (s.processes p).isNone then
        some { s with processes := Function.update s.processes p (some {}) }
      else none
  | .call p c => (s.processes p).bind fun process => s.perform p process c
  | .exit p => (s.processes p).map fun _ => s.exit p

/-- **What a call of a process can do** to the objects and the processes. -/
inductive IpcEffect [DecidableEq ι] (s : Ipc ι) (p : ι) (process : IpcProcess) :
    IpcCall → Ipc ι → Prop where
  | ended (c : IpcCall) : IpcEffect s p process c (s.exit p)
  | unchanged (c : IpcCall) : IpcEffect s p process c s
  | found (key : IpcKey) (create : Bool)
      (ready : (s.registry key).current = none → create = true) :
      IpcEffect s p process (.get key create)
        (s.update p (process.find key ((s.registry key).create key.fresh).1) key
          ((s.registry key).create key.fresh).2)
  | attached (key : IpcKey) (id : ℕ) (segment : key.isSegment = true)
      (free : process.attached key = none)
      (there : ∃ entry, (s.registry key).objects id = some entry)
      (ids : process.ids key = some id) :
      IpcEffect s p process (.attach key)
        (s.update p (process.setAttached key (some id)) key ((s.registry key).attach p id))
  | detached (key : IpcKey) (id : ℕ) (pointer : process.attached key = some id) :
      IpcEffect s p process (.detach key)
        (s.update p (process.setAttached key none) key ((s.registry key).detach p id))
  | removed (key : IpcKey) (id : ℕ) :
      IpcEffect s p process (.remove key) (s.update p process key ((s.registry key).remove id))
  | stored (key : IpcKey) (f : key.Content → key.Content) (id : ℕ) :
      IpcEffect s p process (.store key f) (s.update p process key ((s.registry key).store id f))

theorem perform_effect [DecidableEq ι] {s next : Ipc ι} {p : ι} {process : IpcProcess}
    {c : IpcCall} (performed : s.perform p process c = some next) :
    IpcEffect s p process c next := by
  cases c with
  | get key create =>
      simp only [Ipc.perform] at performed
      split at performed
      · cases performed
        exact .ended _
      case isFalse ready =>
        cases performed
        exact .found key create fun missing => by simpa [missing] using ready
  | attach key =>
      obtain ⟨id, ids, performed⟩ := Option.bind_eq_some_iff.mp performed
      obtain ⟨ready, performed⟩ := Option.ite_none_left_eq_some.mp performed
      rw [not_or, Bool.not_eq_false, not_not] at ready
      split at performed
      · cases performed
        exact .ended _
      case isFalse there =>
        cases performed
        rw [Option.isNone_iff_eq_none] at there
        exact .attached key id ready.1 ready.2 (Option.ne_none_iff_exists'.mp there) ids
  | detach key =>
      simp only [Ipc.perform] at performed
      split at performed
      · cases performed
        exact .unchanged _
      case h_2 id pointer =>
        cases performed
        exact .detached key id pointer
  | remove key =>
      obtain ⟨id, -, performed⟩ := Option.bind_eq_some_iff.mp performed
      split at performed
      · cases performed
        exact .ended _
      · cases performed
        exact .removed key id
  | store key f =>
      obtain ⟨id, -, performed⟩ := Option.bind_eq_some_iff.mp performed
      split at performed
      · cases performed
        exact .ended _
      · cases performed
        exact .stored key f id
  | waitForZero =>
      obtain ⟨id, -, performed⟩ := Option.bind_eq_some_iff.mp performed
      split at performed
      · cases performed
        exact .ended _
      · obtain ⟨-, same⟩ := Option.ite_none_right_eq_some.mp performed
        cases same
        exact .unchanged _

/-! ## What there is -/

/-- The objects are well formed, what a process has found has been created, and the objects
a process has attached know it. -/
structure Ipc.Sound (s : Ipc ι) : Prop where
  wellFormed : ∀ key, (s.registry key).WellFormed
  found : ∀ p process key id, s.processes p = some process → process.ids key = some id →
    id < (s.registry key).created
  holds : ∀ p key id, (s.registry key).Holds p id ↔
    ∃ process, s.processes p = some process ∧ process.attached key = some id
  segments : ∀ p process, s.processes p = some process → process.attached .gostop = none

theorem Ipc.sound_initial : (Ipc.initial : Ipc ι).Sound where
  wellFormed := fun _ => Registry.wellFormed_empty
  found := by simp [Ipc.initial]
  holds := by simp [Ipc.initial, Registry.Holds, Registry.empty]
  segments := by simp [Ipc.initial]

namespace Ipc.Sound

variable [DecidableEq ι] {s next : Ipc ι} {p : ι} {old process : IpcProcess} {key : IpcKey}
  {registry : Registry ι key.Content}

/-- A process changes, and the objects under one key with it. -/
theorem update (sound : s.Sound) (runs : s.processes p = some old)
    (wellFormed : registry.WellFormed) (grows : (s.registry key).created ≤ registry.created)
    (ids : ∀ id, process.ids key = some id → id < registry.created)
    (others : ∀ other, other ≠ key →
      process.ids other = old.ids other ∧ process.attached other = old.attached other)
    (own : ∀ id, registry.Holds p id ↔ process.attached key = some id)
    (foreign : ∀ q id, q ≠ p → (registry.Holds q id ↔ (s.registry key).Holds q id))
    (segments : process.attached .gostop = none) : (s.update p process key registry).Sound where
  wellFormed := by
    intro other
    by_cases same : other = key
    · subst same
      simpa using wellFormed
    · simpa [update_registry_of_ne same] using sound.wellFormed other
  found := by
    intro q process' other id runs' found
    by_cases mine : q = p
    · subst mine
      obtain rfl : process = process' := by simpa using runs'
      by_cases same : other = key
      · subst same
        simpa using ids id found
      · rw [(others other same).1] at found
        simpa [update_registry_of_ne same] using sound.found q old other id runs found
    · rw [update_processes_of_ne mine] at runs'
      have bound := sound.found q process' other id runs' found
      by_cases same : other = key
      · subst same
        simpa using bound.trans_le grows
      · simpa [update_registry_of_ne same] using bound
  holds := by
    intro q other id
    by_cases mine : q = p
    · subst mine
      simp only [update_processes_self, Option.some.injEq, exists_eq_left']
      by_cases same : other = key
      · subst same
        simpa using own id
      · have before := sound.holds q other id
        simp only [runs, Option.some.injEq, exists_eq_left'] at before
        rw [(others other same).2, update_registry_of_ne same]
        exact before
    · rw [update_processes_of_ne mine, ← sound.holds q other id]
      by_cases same : other = key
      · subst same
        simpa using foreign q id mine
      · rw [update_registry_of_ne same]
  segments := by
    intro q process' runs'
    by_cases mine : q = p
    · subst mine
      obtain rfl : process = process' := by simpa using runs'
      exact segments
    · rw [update_processes_of_ne mine] at runs'
      exact sound.segments q process' runs'

omit [DecidableEq ι] in
/-- The objects that a process has attached know it. -/
theorem own (sound : s.Sound) (runs : s.processes p = some old) (key : IpcKey) (id : ℕ) :
    (s.registry key).Holds p id ↔ old.attached key = some id := by
  simp [sound.holds p key id, runs]

/-- Only the objects under one key change. -/
theorem change (sound : s.Sound) (runs : s.processes p = some old)
    (wellFormed : registry.WellFormed) (created : registry.created = (s.registry key).created)
    (same : ∀ q id, registry.Holds q id ↔ (s.registry key).Holds q id) :
    (s.update p old key registry).Sound :=
  sound.update runs wellFormed created.ge
    (fun id found => created ▸ sound.found p old key id runs found) (fun _ _ => ⟨rfl, rfl⟩)
    (fun id => (same p id).trans (sound.own runs key id)) (fun q id _ => same q id)
    (sound.segments p old runs)

theorem exit (sound : s.Sound) (p : ι) : (s.exit p).Sound where
  wellFormed := fun key => (sound.wellFormed key).release p
  found := by
    intro q process key id runs
    by_cases mine : q = p
    · subst mine
      simp at runs
    · rw [exit_processes_of_ne mine] at runs
      exact sound.found q process key id runs
  holds := by
    intro q key id
    refine Registry.holds_release.trans ?_
    by_cases mine : q = p
    · subst mine
      simp
    · rw [exit_processes_of_ne mine, sound.holds q key id]
      exact and_iff_left mine
  segments := by
    intro q process runs
    by_cases mine : q = p
    · subst mine
      simp at runs
    · rw [exit_processes_of_ne mine] at runs
      exact sound.segments q process runs

/-- An object is found, or created. -/
theorem get (sound : s.Sound) (runs : s.processes p = some old) :
    (s.update p (old.find key ((s.registry key).create key.fresh).1) key
      ((s.registry key).create key.fresh).2).Sound := by
  have wellFormed := (sound.wellFormed key).create key.fresh
  refine sound.update runs wellFormed (Registry.created_le_create _ _) ?_ ?_ ?_ ?_
    (sound.segments p old runs)
  · intro id found
    rw [IpcProcess.find_ids_self] at found
    cases found
    exact wellFormed.lt_created (Registry.current_create (s.registry key) key.fresh)
  · intro other different
    exact ⟨old.find_ids_of_ne different _, rfl⟩
  · intro id
    exact (Registry.holds_create (sound.wellFormed key) key.fresh).trans (sound.own runs key id)
  · intro q id _
    exact Registry.holds_create (sound.wellFormed key) key.fresh

/-- A segment that is there is attached. -/
theorem attach (sound : s.Sound) (runs : s.processes p = some old) {id : ℕ}
    (segment : key.isSegment = true) (free : old.attached key = none)
    (there : ∃ entry, (s.registry key).objects id = some entry) :
    (s.update p (old.setAttached key (some id)) key ((s.registry key).attach p id)).Sound := by
  refine sound.update runs ((sound.wellFormed key).attach p id) le_rfl
    (fun other found => sound.found p old key other runs found) ?_ ?_ ?_ ?_
  · intro other different
    exact ⟨rfl, old.setAttached_of_ne different _⟩
  · intro other
    rw [Registry.holds_attach, sound.own runs key other, free, IpcProcess.setAttached_self]
    constructor
    · rintro (impossible | ⟨-, rfl, -⟩)
      · cases impossible
      · rfl
    · rintro ⟨rfl⟩
      exact Or.inr ⟨rfl, rfl, there⟩
  · intro q other different
    rw [Registry.holds_attach]
    simp [different]
  · have apart : IpcKey.gostop ≠ key := by
      rintro rfl
      cases segment
    rw [old.setAttached_of_ne apart, sound.segments p old runs]

/-- A segment is detached. -/
theorem detach (sound : s.Sound) (runs : s.processes p = some old) {id : ℕ}
    (pointer : old.attached key = some id) :
    (s.update p (old.setAttached key none) key ((s.registry key).detach p id)).Sound := by
  refine sound.update runs ((sound.wellFormed key).detach p id) le_rfl
    (fun other found => sound.found p old key other runs found) ?_ ?_ ?_ ?_
  · intro other different
    exact ⟨rfl, old.setAttached_of_ne different _⟩
  · intro other
    rw [Registry.holds_detach, sound.own runs key other, pointer, IpcProcess.setAttached_self]
    simp [eq_comm]
  · intro q other different
    rw [Registry.holds_detach]
    simp [different]
  · by_cases own : IpcKey.gostop = key
    · subst own
      exact old.setAttached_self _ none
    · exact (old.setAttached_of_ne own none).trans (sound.segments p old runs)

/-- **Every call keeps together the objects and what the processes have attached.** -/
theorem perform (sound : s.Sound) (runs : s.processes p = some old) {c : IpcCall}
    (performed : s.perform p old c = some next) : next.Sound := by
  cases perform_effect performed with
  | ended => exact sound.exit p
  | unchanged => exact sound
  | found key create => exact sound.get runs
  | attached key id segment free there ids => exact sound.attach runs segment free there
  | detached key id pointer => exact sound.detach runs pointer
  | removed key id =>
      exact sound.change runs ((sound.wellFormed key).remove id) rfl fun q other =>
        Registry.holds_remove
  | stored key f id =>
      exact sound.change runs ((sound.wellFormed key).store id f) rfl fun q other =>
        Registry.holds_store f

/-- A process starts, with nothing found or attached. -/
theorem spawn (sound : s.Sound) (free : s.processes p = none) :
    Ipc.Sound { s with processes := Function.update s.processes p (some {}) } := by
  have only : ∀ q process, Function.update s.processes p (some {}) q = some process →
      process = {} ∨ s.processes q = some process := by
    intro q process runs
    by_cases mine : q = p
    · subst mine
      rw [Function.update_self] at runs
      exact Or.inl (Option.some.inj runs).symm
    · rw [Function.update_of_ne mine] at runs
      exact Or.inr runs
  refine ⟨sound.wellFormed, ?_, ?_, ?_⟩
  · intro q process key id runs found
    rcases only q process runs with rfl | runs
    · cases found
    · exact sound.found q process key id runs found
  · intro q key id
    rw [sound.holds q key id]
    by_cases mine : q = p
    · subst mine
      simp [free]
    · simp [Function.update_of_ne mine]
  · intro q process runs
    rcases only q process runs with rfl | runs
    · rfl
    · exact sound.segments q process runs

theorem step (sound : s.Sound) {action : IpcAction ι} (stepped : ipcStep s action = some next) :
    next.Sound := by
  cases action with
  | spawn p =>
      obtain ⟨free, returned⟩ := Option.ite_none_right_eq_some.mp stepped
      cases returned
      exact sound.spawn (Option.isNone_iff_eq_none.mp free)
  | call p c =>
      obtain ⟨process, runs, performed⟩ := Option.bind_eq_some_iff.mp stepped
      exact sound.perform runs performed
  | exit p =>
      obtain ⟨process, -, rfl⟩ := Option.map_eq_some_iff.mp stepped
      exact sound.exit p

theorem of_run {actions : List (IpcAction ι)} (sound : s.Sound)
    (ran : run ipcStep s actions = some next) : next.Sound :=
  run_invariant Ipc.Sound (fun _ _ _ sound stepped => sound.step stepped) sound ran

end Ipc.Sound

variable [DecidableEq ι]

/-- **Which objects there are**, in every order of the calls: those under the keys, and those
that a running process has attached. -/
theorem objects_are_held (actions : List (IpcAction ι)) (s : Ipc ι)
    (ran : run ipcStep .initial actions = some s) (key : IpcKey) (id : ℕ) :
    (∃ entry, (s.registry key).objects id = some entry) ↔
      (s.registry key).current = some id ∨
        ∃ p process, s.processes p = some process ∧ process.attached key = some id := by
  have sound := Ipc.sound_initial.of_run ran
  rw [Registry.exists_iff (sound.wellFormed key)]
  simp only [sound.holds]

end VirtualAgent
