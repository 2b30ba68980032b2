import VirtualAgent.SharedMemory

/-!
# An agent that is started twice

`VirtualAgent::start` creates the shared objects before it sets up its servers. If an agent
runs already, the port is taken, and the second one gives up; but it has found the objects
of the first one under their keys, and its destructor removes them.

`second_start_removes_objects` says what that does in every order of the calls of the
processes: the segments of the first agent never come under their keys again, so no guest
that starts later shares its clock, and the semaphores are destroyed, so the first agent,
and each guest that has found them, ends with an error at its next call for them.
-/

set_option autoImplicit false

namespace VirtualAgent

open Transition KeyedObjects

variable {ι : Type} [DecidableEq ι]

/-! ## Identifiers that are gone -/

section Gone

variable {s next : Ipc ι} {key : IpcKey} {id : ℕ}

/-- What the operations keep of the objects under each key, as far as only the keys and the
identifiers given out are concerned. -/
structure KeptByCalls (kept : (key : IpcKey) → Registry ι key.Content → Prop) : Prop where
  create : ∀ key r, kept key r → kept key (r.create key.fresh).2
  remove : ∀ key r id, kept key r → kept key (r.remove id)
  congr : ∀ key r next, kept key r → next.current = r.current → next.created = r.created →
    kept key next

variable {kept : (key : IpcKey) → Registry ι key.Content → Prop}

/-- The objects under one key change. -/
theorem kept_update {p : ι} {process : IpcProcess} {registry : Registry ι key.Content}
    (holds : ∀ other, kept other (s.registry other)) (changed : kept key registry) :
    ∀ other, kept other ((s.update p process key registry).registry other) := by
  intro other
  by_cases same : other = key
  · subst same
    simpa using changed
  · rw [Ipc.update_registry_of_ne same]
    exact holds other

theorem kept_perform (keeps : KeptByCalls kept) {p : ι} {process : IpcProcess} {c : IpcCall}
    (holds : ∀ key, kept key (s.registry key)) (performed : s.perform p process c = some next) :
    ∀ key, kept key (next.registry key) := by
  cases perform_effect performed with
  | ended => exact fun key => keeps.congr key _ _ (holds key) rfl rfl
  | unchanged => exact holds
  | found key create => exact kept_update holds (keeps.create key _ (holds key))
  | removed key id => exact kept_update holds (keeps.remove key _ id (holds key))
  | attached key id => exact kept_update holds (keeps.congr key _ _ (holds key) rfl rfl)
  | detached key id => exact kept_update holds (keeps.congr key _ _ (holds key) rfl rfl)
  | stored key f id => exact kept_update holds (keeps.congr key _ _ (holds key) rfl rfl)

theorem kept_of_run (keeps : KeptByCalls kept) {actions : List (IpcAction ι)}
    (holds : ∀ key, kept key (s.registry key)) (ran : run ipcStep s actions = some next) :
    ∀ key, kept key (next.registry key) := by
  refine run_invariant (fun s : Ipc ι => ∀ key, kept key (s.registry key)) ?_ holds ran
  intro s action next holds stepped
  cases action with
  | spawn p =>
      obtain ⟨-, returned⟩ := Option.ite_none_right_eq_some.mp stepped
      cases returned
      exact holds
  | call p c =>
      obtain ⟨process, -, performed⟩ := Option.bind_eq_some_iff.mp stepped
      exact kept_perform keeps holds performed
  | exit p =>
      obtain ⟨process, -, rfl⟩ := Option.map_eq_some_iff.mp stepped
      exact fun key => keeps.congr key _ _ (holds key) rfl rfl

omit [DecidableEq ι] in
theorem keptByCalls_gone (key : IpcKey) (id : ℕ) :
    KeptByCalls fun other (r : Registry ι other.Content) => other = key → r.Gone id where
  create := fun _ _ gone same => (gone same).create _
  remove := fun _ _ other gone same => (gone same).remove other
  congr := fun _ _ _ gone current_eq created_eq same => (gone same).congr current_eq created_eq

omit [DecidableEq ι] in
theorem keptByCalls_created (key : IpcKey) (id : ℕ) :
    KeptByCalls fun other (r : Registry ι other.Content) => other = key → id < r.created where
  create := fun _ r given same => (given same).trans_le (r.created_le_create _)
  remove := fun _ _ _ given => given
  congr := fun _ _ _ given _ created_eq same => created_eq ▸ given same

/-- **An identifier that is not under its key never comes back.** -/
theorem gone_of_run {actions : List (IpcAction ι)} (gone : (s.registry key).Gone id)
    (ran : run ipcStep s actions = some next) : (next.registry key).Gone id := by
  refine kept_of_run (keptByCalls_gone key id) ?_ ran key rfl
  rintro other rfl
  exact gone

theorem lt_created_of_run {actions : List (IpcAction ι)} (given : id < (s.registry key).created)
    (ran : run ipcStep s actions = some next) : id < (next.registry key).created := by
  refine kept_of_run (keptByCalls_created key id) ?_ ran key rfl
  rintro other rfl
  exact given

omit [DecidableEq ι] in
/-- Nothing is left of a set of semaphores that is not under its key. -/
theorem objects_of_gone (sound : s.Sound) (gone : (s.registry .gostop).Gone id) :
    (s.registry .gostop).objects id = none := by
  by_contra there
  rcases (Registry.exists_iff (sound.wellFormed .gostop) id).mp
    (Option.ne_none_iff_exists'.mp there) with under | ⟨p, holds⟩
  · exact gone.2 under
  · obtain ⟨process, runs, pointer⟩ := (sound.holds p .gostop id).mp holds
    rw [sound.segments p process runs] at pointer
    cases pointer

end Gone

/-! ## Finding and removing -/

/-- The calls of a process, in order. -/
def callsOf (p : ι) (actions : List (IpcAction ι)) : List IpcCall :=
  actions.filterMap fun
    | .call q c => if q = p then some c else none
    | _ => none

/-- The call finds the object of a key. -/
def IpcCall.finds (key : IpcKey) : IpcCall → Bool
  | .get other _ => other == key
  | _ => false

section Found

variable {s next : Ipc ι} {key : IpcKey} {id : ℕ} {p : ι}

/-- As far as a process runs, it has found an object. -/
def Ipc.HasFound (s : Ipc ι) (p : ι) (key : IpcKey) (id : ℕ) : Prop :=
  ∀ process, s.processes p = some process → process.ids key = some id

/-- A process changes, but not what is in question. -/
theorem hasFound_update {q : ι} {process old : IpcProcess} {other : IpcKey}
    {registry : Registry ι other.Content} (found : s.HasFound p key id)
    (runs : s.processes q = some old)
    (same : q = p → process.ids key = old.ids key) :
    (s.update q process other registry).HasFound p key id := by
  intro process' runs'
  by_cases mine : p = q
  · subst mine
    obtain rfl : process = process' := by simpa using runs'
    exact (same rfl).trans (found old runs)
  · rw [Ipc.update_processes_of_ne mine] at runs'
    exact found process' runs'

theorem hasFound_exit (found : s.HasFound p key id) (q : ι) : (s.exit q).HasFound p key id := by
  intro process runs
  by_cases mine : p = q
  · subst mine
    simp at runs
  · rw [Ipc.exit_processes_of_ne mine] at runs
    exact found process runs

/-- What a process has found stays found while it does not look again. -/
theorem hasFound_of_run {actions : List (IpcAction ι)} (found : s.HasFound p key id)
    (noSpawn : .spawn p ∉ actions) (noGet : ∀ c ∈ callsOf p actions, c.finds key = false)
    (ran : run ipcStep s actions = some next) : next.HasFound p key id := by
  induction actions generalizing s with
  | nil =>
      cases ran
      exact found
  | cons action rest ih =>
      obtain ⟨middle, stepped, later⟩ := run_cons_eq_some.mp ran
      rw [List.mem_cons, not_or] at noSpawn
      refine ih ?_ noSpawn.2 ?_ later
      · cases action with
        | spawn q =>
            have apart : p ≠ q := fun same => noSpawn.1 (same ▸ rfl)
            obtain ⟨-, returned⟩ := Option.ite_none_right_eq_some.mp stepped
            cases returned
            intro process runs
            exact found process (by simpa [Function.update_of_ne apart] using runs)
        | exit q =>
            obtain ⟨process, -, rfl⟩ := Option.map_eq_some_iff.mp stepped
            exact hasFound_exit found q
        | call q c =>
            obtain ⟨process, runs, performed⟩ := Option.bind_eq_some_iff.mp stepped
            cases perform_effect performed with
            | ended => exact hasFound_exit found q
            | unchanged => exact found
            | found other create =>
                refine hasFound_update found runs ?_
                rintro rfl
                have notThis : (other == key) = false :=
                  noGet (.get other create) (by simp [callsOf])
                exact process.find_ids_of_ne (fun same => by simp [same] at notThis) _
            | attached other found' =>
                exact hasFound_update found runs fun _ => rfl
            | detached other found' => exact hasFound_update found runs fun _ => rfl
            | removed other found' => exact hasFound_update found runs fun _ => rfl
            | stored other f found' => exact hasFound_update found runs fun _ => rfl
      · intro c member
        refine noGet c ?_
        rw [callsOf, List.filterMap_cons]
        split
        · exact member
        · exact List.mem_cons_of_mem _ member

/-- A process that looks for an object finds the one that is under the key then. -/
theorem hasFound_of_get {create : Bool}
    (stepped : ipcStep s (.call p (.get key create)) = some next)
    (under : (next.registry key).current = some id) : next.HasFound p key id := by
  obtain ⟨process, -, performed⟩ := Option.bind_eq_some_iff.mp stepped
  simp only [Ipc.perform] at performed
  split at performed
  case isTrue missing =>
    cases performed
    cases missing.1.symm.trans under
  case isFalse =>
    cases performed
    rw [Ipc.update_registry_self, Registry.current_create] at under
    intro process' runs
    rw [Ipc.update_processes_self] at runs
    cases runs
    rw [IpcProcess.find_ids_self, under]

/-- An object that a process has found and removes does not come under its key again. -/
theorem gone_of_remove (sound : s.Sound) (given : id < (s.registry key).created)
    (found : s.HasFound p key id) (stepped : ipcStep s (.call p (.remove key)) = some next) :
    (next.registry key).Gone id := by
  obtain ⟨process, runs, performed⟩ := Option.bind_eq_some_iff.mp stepped
  obtain ⟨id', ids, performed⟩ := Option.bind_eq_some_iff.mp performed
  obtain rfl : id = id' := Option.some.inj ((found process runs).symm.trans ids)
  split at performed
  case isTrue missing =>
    cases performed
    refine Registry.Gone.congr ⟨given, ?_⟩ rfl rfl
    intro under
    obtain ⟨entry, there, -⟩ := (sound.wellFormed key).current id under
    rw [there] at missing
    cases missing.2
  case isFalse =>
    cases performed
    have removed := Registry.gone_remove given
    simpa using removed

/-- **What a process has found and then removes is gone**, whatever happens in between. -/
theorem gone_of_removed (sound : s.Sound) (given : id < (s.registry key).created)
    (found : s.HasFound p key id) {middle after : List (IpcAction ι)}
    (noSpawn : .spawn p ∉ middle) (noGet : ∀ c ∈ callsOf p middle, c.finds key = false)
    (ran : run ipcStep s (middle ++ .call p (.remove key) :: after) = some next) :
    (next.registry key).Gone id := by
  obtain ⟨first, ranMiddle, ran⟩ := run_append_eq_some.mp ran
  obtain ⟨second, removed, ranAfter⟩ := run_cons_eq_some.mp ran
  have found := hasFound_of_run found noSpawn noGet ranMiddle
  have given := lt_created_of_run given ranMiddle
  exact gone_of_run (gone_of_remove (sound.of_run ranMiddle) given found removed) ranAfter

/-- What a process finds and then removes is gone. -/
theorem gone_of_get_remove (sound : s.Sound) (given : id < (s.registry key).created)
    {create : Bool} {before middle after : List (IpcAction ι)}
    (ran : run ipcStep s (before ++ .call p (.get key create) ::
      (middle ++ .call p (.remove key) :: after)) = some next)
    (noSpawn : .spawn p ∉ middle) (noGet : ∀ c ∈ callsOf p middle, c.finds key = false) :
    (next.registry key).Gone id := by
  obtain ⟨first, ranBefore, ran⟩ := run_append_eq_some.mp ran
  obtain ⟨second, got, ran⟩ := run_cons_eq_some.mp ran
  have ranGot : run ipcStep s (before ++ [.call p (.get key create)]) = some second :=
    run_append_eq_some.mpr ⟨first, ranBefore, run_cons_eq_some.mpr ⟨second, got, rfl⟩⟩
  have given := lt_created_of_run given ranGot
  by_cases under : (second.registry key).current = some id
  · exact gone_of_removed (sound.of_run ranGot) given (hasFound_of_get got under) noSpawn noGet ran
  · exact gone_of_run ⟨given, under⟩ ran

end Found

theorem callsOf_append (p : ι) (first second : List (IpcAction ι)) :
    callsOf p (first ++ second) = callsOf p first ++ callsOf p second := List.filterMap_append

theorem mem_callsOf {p : ι} {actions : List (IpcAction ι)} {c : IpcCall} :
    c ∈ callsOf p actions ↔ .call p c ∈ actions := by
  refine List.mem_filterMap.trans ⟨?_, fun member => ⟨_, member, if_pos rfl⟩⟩
  rintro ⟨action, member, called⟩
  cases action with
  | call q c' =>
      obtain ⟨rfl, same⟩ := Option.ite_none_right_eq_some.mp called
      cases same
      exact member
  | spawn q => cases called
  | exit q => cases called

/-- A call of a process, where it stands among the actions. -/
theorem exists_call {p : ι} {actions : List (IpcAction ι)} {c : IpcCall}
    {first last : List IpcCall} (calls : callsOf p actions = first ++ c :: last) :
    ∃ before after, actions = before ++ .call p c :: after ∧ callsOf p before = first ∧
      callsOf p after = last := by
  obtain ⟨start, rest, rfl, start_eq, rest_eq⟩ := List.filterMap_eq_append_iff.mp calls
  obtain ⟨skipped, action, after, rfl, none_skipped, called, after_eq⟩ :=
    List.filterMap_eq_cons_iff.mp rest_eq
  have skipped_eq : callsOf p skipped = [] := List.filterMap_eq_nil_iff.mpr none_skipped
  have before_eq : callsOf p (start ++ skipped) = first := by
    rw [callsOf_append, skipped_eq, List.append_nil]
    exact start_eq
  cases action with
  | call q c' =>
      obtain ⟨rfl, same⟩ := Option.ite_none_right_eq_some.mp called
      cases same
      exact ⟨start ++ skipped, after, (List.append_assoc ..).symm, before_eq, after_eq⟩
  | spawn q => cases called
  | exit q => cases called

/-- Two calls of a process, with its calls between them. -/
theorem exists_calls {p : ι} {actions : List (IpcAction ι)} {c d : IpcCall}
    {first between last : List IpcCall}
    (calls : callsOf p actions = first ++ c :: (between ++ d :: last)) :
    ∃ before middle after, actions = before ++ .call p c :: (middle ++ .call p d :: after) ∧
      callsOf p middle = between := by
  obtain ⟨before, rest, rfl, -, rest_eq⟩ := exists_call calls
  obtain ⟨middle, after, rfl, middle_eq, -⟩ := exists_call rest_eq
  exact ⟨before, middle, after, rfl, middle_eq⟩

/-- What a start that gives up calls. -/
def giveUp (created : HostReading) : List IpcCall := sharedMemoryCreate created ++ ipcRemove

/-- What it removes it has found before. -/
theorem exists_get_remove (created : HostReading) {key : IpcKey}
    (notSimulators : key ≠ .simulatorsState) :
    ∃ first between last,
      giveUp created = first ++ .get key true :: (between ++ .remove key :: last) ∧
      between.all (fun c => !c.finds key) = true := by
  cases key with
  | timersState =>
      exact ⟨(giveUp created).take 0, ((giveUp created).drop 1).take 15,
        (giveUp created).drop 17, rfl, rfl⟩
  | tdf =>
      exact ⟨(giveUp created).take 2, ((giveUp created).drop 3).take 16,
        (giveUp created).drop 20, rfl, rfl⟩
  | simulatorsState => exact absurd rfl notSimulators
  | gostop =>
      exact ⟨(giveUp created).take 6, ((giveUp created).drop 7).take 13,
        (giveUp created).drop 21, rfl, rfl⟩

/-- What is known of objects that a second start has removed. -/
structure Ipc.Taken (s : Ipc ι) (known : IpcKey → ℕ) : Prop where
  gone : ∀ key, key ≠ .simulatorsState → (s.registry key).current ≠ some (known key)
  setval : ∀ p process value, s.processes p = some process →
    process.ids .gostop = some (known .gostop) →
    ipcStep s (.call p (semaphoreSetval value)) = some (s.exit p)
  waits : ∀ p process, s.processes p = some process →
    process.ids .gostop = some (known .gostop) → ipcStep s (.call p .waitForZero) = some (s.exit p)
  removes : ∀ p process, s.processes p = some process →
    process.ids .gostop = some (known .gostop) →
    ipcStep s (.call p (.remove .gostop)) = some (s.exit p)

theorem taken_of_gone {s : Ipc ι} {known : IpcKey → ℕ} (sound : s.Sound)
    (gone : ∀ key, key ≠ .simulatorsState → (s.registry key).Gone (known key)) :
    s.Taken known := by
  have missing := objects_of_gone sound (gone .gostop nofun)
  refine ⟨fun key notSimulators => (gone key notSimulators).2, ?_, ?_, ?_⟩
  · intro p process value runs found
    have object : process.object .gostop = some (known .gostop) := found
    simp [ipcStep, runs, semaphoreSetval, Ipc.perform, object, missing]
  · intro p process runs found
    simp [ipcStep, runs, Ipc.perform, found, missing]
  · intro p process runs found
    simp [ipcStep, runs, Ipc.perform, found, missing, IpcKey.isSegment]

/-- **A second start takes the objects of an agent away.** From every state in which an agent
has found its objects, and whatever else happens: once another agent has created the shared
memory and, as its servers cannot be set up, removed it again, the segments of the clock and
of the factor, and the semaphores, are under their keys no more, now or later, and each
process that has found the semaphores ends with its next call for them. -/
theorem second_start_removes_objects (before actions later : List (IpcAction ι)) (s t u : Ipc ι)
    (ranBefore : run ipcStep .initial before = some s) (first second : ι) (agent : IpcProcess)
    (known : IpcKey → ℕ) (runs : s.processes first = some agent)
    (knows : ∀ key, agent.ids key = some (known key)) (created : HostReading)
    (calls : callsOf second actions = giveUp created) (noSpawn : .spawn second ∉ actions)
    (ran : run ipcStep s actions = some t) (ranLater : run ipcStep t later = some u) :
    u.Taken known := by
  have sound := Ipc.sound_initial.of_run ranBefore
  refine taken_of_gone ((sound.of_run ran).of_run ranLater) ?_
  intro key notSimulators
  obtain ⟨start, between, last, program, finds⟩ := exists_get_remove created notSimulators
  rw [program] at calls
  obtain ⟨prior, middle, after, rfl, middle_eq⟩ := exists_calls calls
  have noGet : ∀ c ∈ callsOf second middle, c.finds key = false := by
    intro c member
    rw [middle_eq] at member
    simpa using List.all_eq_true.mp finds c member
  have noSpawn : .spawn second ∉ middle := by
    intro member
    exact noSpawn (List.mem_append_right _ (List.mem_cons_of_mem _ (List.mem_append_left _ member)))
  have given := sound.found first agent key (known key) runs (knows key)
  exact gone_of_run (gone_of_get_remove sound given ran noSpawn noGet) ranLater

/-- An agent has started, and a second one comes. -/
def startedOnce : List (IpcAction Bool) :=
  .spawn true :: (sharedMemoryCreate ⟨7, 5⟩).map (.call true) ++ [.spawn false]

theorem second_start_removes_objects_twice :
    ∃ s t, run ipcStep .initial startedOnce = some s ∧
      run ipcStep s ((giveUp ⟨9, 8⟩).map (.call false)) = some t ∧ t.Taken fun _ => 0 := by
  obtain ⟨s, ranBefore, found, goesOn⟩ :
      ∃ s, run ipcStep .initial startedOnce = some s ∧
        ((s.processes true).any fun agent =>
          [IpcKey.timersState, .tdf, .simulatorsState, .gostop].all fun key =>
            agent.ids key == some 0) = true ∧
        (run ipcStep s ((giveUp ⟨9, 8⟩).map (.call false))).isSome = true := by
    apply exists_of_any
    decide +kernel
  obtain ⟨t, ran⟩ := Option.isSome_iff_exists.mp goesOn
  obtain ⟨agent, runs, knows⟩ := (Option.any_eq_true _ _).mp found
  refine ⟨s, t, ranBefore, ran, second_start_removes_objects startedOnce _ [] s t t ranBefore
    true false agent _ runs ?_ ⟨9, 8⟩ rfl (by simp) ran rfl⟩
  intro key
  refine eq_of_beq (List.all_eq_true.mp knows key ?_)
  cases key <;> decide

end VirtualAgent
