import VirtualAgent.SecondStart

/-!
# What is left of the shared objects

An agent creates the objects when it starts and removes them when it stops; a guest attaches
them and detaches them again. Each makes the calls of the source in their order, with its
stores and waits in between, and each may end before it is through.

`nothing_left` says what there is after any order of the calls of such processes. If each
agent that has looked for an object comes to its removal, the object is there only while a
running process has it attached, and when all have ended there is none. The segment of the
simulators is another matter: `__ipc_remove` detaches it only, so it stays from the first
start on.
-/

set_option autoImplicit false

namespace VirtualAgent

open Transition KeyedObjects

variable {ι : Type} [DecidableEq ι]

/-! ## The lives of the processes -/

/-- What a process does with the objects between finding them and giving them up. -/
def IpcCall.isUse : IpcCall → Bool
  | .store _ _ => true
  | .waitForZero => true
  | _ => false

/-- The calls of an agent from its start to its stop. -/
def agentLife (created : HostReading) (uses : List IpcCall) : List IpcCall :=
  sharedMemoryCreate created ++ uses ++ ipcRemove

/-- The calls of a guest: `timers_state_attach`, and at its end `timers_state_detach`. -/
def guestLife (uses : List IpcCall) : List IpcCall := ipcAttach ++ uses ++ ipcDetach

/-- The calls are those of an agent or of a guest, as far as it comes. -/
inductive IsLife (calls : List IpcCall) : Prop where
  | agent (created : HostReading) (uses : List IpcCall) (used : ∀ c ∈ uses, c.isUse = true)
      (comes : calls <+: agentLife created uses)
  | guest (uses : List IpcCall) (used : ∀ c ∈ uses, c.isUse = true)
      (comes : calls <+: guestLife uses)

/-- The processes started, in order. -/
def spawned (actions : List (IpcAction ι)) : List ι :=
  actions.filterMap fun
    | .spawn p => some p
    | _ => none

/-- Each name is that of one process, which is an agent or a guest. -/
structure Lives (actions : List (IpcAction ι)) : Prop where
  once : (spawned actions).Nodup
  life : ∀ p, IsLife (callsOf p actions)

/-- The call removes the object of a key. -/
def IpcCall.removes (key : IpcKey) : IpcCall → Bool
  | .remove other => other == key
  | _ => false

theorem finds_of_isUse {c : IpcCall} (use : c.isUse = true) (key : IpcKey) :
    c.finds key = false := by
  cases c <;> first | rfl | cases use

/-- Once the objects are found, an agent only uses them until it gives them up. -/
theorem agentLife_eq (created : HostReading) {uses : List IpcCall}
    (used : ∀ c ∈ uses, c.isUse = true) :
    ∃ between, agentLife created uses = ipcCreate ++ (between ++ ipcRemove) ∧
      ∀ c ∈ between, c.isUse = true := by
  have stores : ((sharedMemoryCreate created).drop ipcCreate.length).all IpcCall.isUse = true :=
    rfl
  have create_eq : sharedMemoryCreate created =
      ipcCreate ++ (sharedMemoryCreate created).drop ipcCreate.length := rfl
  refine ⟨(sharedMemoryCreate created).drop ipcCreate.length ++ uses, ?_, ?_⟩
  · rw [agentLife, create_eq]
    simp
  · intro c member
    rcases List.mem_append.mp member with member | member
    · exact List.all_eq_true.mp stores c member
    · exact used c member

/-- An agent looks for an object once, and does not remove it before. -/
theorem exists_get_of_agentLife (created : HostReading) {uses : List IpcCall}
    (used : ∀ c ∈ uses, c.isUse = true) (key : IpcKey) :
    ∃ first last, agentLife created uses = first ++ .get key true :: last ∧
      (∀ c ∈ first, c.finds key = false ∧ c.removes key = false) ∧
      ∀ c ∈ last, c.finds key = false := by
  have create_eq : ∃ first rest, ipcCreate = first ++ .get key true :: rest ∧
      first.all (fun c => !c.finds key && !c.removes key) = true ∧
      rest.all (fun c => !c.finds key) = true := by
    cases key with
    | timersState => exact ⟨ipcCreate.take 0, ipcCreate.drop 1, rfl, rfl, rfl⟩
    | tdf => exact ⟨ipcCreate.take 2, ipcCreate.drop 3, rfl, rfl, rfl⟩
    | simulatorsState => exact ⟨ipcCreate.take 4, ipcCreate.drop 5, rfl, rfl, rfl⟩
    | gostop => exact ⟨ipcCreate.take 6, ipcCreate.drop 7, rfl, rfl, rfl⟩
  obtain ⟨first, rest, create_eq, before, after⟩ := create_eq
  obtain ⟨between, life_eq, onlyUses⟩ := agentLife_eq created used
  refine ⟨first, rest ++ (between ++ ipcRemove), by simp [life_eq, create_eq], ?_, ?_⟩
  · intro c member
    simpa using List.all_eq_true.mp before c member
  · intro c member
    rcases List.mem_append.mp member with member | member
    · simpa using List.all_eq_true.mp after c member
    rcases List.mem_append.mp member with member | member
    · exact finds_of_isUse (onlyUses c member) key
    · have none_found : ipcRemove.all (fun c => !c.finds key) = true := rfl
      simpa using List.all_eq_true.mp none_found c member

/-- A guest creates nothing. -/
theorem get_notMem_guestLife {uses : List IpcCall} (used : ∀ c ∈ uses, c.isUse = true)
    (key : IpcKey) : .get key true ∉ guestLife uses := by
  intro member
  rcases List.mem_append.mp member with member | member
  · rcases List.mem_append.mp member with member | member
    · simp [ipcAttach, ipcGet, IpcKey.isSegment] at member
    · cases used _ member
  · simp [ipcDetach] at member

/-- No process removes the segment of the simulators. -/
theorem remove_notMem_of_isLife {calls : List IpcCall} (life : IsLife calls) :
    .remove .simulatorsState ∉ calls := by
  intro member
  cases life with
  | agent created uses used comes =>
      obtain ⟨between, life_eq, onlyUses⟩ := agentLife_eq created used
      have member := life_eq ▸ comes.subset member
      rcases List.mem_append.mp member with member | member
      · simp [ipcCreate, ipcGet, IpcKey.isSegment] at member
      rcases List.mem_append.mp member with member | member
      · cases onlyUses _ member
      · simp [ipcRemove] at member
  | guest uses used comes =>
      rcases List.mem_append.mp (comes.subset member) with member | member
      · rcases List.mem_append.mp member with member | member
        · simp [ipcAttach, ipcGet, IpcKey.isSegment] at member
        · cases used _ member
      · simp [ipcDetach] at member

/-! ## Who has created an object -/

section Creation

variable {s next : Ipc ι} {key : IpcKey} {id : ℕ} {p : ι}

/-- The objects of a key are created by a call that looks for one and may create it. -/
theorem creates_of_step {action : IpcAction ι} (stepped : ipcStep s action = some next)
    (fresh : ¬ id < (s.registry key).created) (given : id < (next.registry key).created) :
    ∃ p, action = .call p (.get key true) ∧ (next.registry key).current = some id := by
  cases action with
  | spawn p =>
      obtain ⟨-, returned⟩ := Option.ite_none_right_eq_some.mp stepped
      cases returned
      exact absurd given fresh
  | exit p =>
      obtain ⟨process, -, rfl⟩ := Option.map_eq_some_iff.mp stepped
      exact absurd given fresh
  | call p c =>
      obtain ⟨process, -, performed⟩ := Option.bind_eq_some_iff.mp stepped
      have same_of_registry : ∀ {after : IpcProcess} {other : IpcKey}
          {registry : Registry ι other.Content}, registry.created = (s.registry other).created →
          ¬ id < ((s.update p after other registry).registry key).created := by
        intro after other registry created_eq
        by_cases same : key = other
        · subst same
          rwa [Ipc.update_registry_self, created_eq]
        · rwa [Ipc.update_registry_of_ne same]
      cases perform_effect performed with
      | ended => exact absurd given fresh
      | unchanged => exact absurd given fresh
      | attached other => exact absurd given (same_of_registry rfl)
      | detached other => exact absurd given (same_of_registry rfl)
      | removed other => exact absurd given (same_of_registry rfl)
      | stored other => exact absurd given (same_of_registry rfl)
      | found other create ready =>
          by_cases same : key = other
          · subst same
            rw [Ipc.update_registry_self] at given ⊢
            cases under : (s.registry key).current with
            | some old =>
                rw [Registry.create_of_current under] at given
                exact absurd given fresh
            | none =>
                obtain rfl : create = true := ready under
                simp only [Registry.create, under] at given ⊢
                exact ⟨p, rfl, congrArg some (by omega)⟩
          · rw [Ipc.update_registry_of_ne same] at given
            exact absurd given fresh

/-- There is an object once a process has looked for one that it may create. -/
theorem exists_current_of_get (got : ipcStep s (.call p (.get key true)) = some next) :
    ∃ id, (next.registry key).current = some id := by
  obtain ⟨process, -, performed⟩ := Option.bind_eq_some_iff.mp got
  simp only [Ipc.perform, Bool.true_eq_false, and_false, if_false, Option.some.injEq] at performed
  subst performed
  rw [Ipc.update_registry_self]
  exact ⟨_, Registry.current_create _ _⟩

/-- Somewhere in a run stands the call that has created an object. -/
theorem exists_creates {t : Ipc ι} {actions : List (IpcAction ι)}
    (ran : run ipcStep s actions = some t) (fresh : ¬ id < (s.registry key).created)
    (given : id < (t.registry key).created) :
    ∃ before p after middle next, actions = before ++ .call p (.get key true) :: after ∧
      run ipcStep s before = some middle ∧
      ipcStep middle (.call p (.get key true)) = some next ∧
      (next.registry key).current = some id ∧ run ipcStep next after = some t := by
  induction actions generalizing s with
  | nil =>
      cases ran
      exact absurd given fresh
  | cons action rest ih =>
      obtain ⟨next, stepped, ranRest⟩ := run_cons_eq_some.mp ran
      by_cases now : id < (next.registry key).created
      · obtain ⟨p, rfl, under⟩ := creates_of_step stepped fresh now
        exact ⟨[], p, rest, s, next, rfl, rfl, stepped, under, ranRest⟩
      · obtain ⟨before, p, after, middle, last, rfl, ranBefore, got, under, ranAfter⟩ :=
          ih ranRest now
        exact ⟨action :: before, p, after, middle, last, rfl,
          run_cons_eq_some.mpr ⟨next, stepped, ranBefore⟩, got, under, ranAfter⟩

/-- A process that runs has been started. -/
theorem mem_spawned_of_runs {actions : List (IpcAction ι)} {process : IpcProcess}
    (ran : run ipcStep .initial actions = some s) (runs : s.processes p = some process) :
    p ∈ spawned actions := by
  by_contra absent
  have others : ∀ action ∈ actions, ∀ _ : Ipc ι, action ≠ .spawn p := by
    rintro action member _ rfl
    exact absent (List.mem_filterMap.mpr ⟨_, member, rfl⟩)
  have none_runs : s.processes p = none := by
    refine run_invariant_of_meets (fun s : Ipc ι => s.processes p = none) ?_ rfl
      (meets_of_forall others .initial) ran
    intro s action next absent other stepped
    cases action with
    | spawn q =>
        have apart : p ≠ q := fun same => other (same ▸ rfl)
        obtain ⟨-, returned⟩ := Option.ite_none_right_eq_some.mp stepped
        cases returned
        exact (Function.update_of_ne apart _ _).trans absent
    | exit q =>
        obtain ⟨process, runs, rfl⟩ := Option.map_eq_some_iff.mp stepped
        have apart : p ≠ q := by
          rintro rfl
          cases absent.symm.trans runs
        exact (Ipc.exit_processes_of_ne apart).trans absent
    | call q c =>
        obtain ⟨process, runs, performed⟩ := Option.bind_eq_some_iff.mp stepped
        have apart : p ≠ q := by
          rintro rfl
          cases absent.symm.trans runs
        cases perform_effect performed with
        | ended => exact (Ipc.exit_processes_of_ne apart).trans absent
        | unchanged => exact absent
        | found => exact (Ipc.update_processes_of_ne apart).trans absent
        | attached => exact (Ipc.update_processes_of_ne apart).trans absent
        | detached => exact (Ipc.update_processes_of_ne apart).trans absent
        | removed => exact (Ipc.update_processes_of_ne apart).trans absent
        | stored => exact (Ipc.update_processes_of_ne apart).trans absent
  rw [none_runs] at runs
  cases runs

end Creation

/-! ## What is under the keys -/

section Under

variable {s : Ipc ι} {actions : List (IpcAction ι)} {key : IpcKey}

/-- Who creates an object is an agent, and removes it later if at all. -/
theorem IsLife.of_creates {before after : List IpcCall}
    (life : IsLife (before ++ .get key true :: after)) :
    (∀ c ∈ before, c.removes key = false) ∧ ∀ c ∈ after, c.finds key = false := by
  cases life with
  | guest uses used comes =>
      exact absurd (comes.subset (by simp)) (get_notMem_guestLife used key)
  | agent created uses used comes =>
      obtain ⟨first, last, life_eq, none_before, none_after⟩ :=
        exists_get_of_agentLife created used key
      obtain ⟨rest, rest_eq⟩ := comes
      have finds : (IpcCall.get key true).finds key = true := beq_self_eq_true key
      have notFirst : IpcCall.get key true ∉ first := fun member =>
        Bool.false_ne_true ((none_before _ member).1.symm.trans finds)
      have notLast : IpcCall.get key true ∉ last := fun member =>
        Bool.false_ne_true ((none_after _ member).symm.trans finds)
      rw [life_eq, List.append_assoc, List.cons_append] at rest_eq
      obtain ⟨rfl, -, rfl⟩ := (List.append_cons_inj_of_notMem notFirst notLast).mp rest_eq.symm
      exact ⟨fun c member => (none_before c member).2,
        fun c member => none_after c (List.mem_append_left _ member)⟩

/-- **What all its finders have removed is under its key no more.** -/
theorem current_eq_none (lives : Lives actions) (ran : run ipcStep .initial actions = some s)
    (removed : ∀ p, .get key true ∈ callsOf p actions → .remove key ∈ callsOf p actions) :
    (s.registry key).current = none := by
  by_contra under
  obtain ⟨id, under⟩ := Option.ne_none_iff_exists'.mp under
  have given := ((Ipc.sound_initial.of_run ran).wellFormed key).lt_created under
  obtain ⟨before, p, after, middle, next, rfl, ranBefore, got, found, ranAfter⟩ :=
    exists_creates ran (Nat.not_lt_zero id) given
  obtain ⟨process, runs, -⟩ := Option.bind_eq_some_iff.mp got
  -- the agent that has created the object comes to its removal
  have calls_eq : callsOf p (before ++ .call p (.get key true) :: after) =
      callsOf p before ++ .get key true :: callsOf p after := by
    simp [callsOf]
  have order := (calls_eq ▸ lives.life p).of_creates
  have comes := removed p (by simp [calls_eq])
  have later : .remove key ∈ callsOf p after := by
    rw [calls_eq] at comes
    rcases List.mem_append.mp comes with early | ⟨⟩ | ⟨_, late⟩
    · have removes : (IpcCall.remove key).removes key = true := beq_self_eq_true key
      exact absurd (removes.symm.trans (order.1 _ early)) Bool.true_eq_false_eq_False
    · exact late
  obtain ⟨first, last, after_eq⟩ := List.append_of_mem later
  obtain ⟨between, rest, rfl, between_eq, -⟩ := exists_call after_eq
  -- it is started once, so what it has found stays found until then
  have started := mem_spawned_of_runs ranBefore runs
  have noSpawn : .spawn p ∉ between := by
    intro member
    have again : p ∈ spawned between := List.mem_filterMap.mpr ⟨_, member, rfl⟩
    have once := lives.once
    simp only [spawned, List.filterMap_append, List.filterMap_cons] at once started again
    exact (List.nodup_append.mp once).2.2 p started p (List.mem_append_left _ again) rfl
  have noGet : ∀ c ∈ callsOf p between, c.finds key = false := by
    intro c member
    refine order.2 c ?_
    rw [callsOf_append]
    exact List.mem_append_left _ member
  have sound := (Ipc.sound_initial.of_run ranBefore).step got
  have given := (sound.wellFormed key).lt_created found
  exact (gone_of_removed sound given (hasFound_of_get got found) noSpawn noGet ranAfter).2 under

/-- What is not removed stays under its key. -/
theorem current_of_run {t : Ipc ι} {id : ℕ} (under : (s.registry key).current = some id)
    (kept : ∀ p, .call p (.remove key) ∉ actions) (ran : run ipcStep s actions = some t) :
    (t.registry key).current = some id := by
  have others : ∀ action ∈ actions, ∀ _ : Ipc ι, ∀ p, action ≠ .call p (.remove key) := by
    rintro action member _ p rfl
    exact kept p member
  refine run_invariant_of_meets (fun s : Ipc ι => (s.registry key).current = some id) ?_ under
    (meets_of_forall others s) ran
  intro s action next under other stepped
  have same_of_registry : ∀ {p : ι} {process : IpcProcess} {changed : IpcKey}
      {registry : Registry ι changed.Content},
      (key = changed → registry.current = (s.registry changed).current) →
      ((s.update p process changed registry).registry key).current = some id := by
    intro p process changed registry current_eq
    by_cases same : key = changed
    · subst same
      rw [Ipc.update_registry_self, current_eq rfl, under]
    · rw [Ipc.update_registry_of_ne same, under]
  cases action with
  | spawn p =>
      obtain ⟨-, returned⟩ := Option.ite_none_right_eq_some.mp stepped
      cases returned
      exact under
  | exit p =>
      obtain ⟨process, -, rfl⟩ := Option.map_eq_some_iff.mp stepped
      exact under
  | call p c =>
      obtain ⟨process, -, performed⟩ := Option.bind_eq_some_iff.mp stepped
      cases perform_effect performed with
      | ended => exact under
      | unchanged => exact under
      | attached => exact same_of_registry fun _ => rfl
      | detached => exact same_of_registry fun _ => rfl
      | stored => exact same_of_registry fun _ => rfl
      | removed changed =>
          refine same_of_registry ?_
          rintro rfl
          exact absurd rfl (other p)
      | found changed =>
          refine same_of_registry ?_
          rintro rfl
          rw [Registry.create_of_current under]

/-- **The segment of the simulators stays** from the first start of an agent on. -/
theorem simulatorsState_stays (lives : Lives actions)
    (ran : run ipcStep .initial actions = some s) {p : ι}
    (looked : .get .simulatorsState true ∈ callsOf p actions) :
    (s.registry .simulatorsState).current = some 0 := by
  obtain ⟨before, after, actions_eq⟩ := List.append_of_mem (mem_callsOf.mp looked)
  have given : 0 < (s.registry .simulatorsState).created := by
    rw [actions_eq] at ran
    obtain ⟨middle, ranBefore, ran⟩ := run_append_eq_some.mp ran
    obtain ⟨next, got, ranAfter⟩ := run_cons_eq_some.mp ran
    obtain ⟨id, under⟩ := exists_current_of_get got
    have sound := (Ipc.sound_initial.of_run ranBefore).step got
    exact lt_created_of_run
      ((Nat.zero_le id).trans_lt ((sound.wellFormed .simulatorsState).lt_created under)) ranAfter
  obtain ⟨before, q, after, middle, next, rfl, -, -, under, ranAfter⟩ :=
    exists_creates ran (Nat.not_lt_zero 0) given
  refine current_of_run under ?_ ranAfter
  intro r member
  refine remove_notMem_of_isLife (lives.life r) (mem_callsOf.mpr ?_)
  exact List.mem_append_right _ (List.mem_cons_of_mem _ member)

end Under

/-- **What is left of the objects.** In every order of the calls of agents and guests, which
may end at any place: if each agent that has looked for the object of a key has come to its
removal, what is left of the object is what a running process has attached, and nothing if
none has. The segment of the simulators stays under its key. -/
theorem nothing_left (actions : List (IpcAction ι)) (s : Ipc ι) (lives : Lives actions)
    (ran : run ipcStep .initial actions = some s) :
    (∀ key, (∀ p, .get key true ∈ callsOf p actions → .remove key ∈ callsOf p actions) →
      ∀ id, (∃ entry, (s.registry key).objects id = some entry) ↔
        ∃ p process, s.processes p = some process ∧ process.attached key = some id) ∧
    ∀ p, .get .simulatorsState true ∈ callsOf p actions →
      (s.registry .simulatorsState).current = some 0 := by
  refine ⟨?_, fun p looked => simulatorsState_stays lives ran looked⟩
  intro key removed id
  have missing := current_eq_none lives ran removed
  rw [objects_are_held actions s ran key id, missing]
  simp

/-- An agent starts, a guest finds its objects, and the agent stops. -/
def stoppedWhileAttached : List (IpcAction Bool) :=
  .spawn true :: (sharedMemoryCreate ⟨7, 5⟩).map (.call true) ++
    .spawn false :: ipcAttach.map (.call false) ++ ipcRemove.map (.call true) ++ [.exit true]

theorem nothing_left_attached :
    ∃ s, run ipcStep .initial stoppedWhileAttached = some s ∧
      (∃ p process, s.processes p = some process ∧ process.attached .tdf = some 0) ∧
      (s.registry .tdf).current = none ∧ (s.registry .simulatorsState).current = some 0 := by
  have lives : Lives stoppedWhileAttached := by
    refine ⟨by decide, ?_⟩
    intro p
    cases p with
    | true => exact .agent ⟨7, 5⟩ [] (by simp) ⟨[], rfl⟩
    | false => exact .guest [] (by simp) ⟨ipcDetach, rfl⟩
  obtain ⟨s, ran, found, under⟩ :
      ∃ s, run ipcStep .initial stoppedWhileAttached = some s ∧
        ((s.registry .tdf).objects 0).isSome = true ∧ (s.registry .tdf).current = none := by
    apply exists_of_any
    decide +kernel
  obtain ⟨left, stays⟩ := nothing_left stoppedWhileAttached s lives ran
  refine ⟨s, ran, (left .tdf ?_ 0).mp (Option.isSome_iff_exists.mp found), under,
    stays true (List.mem_of_getElem? (i := 4) rfl)⟩
  intro p looked
  cases p with
  | true => simp [stoppedWhileAttached, callsOf, ipcRemove]
  | false => simp [stoppedWhileAttached, callsOf, ipcAttach, ipcGet, IpcKey.isSegment] at looked

end VirtualAgent
