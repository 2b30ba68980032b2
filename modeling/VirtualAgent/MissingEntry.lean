import VirtualAgent.VirtualTime

/-!
# Pointers of the tables

`setFlagKeep` looks its interface up with `operator[]`, so on a name that is not in
the table it reads through a null pointer. Every other statement, and the pass over
the interface table, meets no fault on tables without null pointers, and leaves such
tables (`exec_ok`, `NonNull.exec`, `NonNull.updateCycle`).

So a history has no fault exactly when every Protocol-2 message of it names an
interface that is in the table when the message comes
(`run_nonNull_iff_meets_namesEntry`).
-/

set_option autoImplicit false

namespace VirtualAgent

open CText Outcome Transition
open Std (ExtTreeMap)

/-- No pointer of either table is null. -/
structure Agent.NonNull (a : Agent) : Prop where
  tdfMap : VirtualAgent.NonNull a.tdfTable.tdfMap
  ifaceAttrMap : VirtualAgent.NonNull a.ifaceAttrTable.ifaceAttrMap

theorem nonNull_initial (created : HostReading) : (Agent.initial created).NonNull :=
  ⟨nonNull_empty, nonNull_empty⟩

/-! ## What statements need and leave -/

/-- The interface a statement looks up is in the table. -/
def Statement.NamesEntry (a : Agent) : Statement → Prop
  | .setFlagKeep ifaceName _ => ifaceName ∈ a.ifaceAttrTable.ifaceAttrMap
  | _ => True

instance (a : Agent) : DecidablePred (Statement.NamesEntry a)
  | .setFlagKeep ifaceName _ =>
      inferInstanceAs (Decidable (ifaceName ∈ a.ifaceAttrTable.ifaceAttrMap))
  | .tdfTableSet _ _ | .ifaceAttrTableSet _ _ _ | .changeInterfaceAttribute _ _ _
  | .replaceInterfaceAttribute _ _ _ _ | .enforceTdf _ | .enableTable | .disableTable | .clear
  | .configure _ | .cpuDisableTicks | .cpuEnableTicks | .semaphoreSetval _ =>
      inferInstanceAs (Decidable True)

section

variable {a next : Agent} {host : HostReading} {notified : Bool}

theorem Agent.NonNull.exec (nonNull : a.NonNull) {statement : Statement}
    (done : statement.exec a host = .ok (next, notified)) : next.NonNull := by
  obtain ⟨tdfMap, ifaceAttrMap⟩ := nonNull
  cases statement with
  | tdfTableSet hostname tdf =>
      obtain ⟨tdfTable, set, rfl⟩ := exec_tdfTableSet.mp done
      refine ⟨?_, ifaceAttrMap⟩
      rw [TdfTable.set_tdfMap set]
      exact tdfMap.insert hostname ⟨tdf⟩
  | setFlagKeep ifaceName flagKeep =>
      obtain ⟨ifaceAttrTable, set, rfl, -⟩ := exec_setFlagKeep.mp done
      obtain ⟨entry, -, rfl⟩ := InterfaceAttributeTable.setFlagKeep_eq_ok.mp set
      exact ⟨tdfMap, ifaceAttrMap.insert ifaceName _⟩
  | ifaceAttrTableSet ifaceName rate delay =>
      cases done
      exact ⟨tdfMap, ifaceAttrMap.insert ifaceName _⟩
  | clear =>
      cases done
      exact ⟨nonNull_empty, ifaceAttrMap⟩
  | _ =>
      cases done
      exact ⟨tdfMap, ifaceAttrMap⟩

/-- **The only fault of a statement** is an interface that is not in the table. -/
theorem exec_ok (nonNull : a.NonNull) (host : HostReading) (statement : Statement) :
    (∃ result, statement.exec a host = .ok result) ↔ statement.NamesEntry a := by
  cases statement with
  | tdfTableSet hostname tdf =>
      obtain ⟨tdfTable, notified, set⟩ := TdfTable.set_ok nonNull.tdfMap
        a.configuration.tdfChangeThreshold hostname tdf
      exact iff_of_true ⟨_, exec_tdfTableSet.mpr ⟨tdfTable, set, rfl⟩⟩ trivial
  | setFlagKeep ifaceName flagKeep =>
      constructor
      · rintro ⟨⟨next, notified⟩, done⟩
        obtain ⟨ifaceAttrTable, set, -⟩ := exec_setFlagKeep.mp done
        obtain ⟨entry, found, -⟩ := InterfaceAttributeTable.setFlagKeep_eq_ok.mp set
        exact ExtTreeMap.mem_iff_isSome_getElem?.mpr (by simp [found])
      · intro member
        obtain ⟨pointer, found⟩ :=
          Option.isSome_iff_exists.mp (ExtTreeMap.mem_iff_isSome_getElem?.mp member)
        obtain ⟨entry, rfl⟩ : ∃ entry, pointer = some entry :=
          Option.ne_none_iff_exists'.mp fun null => nonNull.ifaceAttrMap ifaceName (null ▸ found)
        exact ⟨_, exec_setFlagKeep.mpr
          ⟨_, InterfaceAttributeTable.setFlagKeep_eq_ok.mpr ⟨entry, found, rfl⟩, rfl, rfl⟩⟩
  | _ => exact iff_of_true ⟨_, rfl⟩ trivial

theorem Agent.NonNull.execAll (nonNull : a.NonNull) {statements : List Statement}
    (done : execAll a host statements = .ok next) : next.NonNull := by
  refine foldlM_invariant Agent.NonNull ?_ nonNull done
  intro s statement after _ kept stepped
  obtain ⟨notified, executed⟩ := exec_of_step stepped
  exact kept.exec executed

theorem execAll_ok (nonNull : a.NonNull) {statements : List Statement}
    (total : ∀ statement ∈ statements, ∀ s : Agent, statement.NamesEntry s) :
    ∃ next, execAll a host statements = .ok next := by
  have succeeds : ∀ s statement, statement ∈ statements → s.NonNull →
      ∃ after, (do return (← statement.exec s host).1) = .ok after ∧ after.NonNull := by
    intro s statement member kept
    obtain ⟨⟨after, notified⟩, executed⟩ := (exec_ok kept host statement).mpr (total _ member s)
    exact ⟨after, bind_eq_ok.mpr ⟨_, executed, rfl⟩, kept.exec executed⟩
  obtain ⟨next, done, -⟩ := foldlM_ok succeeds nonNull
  exact ⟨next, done⟩

/-! ## Events -/

theorem NonNull.filter {β : Type} {m : PointerMap β} (nonNull : VirtualAgent.NonNull m)
    (keep : CString → Option β → Bool) : VirtualAgent.NonNull (m.filter keep) := by
  intro name null
  rw [ExtTreeMap.getElem?_filter'] at null
  exact nonNull name (Option.filter_eq_some_iff.mp null).1

theorem Agent.NonNull.updateCycle (nonNull : a.NonNull) {suspendAt resumeAt : HostReading}
    (done : a.updateCycle suspendAt resumeAt = .ok next) : next.NonNull := by
  obtain ⟨ifaceAttrTable, commands, passed, tdfTable_eq, ifaceAttrTable_eq, -⟩ :=
    Agent.updateCycle_ok done
  rw [updateInterfaceAttribute_eq nonNull.ifaceAttrMap] at passed
  cases passed
  refine ⟨tdfTable_eq ▸ nonNull.tdfMap, ?_⟩
  rw [ifaceAttrTable_eq]
  exact nonNull.ifaceAttrMap.filter _

/-- **The only fault of an event** is a Protocol-2 message with an interface that is
not in the table. -/
theorem perform_ok (nonNull : a.NonNull) (event : Event) :
    (∃ next, event.perform a = .ok next) ↔
      ∀ statement ∈ statementsOf event.message, statement.NamesEntry a := by
  rcases event.perform_eq a with ⟨suspendAt, resumeAt, rfl⟩ | ⟨host, performed⟩
  · refine iff_of_true ?_ (by simp [Event.message, statementsOf])
    exact Agent.updateCycle_of_pass (updateInterfaceAttribute_eq nonNull.ifaceAttrMap _) _ _
  · rw [performed]
    cases event.message with
    | none => exact iff_of_true ⟨a, rfl⟩ (by simp [statementsOf])
    | some message =>
        cases message with
        | eraseInterface ifaceName =>
            have lookup := exec_ok nonNull host (.setFlagKeep ifaceName false)
            constructor
            · rintro ⟨next, done⟩
              obtain ⟨notified, executed⟩ := execAll_singleton.mp done
              simpa [statementsOf, Message.statements] using lookup.mp ⟨_, executed⟩
            · intro named
              obtain ⟨⟨next, notified⟩, executed⟩ := lookup.mpr (named _ List.mem_cons_self)
              exact ⟨next, execAll_singleton.mpr ⟨notified, executed⟩⟩
        | configure settings =>
            have total : ∀ statement ∈ statementsOf (some (.configure settings)),
                ∀ s : Agent, statement.NamesEntry s := by
              simp [statementsOf, Message.statements, Statement.NamesEntry]
            exact iff_of_true (execAll_ok nonNull total) fun _ member => total _ member a
        | _ =>
            refine iff_of_true (execAll_ok nonNull ?_) ?_ <;>
              simp [statementsOf, Message.statements, Statement.NamesEntry]

theorem Agent.NonNull.perform (nonNull : a.NonNull) {event : Event}
    (done : event.perform a = .ok next) : next.NonNull := by
  rcases event.perform_eq a with ⟨suspendAt, resumeAt, rfl⟩ | ⟨host, performed⟩
  · exact nonNull.updateCycle done
  · exact nonNull.execAll (performed ▸ done)

end

/-! ## Histories -/

/-- No history ends with a null pointer in a table. -/
theorem nonNull_of_run {created : HostReading} {events : List Event} {a : Agent}
    (ran : run eventStep (Agent.initial created) events = some a) : a.NonNull := by
  refine run_invariant Agent.NonNull ?_ (nonNull_initial created) ran
  intro s event next nonNull stepped
  exact nonNull.perform (eventStep_eq_some.mp stepped)

/-- A history whose Protocol-2 messages name interfaces of the table runs to its end. -/
theorem exists_run_of_namesEntry {events : List Event} {a : Agent} (nonNull : a.NonNull)
    (named : Meets eventStep
      (fun a event => ∀ statement ∈ statementsOf event.message, statement.NamesEntry a) a events) :
    ∃ after, run eventStep a events = some after := by
  induction events generalizing a with
  | nil => exact ⟨a, rfl⟩
  | cons event rest ih =>
      obtain ⟨next, performed⟩ := (perform_ok nonNull event).mpr named.1
      have stepped := eventStep_eq_some.mpr performed
      obtain ⟨after, later⟩ := ih (nonNull.perform performed) (named.2 next stepped)
      exact ⟨after, run_cons_eq_some.mpr ⟨next, stepped, later⟩⟩

/-- What runs to its end has only such messages. -/
theorem namesEntry_of_run {events : List Event} {a after : Agent} (nonNull : a.NonNull)
    (ran : run eventStep a events = some after) :
    Meets eventStep
      (fun a event => ∀ statement ∈ statementsOf event.message, statement.NamesEntry a)
      a events := by
  induction events generalizing a with
  | nil => trivial
  | cons event rest ih =>
      obtain ⟨next, stepped, later⟩ := run_cons_eq_some.mp ran
      have performed := eventStep_eq_some.mp stepped
      refine ⟨(perform_ok nonNull event).mp ⟨next, performed⟩, ?_⟩
      intro other same
      obtain rfl : next = other := Option.some.inj (stepped.symm.trans same)
      exact ih (nonNull.perform performed) later

/-- **A history runs without a fault, with no null pointer in either table, exactly
when every Protocol-2 message in it names an interface that is then in the table.** -/
theorem run_nonNull_iff_meets_namesEntry (created : HostReading) (events : List Event) :
    (∃ a, run eventStep (Agent.initial created) events = some a ∧ a.NonNull) ↔
      Meets eventStep
        (fun a event => ∀ statement ∈ statementsOf event.message, statement.NamesEntry a)
        (Agent.initial created) events := by
  constructor
  · rintro ⟨a, ran, -⟩
    exact namesEntry_of_run (nonNull_initial created) ran
  · intro named
    obtain ⟨a, ran⟩ := exists_run_of_namesEntry (nonNull_initial created) named
    exact ⟨a, ran, nonNull_of_run ran⟩

/-- Deleting an interface nobody has added reads through a null pointer. -/
theorem eraseInterface_unknown :
    (Event.tcp (ascii "2|eth0") ⟨1, 1⟩).perform (Agent.initial ⟨0, 0⟩) = .error .nullEntry ∧
      ¬ ∃ a, run eventStep (Agent.initial ⟨0, 0⟩) [.tcp (ascii "2|eth0") ⟨1, 1⟩] = some a ∧
        a.NonNull := by
  have faulted : (Event.tcp (ascii "2|eth0") ⟨1, 1⟩).perform (Agent.initial ⟨0, 0⟩) =
      .error .nullEntry := by decide +kernel
  refine ⟨faulted, ?_⟩
  rintro ⟨a, ran, -⟩
  obtain ⟨next, stepped, -⟩ := run_cons_eq_some.mp ran
  rw [eventStep_eq_some, faulted] at stepped
  cases stepped

end VirtualAgent
