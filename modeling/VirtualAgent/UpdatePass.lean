import VirtualAgent.MissingEntry
import VirtualAgent.PendingDelete

/-!
# One pass over the interface table

`updateInterfaceAttribute` erases from the map it iterates over, by key and through another
reference, after it has moved its iterator on. Without messages in between nothing of
this can be seen from outside: the pass ends, each entry is treated once, in the order of
the names, and the entries to keep are left as they were (`treatsEachOnce`).

So after a pass the table has the interfaces whose last message asks for a rate and a
delay, with these, and no others (`pass_treats_each_once`, which runs any sequence of messages
and passes up to a last pass): a Protocol-2 message leaves the flag cleared until the
next pass, which erases the entry.
-/

set_option autoImplicit false

namespace VirtualAgent

open ExactFloat CText Outcome Transition
open Std (ExtTreeMap LawfulEqCmp)

/-! ## The pass -/

/-- The commands an entry is treated with. -/
def entryCommands (latestTdf : LongDouble) (ifaceName : CString)
    (entry : InterfaceAttributeEntry) : List TcCommand :=
  if entry.flagKeep then changeInterfaceAttribute ifaceName entry.rate entry.delay latestTdf
  else deleteInterfaceAttribute ifaceName

/-- The pass issues the commands of every entry once, in the order of the names, and leaves
the entries to keep as they were. -/
structure TreatsEachOnce (t : InterfaceAttributeTable) (latestTdf : LongDouble)
    (next : InterfaceAttributeTable) (commands : List TcCommand) : Prop where
  issues : ∃ entries : List (CString × InterfaceAttributeEntry),
    entries.Pairwise (fun a b => compare a.1 b.1 = .lt) ∧
    (∀ name entry, (name, entry) ∈ entries ↔ t.ifaceAttrMap[name]? = some (some entry)) ∧
    commands = entries.flatMap fun position => entryCommands latestTdf position.1 position.2
  leaves : ∀ (name : CString) (pointer : Option InterfaceAttributeEntry),
    next.ifaceAttrMap[name]? = some pointer ↔
      ∃ entry : InterfaceAttributeEntry, pointer = some entry ∧
        t.ifaceAttrMap[name]? = some (some entry) ∧ entry.flagKeep = true

/-- The entry behind a position that has one. -/
def entryAt (position : CString × Option InterfaceAttributeEntry) :
    Option (CString × InterfaceAttributeEntry) :=
  position.2.map (Prod.mk position.1)

theorem entryAt_eq_some {position : CString × Option InterfaceAttributeEntry} {name : CString}
    {entry : InterfaceAttributeEntry} :
    entryAt position = some (name, entry) ↔ position = (name, some entry) := by
  obtain ⟨otherName, pointer⟩ := position
  cases pointer <;> simp [entryAt]

/-- Positions without an entry have no treatment. -/
theorem flatMap_treatment_eq (latestTdf : LongDouble)
    (positions : List (CString × Option InterfaceAttributeEntry)) :
    positions.flatMap (treatment latestTdf) =
      (positions.filterMap entryAt).flatMap fun position =>
        entryCommands latestTdf position.1 position.2 := by
  induction positions with
  | nil => rfl
  | cons position rest ih =>
      obtain ⟨name, pointer⟩ := position
      rw [List.flatMap_cons, ih]
      cases pointer with
      | none => rfl
      | some entry =>
          have treated : treatment latestTdf (name, some entry) =
              entryCommands latestTdf name entry := by
            unfold treatment treatmentActions entryCommands
            dsimp only
            split
            · rfl
            · rfl
          rw [treated]
          rfl

/-- **The pass over a table without null pointers treats every entry once.** -/
theorem treatsEachOnce {t : InterfaceAttributeTable} (nonNull : NonNull t.ifaceAttrMap)
    (latestTdf : LongDouble) :
    ∃ next commands, updateInterfaceAttribute t latestTdf = .ok (next, commands) ∧
      TreatsEachOnce t latestTdf next commands := by
  refine ⟨_, _, updateInterfaceAttribute_eq nonNull latestTdf, ?_, ?_⟩
  · refine ⟨t.ifaceAttrMap.toList.filterMap entryAt, ?_, ?_, flatMap_treatment_eq latestTdf _⟩
    · refine List.Pairwise.filterMap entryAt ?_ t.ifaceAttrMap.ordered_keys_toList
      rintro a b less ⟨name, entry⟩ atA ⟨otherName, otherEntry⟩ atB
      obtain rfl := entryAt_eq_some.mp atA
      obtain rfl := entryAt_eq_some.mp atB
      exact less
    · intro name entry
      rw [List.mem_filterMap]
      simp only [entryAt_eq_some, exists_eq_right]
      exact ExtTreeMap.mem_toList_iff_getElem?_eq_some
  · intro name pointer
    rw [ExtTreeMap.getElem?_filter', Option.filter_eq_some_iff]
    constructor
    · rintro ⟨found, kept⟩
      cases pointer with
      | none => cases kept
      | some entry => exact ⟨entry, rfl, found, kept⟩
    · rintro ⟨entry, rfl, found, kept⟩
      exact ⟨found, kept⟩

/-! ## Histories -/

/-- The rate and the delay asked for an interface, after an event. -/
def Event.asked (ifaceName : CString) (before : Option (ℤ × ℤ)) (event : Event) :
    Option (ℤ × ℤ) :=
  event.message.elim before (Message.asked ifaceName before)

/-- **What the last message for an interface asks for**: a rate and a delay, when it is a
Protocol-1 or a Protocol-3 message, and nothing, when it is a Protocol-2 message or there
is none. -/
def askedLast (ifaceName : CString) (events : List Event) : Option (ℤ × ℤ) :=
  events.foldl (Event.asked ifaceName) none

/-- The table has what is asked for an interface, to be kept, and an entry that is not asked
for is to be deleted. -/
structure InterfaceAttributeTable.Follows (t : InterfaceAttributeTable) (ifaceName : CString)
    (asked : Option (ℤ × ℤ)) : Prop where
  keeps : t.Keeps ifaceName asked
  drops : asked = none → ∀ entry : InterfaceAttributeEntry,
    t.ifaceAttrMap[ifaceName]? = some (some entry) → entry.flagKeep = false

section Histories

variable {ifaceName : CString} {asked : Option (ℤ × ℤ)} {a next : Agent}

/-- A message leaves the flag of an interface cleared that it does not set. -/
theorem drops_of_execAll {message : Message} {host : HostReading}
    (drops : asked = none → ∀ entry : InterfaceAttributeEntry,
      a.ifaceAttrTable.ifaceAttrMap[ifaceName]? = some (some entry) → entry.flagKeep = false)
    (done : execAll a host message.statements = .ok next)
    (nothing : message.asked ifaceName asked = none) :
    ∀ entry : InterfaceAttributeEntry,
      next.ifaceAttrTable.ifaceAttrMap[ifaceName]? = some (some entry) →
        entry.flagKeep = false := by
  have set : ∀ (t : InterfaceAttributeTable) (name : CString) (rate delay : ℤ),
      (if name = ifaceName then some (rate, delay) else asked) = none →
        asked = none ∧ (t.set name rate delay).ifaceAttrMap[ifaceName]? =
          t.ifaceAttrMap[ifaceName]? := by
    intro t name rate delay nothing
    by_cases apart : name = ifaceName
    · rw [if_pos apart] at nothing
      cases nothing
    · rw [if_neg apart] at nothing
      exact ⟨nothing, KeyOrder.getElem?_insert_of_ne _ _ (Ne.symm apart)⟩
  cases message with
  | changeInterface name rate delay | replaceInterface name rate delay =>
      cases done
      obtain ⟨before, same⟩ := set a.ifaceAttrTable name rate delay nothing
      intro entry found
      exact drops before entry (same.symm.trans found)
  | eraseInterface name =>
      obtain ⟨notified, executed⟩ := execAll_singleton.mp done
      obtain ⟨ifaceAttrTable, flagged, rfl, -⟩ := exec_setFlagKeep.mp executed
      obtain ⟨old, -, rfl⟩ := InterfaceAttributeTable.setFlagKeep_eq_ok.mp flagged
      intro entry found
      by_cases same : name = ifaceName
      · subst same
        rw [ExtTreeMap.getElem?_insert_self] at found
        cases found
        rfl
      · rw [KeyOrder.getElem?_insert_of_ne _ _ (Ne.symm same)] at found
        rw [Message.asked, if_neg same] at nothing
        exact drops nothing entry found
  | tdfTableSet hostname tdf =>
      obtain ⟨notified, executed⟩ := execAll_singleton.mp done
      obtain ⟨tdfTable, -, rfl⟩ := exec_tdfTableSet.mp executed
      exact drops nothing
  | configure settings =>
      rw [execAll_configure] at done
      cases done
      exact drops nothing
  | _ =>
      cases done
      exact drops nothing

/-- **After a pass the table has what was asked for, and nothing else.** -/
theorem getElem?_of_pass {t after : InterfaceAttributeTable} {latestTdf : LongDouble}
    {commands : List TcCommand} (follows : t.Follows ifaceName asked)
    (treats : TreatsEachOnce t latestTdf after commands) :
    after.ifaceAttrMap[ifaceName]? = asked.map fun (rate, delay) => some { rate, delay } := by
  cases asked with
  | some last => exact (treats.leaves _ _).mpr ⟨_, rfl, follows.keeps last.1 last.2 rfl, rfl⟩
  | none =>
      cases found : after.ifaceAttrMap[ifaceName]? with
      | none => rfl
      | some pointer =>
          obtain ⟨entry, -, present, kept⟩ := (treats.leaves _ _).mp found
          rw [follows.drops rfl entry present] at kept
          cases kept

theorem follows_of_getElem? {t : InterfaceAttributeTable}
    (found : t.ifaceAttrMap[ifaceName]? = asked.map fun (rate, delay) => some { rate, delay }) :
    t.Follows ifaceName asked where
  keeps rate delay last := by rw [found, last, Option.map_some]
  drops nothing entry present := by
    rw [found, nothing, Option.map_none] at present
    cases present

/-- What a cycle leaves in the table. -/
theorem getElem?_of_updateCycle (nonNull : a.NonNull)
    (follows : a.ifaceAttrTable.Follows ifaceName asked) {suspendAt resumeAt : HostReading}
    (done : a.updateCycle suspendAt resumeAt = .ok next) :
    next.ifaceAttrTable.ifaceAttrMap[ifaceName]? =
      asked.map fun (rate, delay) => some { rate, delay } := by
  obtain ⟨table, commands, passed, -, table_eq, -⟩ := Agent.updateCycle_ok done
  obtain ⟨table', commands', passed', treats⟩ :=
    treatsEachOnce nonNull.ifaceAttrMap a.tdfTable.latestTdf
  rw [passed] at passed'
  cases passed'
  rw [table_eq]
  exact getElem?_of_pass follows treats

/-- **Every event keeps the table following the messages.** -/
theorem follows_perform (nonNull : a.NonNull)
    (follows : a.ifaceAttrTable.Follows ifaceName asked) {event : Event}
    (done : event.perform a = .ok next) :
    next.ifaceAttrTable.Follows ifaceName (event.asked ifaceName asked) := by
  rcases event.perform_eq a with ⟨suspendAt, resumeAt, rfl⟩ | ⟨host, performed⟩
  · exact follows_of_getElem? (getElem?_of_updateCycle nonNull follows done)
  · rw [performed] at done
    unfold Event.asked
    cases sent : event.message with
    | none =>
        rw [sent] at done
        cases done
        exact follows
    | some message =>
        rw [sent] at done
        exact ⟨keeps_of_execAll follows.keeps done, drops_of_execAll follows.drops done⟩

theorem follows_initial (created : HostReading) (ifaceName : CString) :
    (Agent.initial created).ifaceAttrTable.Follows ifaceName none where
  keeps rate delay impossible := by cases impossible
  drops _ entry found := by simp [Agent.initial] at found

end Histories

/-- The Protocol-2 message of an event names an interface that is then in the table. -/
def NamesPresent (a : Agent) (event : Event) : Prop :=
  ∀ statement ∈ statementsOf event.message, statement.NamesEntry a

instance (a : Agent) : DecidablePred (NamesPresent a) := fun event =>
  inferInstanceAs (Decidable (∀ statement ∈ statementsOf event.message, statement.NamesEntry a))

/-- **After any history the next pass leaves the interfaces whose last message asks for
them**, with what it asks for. -/
theorem run_pass_follows {created : HostReading} {events : List Event}
    (named : Meets eventStep NamesPresent (Agent.initial created) events)
    (suspendAt resumeAt : HostReading) :
    ∃ a, run eventStep (Agent.initial created) (events ++ [.cycle suspendAt resumeAt]) = some a ∧
      ∀ ifaceName : CString, a.ifaceAttrTable.ifaceAttrMap[ifaceName]? =
        (askedLast ifaceName events).map fun (rate, delay) => some { rate, delay } := by
  obtain ⟨before, ran⟩ := exists_run_of_namesEntry (nonNull_initial created) named
  have nonNull := nonNull_of_run ran
  obtain ⟨a, performed⟩ := Agent.updateCycle_of_pass
    (updateInterfaceAttribute_eq nonNull.ifaceAttrMap _) suspendAt resumeAt
  refine ⟨a, ?_, ?_⟩
  · rw [run_append, ran, Option.bind_some]
    exact run_cons_eq_some.mpr ⟨a, eventStep_eq_some.mpr performed, rfl⟩
  · intro ifaceName
    have invariant := run_invariant_foldl
      (fun (a : Agent) asked => a.NonNull ∧ a.ifaceAttrTable.Follows ifaceName asked)
      (Event.asked ifaceName) (fun s asked event next kept _ stepped => by
        have done := eventStep_eq_some.mp stepped
        exact ⟨kept.1.perform done, follows_perform kept.1 kept.2 done⟩)
      ⟨nonNull_initial created, follows_initial created ifaceName⟩ named ran
    exact getElem?_of_updateCycle nonNull invariant.2 performed

/-- **One pass treats every interface exactly once**, and after it an interface whose last
message is a Protocol-2 message is not in the table. -/
theorem pass_treats_each_once :
    (∀ (t : InterfaceAttributeTable) (latestTdf : LongDouble), NonNull t.ifaceAttrMap →
      ∃ next commands, updateInterfaceAttribute t latestTdf = .ok (next, commands) ∧
        TreatsEachOnce t latestTdf next commands) ∧
    ∀ (created : HostReading) (events : List Event) (suspendAt resumeAt : HostReading),
      Meets eventStep NamesPresent (Agent.initial created) events →
        ∃ a, run eventStep (Agent.initial created) (events ++ [.cycle suspendAt resumeAt]) =
            some a ∧
          ∀ ifaceName : CString, askedLast ifaceName events = none →
            ifaceName ∉ a.ifaceAttrTable.ifaceAttrMap := by
  refine ⟨?_, ?_⟩
  · intro t latestTdf nonNull
    exact treatsEachOnce nonNull latestTdf
  · intro created events suspendAt resumeAt named
    obtain ⟨a, ran, table⟩ := run_pass_follows named suspendAt resumeAt
    refine ⟨a, ran, ?_⟩
    intro ifaceName nothing
    rw [ExtTreeMap.mem_iff_isSome_getElem?, table, nothing]
    exact Bool.false_ne_true

/-- Two interfaces are added, and one of them is deleted. -/
def addAndDelete : List Event :=
  [.tcp (ascii "1|eth0|1000|5") ⟨0, 0⟩, .tcp (ascii "1|eth1|1000|5") ⟨0, 0⟩,
    .tcp (ascii "2|eth0") ⟨0, 0⟩]

/-- An interface to delete and one to keep. -/
def twoInterfaces : InterfaceAttributeTable where
  ifaceAttrMap := ((∅ : PointerMap InterfaceAttributeEntry).insert (ascii "eth0")
    (some ⟨500, 2, false⟩)).insert (ascii "eth1") (some ⟨1000, 5, true⟩)

theorem pass_treats_each_once_eth0 :
    (∃ next commands, updateInterfaceAttribute twoInterfaces (.ofInt 2) = .ok (next, commands) ∧
      TreatsEachOnce twoInterfaces (.ofInt 2) next commands ∧
      commands = deleteInterfaceAttribute (ascii "eth0") ++
        changeInterfaceAttribute (ascii "eth1") 1000 5 (.ofInt 2)) ∧
    ∃ a, run eventStep (Agent.initial ⟨0, 0⟩) (addAndDelete ++ [.cycle ⟨1, 1⟩ ⟨2, 2⟩]) =
        some a ∧ ascii "eth0" ∉ a.ifaceAttrTable.ifaceAttrMap := by
  obtain ⟨next, commands, passed, treats⟩ := pass_treats_each_once.1 twoInterfaces (.ofInt 2)
    ((nonNull_empty.insert _ _).insert _ _)
  obtain ⟨a, ran, absent⟩ := pass_treats_each_once.2 ⟨0, 0⟩ addAndDelete ⟨1, 1⟩ ⟨2, 2⟩
    (by decide +kernel)
  refine ⟨⟨next, commands, passed, treats, ?_⟩, a, ran, absent (ascii "eth0") (by decide +kernel)⟩
  have computed : (updateInterfaceAttribute twoInterfaces (.ofInt 2)).toOption.map Prod.snd =
      some (deleteInterfaceAttribute (ascii "eth0") ++
        changeInterfaceAttribute (ascii "eth1") 1000 5 (.ofInt 2)) := by
    decide +kernel
  rw [passed] at computed
  exact Option.some.inj computed

end VirtualAgent
