import VirtualAgent.InterfacePass
import VirtualAgent.Threads

/-!
# A pending delete

A Protocol-2 message only clears the flag of an entry. The next pass over the interface
table reads the flag, deletes the device's queueing discipline and erases the entry by
its name, in steps between which the messages write the same table: they take no lock
that the pass holds. So an interface that is added again between the reading of its flag
and its erasure is lost (`readded_interface_is_erased`, and in general
`erased_of_set_while_deleting`).

`run_keeps_readded` says that nothing else loses one. For one interface the invariant
relates the table to the last message for it: while that message asks for a rate and a
delay, its entry is there with the flag set, and the pass is not about to erase it.

`run_pass_alone` connects the steps with the pass of `InterfaceConfigurator`: without
messages in between they do the same.
-/

set_option autoImplicit false

namespace VirtualAgent

open ExactFloat CText Outcome Transition
open Std (ExtTreeMap LawfulEqCmp)

/-! ## The pass, step by step -/

/-- The flag of the interface has been read as false, and its entry is not erased yet. -/
def PassPc.deletes (ifaceName : CString) : PassPc → Bool
  | .delete name | .erase name _ => name = ifaceName
  | _ => false

/-- The agent and where the pass of its virtual time thread stands. -/
structure PassState where
  agent : Agent
  pc : PassPc := .idle
  deriving DecidableEq

def PassState.initial (created : HostReading) : PassState where
  agent := .initial created

/-- The next statement of the pass. -/
def PassState.pass (s : PassState) : Option PassState :=
  (passStatement s.agent.tdfTable.latestTdf s.agent.ifaceAttrTable s.pc).map
    fun (pc, ifaceAttrTable, commands) => {
      agent := { s.agent with ifaceAttrTable, tcCommands := s.agent.tcCommands ++ commands }
      pc }

theorem PassState.pass_eq_some {s next : PassState} :
    s.pass = some next ↔ ∃ pc ifaceAttrTable commands,
      passStatement s.agent.tdfTable.latestTdf s.agent.ifaceAttrTable s.pc =
        some (pc, ifaceAttrTable, commands) ∧
      next = {
        agent := { s.agent with ifaceAttrTable, tcCommands := s.agent.tcCommands ++ commands }
        pc } := by
  unfold PassState.pass
  rw [Option.map_eq_some_iff]
  constructor
  · rintro ⟨⟨pc, ifaceAttrTable, commands⟩, performed, rfl⟩
    exact ⟨pc, ifaceAttrTable, commands, performed, rfl⟩
  · rintro ⟨pc, ifaceAttrTable, commands, performed, rfl⟩
    exact ⟨(pc, ifaceAttrTable, commands), performed, rfl⟩

inductive PassAction where
  /-- The next statement of the pass, or the beginning of another one. -/
  | pass
  /-- A whole message. -/
  | message (message : Message) (host : HostReading)
  deriving DecidableEq

/-- The pass is under the mutex of the table of factors, and a message that locks it
waits for the end of the pass. -/
def passStep (s : PassState) : PassAction → Option PassState
  | .pass => s.pass
  | .message message host =>
      if s.pc ≠ .idle ∧ message.statements.any Statement.locksTdfTable then none
      else (execAll s.agent host message.statements).toOption.map fun agent => { s with agent }

/-! ## The last message for an interface -/

/-- The rate and the delay asked for an interface, after a message. A Protocol-2 message
asks for none. -/
def Message.asked (ifaceName : CString) (before : Option (ℤ × ℤ)) : Message → Option (ℤ × ℤ)
  | .changeInterface name rate delay | .replaceInterface name rate delay =>
      if name = ifaceName then some (rate, delay) else before
  | .eraseInterface name => if name = ifaceName then none else before
  | _ => before

/-- The same after an action. -/
def recordAsked (ifaceName : CString) (before : Option (ℤ × ℤ)) : PassAction → Option (ℤ × ℤ)
  | .pass => before
  | .message message _ => message.asked ifaceName before

/-- **The rate and the delay of the last message for an interface**, when that is a
Protocol-1 or a Protocol-3 message. -/
def lastAsked (ifaceName : CString) (actions : List PassAction) : Option (ℤ × ℤ) :=
  actions.foldl (recordAsked ifaceName) none

/-- When no pass is under way, every interface asked for is in the table, to be kept. -/
def KeepsReadded (s : PassState) (actions : List PassAction) : Prop :=
  s.pc = .idle → ∀ (ifaceName : CString) (rate delay : ℤ),
    lastAsked ifaceName actions = some (rate, delay) →
      s.agent.ifaceAttrTable.ifaceAttrMap[ifaceName]? =
        some (some { rate, delay, flagKeep := true })

/-- The interface a message sets. -/
def Message.sets : Message → Option CString
  | .changeInterface name _ _ | .replaceInterface name _ _ => some name
  | _ => none

/-- The message does not set the interface that the pass is deleting. -/
def SetsOutside (s : PassState) : PassAction → Prop
  | .pass => True
  | .message message _ => ∀ name ∈ message.sets, s.pc.deletes name = false

instance (s : PassState) : DecidablePred (SetsOutside s)
  | .pass => inferInstanceAs (Decidable True)
  | .message message _ => inferInstanceAs (Decidable (∀ name ∈ message.sets, _ = _))

/-! ## The invariant -/

section Invariant

variable {ifaceName : CString}

/-- The table has what was asked for an interface last, to be kept. -/
def InterfaceAttributeTable.Keeps (t : InterfaceAttributeTable) (ifaceName : CString)
    (asked : Option (ℤ × ℤ)) : Prop :=
  ∀ rate delay, asked = some (rate, delay) →
    t.ifaceAttrMap[ifaceName]? = some (some { rate, delay, flagKeep := true })

namespace InterfaceAttributeTable.Keeps

variable {t next : InterfaceAttributeTable} {asked : Option (ℤ × ℤ)}

theorem set (keeps : t.Keeps ifaceName asked) (name : CString) (rate delay : ℤ) :
    (t.set name rate delay).Keeps ifaceName
      (if name = ifaceName then some (rate, delay) else asked) := by
  intro lastRate lastDelay last
  rw [InterfaceAttributeTable.set, ExtTreeMap.getElem?_insert]
  by_cases same : name = ifaceName
  · rw [if_pos same] at last
    cases last
    rw [if_pos (LawfulEqCmp.compare_eq_iff_eq.mpr same)]
  · rw [if_neg same] at last
    rw [if_neg fun equal => same (LawfulEqCmp.eq_of_compare equal)]
    exact keeps _ _ last

theorem setFlagKeep (keeps : t.Keeps ifaceName asked) {name : CString} {flagKeep : Bool}
    (done : t.setFlagKeep name flagKeep = .ok next) :
    next.Keeps ifaceName (if name = ifaceName then none else asked) := by
  obtain ⟨entry, -, rfl⟩ := InterfaceAttributeTable.setFlagKeep_eq_ok.mp done
  intro lastRate lastDelay last
  by_cases same : name = ifaceName
  · rw [if_pos same] at last
    cases last
  · rw [if_neg same] at last
    rw [ExtTreeMap.getElem?_insert, if_neg fun equal => same (LawfulEqCmp.eq_of_compare equal)]
    exact keeps _ _ last

theorem erase (keeps : t.Keeps ifaceName asked) {name : CString} (different : name ≠ ifaceName) :
    (t.erase name).Keeps ifaceName asked := by
  intro rate delay last
  rw [InterfaceAttributeTable.erase, ExtTreeMap.getElem?_erase,
    if_neg fun equal => different (LawfulEqCmp.eq_of_compare equal)]
  exact keeps _ _ last

end InterfaceAttributeTable.Keeps

/-- **A whole message keeps what was asked last**, itself included. -/
theorem keeps_of_execAll {message : Message} {a next : Agent} {host : HostReading}
    {asked : Option (ℤ × ℤ)} (keeps : a.ifaceAttrTable.Keeps ifaceName asked)
    (done : execAll a host message.statements = .ok next) :
    next.ifaceAttrTable.Keeps ifaceName (message.asked ifaceName asked) := by
  cases message with
  | changeInterface name rate delay =>
      cases done
      exact keeps.set name rate delay
  | replaceInterface name rate delay =>
      cases done
      exact keeps.set name rate delay
  | eraseInterface name =>
      obtain ⟨notified, executed⟩ := execAll_singleton.mp done
      obtain ⟨ifaceAttrTable, set, rfl, -⟩ := exec_setFlagKeep.mp executed
      exact keeps.setFlagKeep set
  | tdfTableSet hostname tdf =>
      obtain ⟨notified, executed⟩ := execAll_singleton.mp done
      obtain ⟨tdfTable, -, rfl⟩ := exec_tdfTableSet.mp executed
      exact keeps
  | configure settings =>
      rw [execAll_configure] at done
      cases done
      exact keeps
  | _ =>
      cases done
      exact keeps

/-- What the runs keep for an interface: its entry is there when the last message asks
for it, and the pass is not about to erase it. -/
def PassInvariant (ifaceName : CString) (s : PassState) (asked : Option (ℤ × ℤ)) : Prop :=
  s.agent.ifaceAttrTable.Keeps ifaceName asked ∧
    (s.pc.deletes ifaceName = true → asked = none)

theorem passInvariant_initial (created : HostReading) :
    PassInvariant ifaceName (.initial created) none := by
  refine ⟨?_, fun _ => rfl⟩
  intro rate delay impossible
  cases impossible

namespace PassInvariant

variable {s next : PassState} {asked : Option (ℤ × ℤ)}

/-- Where no interface is being deleted, only the table counts. -/
theorem of_not_deletes (keeps : s.agent.ifaceAttrTable.Keeps ifaceName asked)
    (free : s.pc.deletes ifaceName = false) : PassInvariant ifaceName s asked := by
  refine ⟨keeps, ?_⟩
  intro deletes
  rw [free] at deletes
  cases deletes

/-- An interface that is asked for has its flag set. -/
theorem flagKeep {entry : InterfaceAttributeEntry}
    (invariant : PassInvariant ifaceName s asked) (isAsked : asked ≠ none)
    (found : s.agent.ifaceAttrTable.ifaceAttrMap[ifaceName]? = some (some entry)) :
    entry.flagKeep = true := by
  obtain ⟨last, rfl⟩ := Option.ne_none_iff_exists'.mp isAsked
  have kept := invariant.1 last.1 last.2 rfl
  rw [found] at kept
  cases kept
  rfl

/-- **The pass erases nothing that is asked for**: it has read the flag as false. -/
theorem pass (invariant : PassInvariant ifaceName s asked) (stepped : s.pass = some next) :
    PassInvariant ifaceName next asked := by
  have ⟨keeps, deleting⟩ := invariant
  obtain ⟨pc, ifaceAttrTable, commands, performed, rfl⟩ := PassState.pass_eq_some.mp stepped
  generalize at_pc : s.pc = before at performed deleting
  cases passStatement_effect performed with
  | drops name entry found drop =>
      refine ⟨keeps, ?_⟩
      intro deletes
      obtain rfl : name = ifaceName := by simpa [PassPc.deletes] using deletes
      by_contra isAsked
      have kept := invariant.flagKeep isAsked found
      rw [drop] at kept
      cases kept
  | delete name => exact ⟨keeps, deleting⟩
  | erase name it =>
      refine of_not_deletes ?_ rfl
      by_cases same : name = ifaceName
      · rw [deleting (by simp [PassPc.deletes, same])]
        intro rate delay impossible
        cases impossible
      · exact keeps.erase same
  | _ => exact of_not_deletes keeps rfl

theorem step {action : PassAction} (invariant : PassInvariant ifaceName s asked)
    (outside : SetsOutside s action) (stepped : passStep s action = some next) :
    PassInvariant ifaceName next (recordAsked ifaceName asked action) := by
  cases action with
  | pass => exact invariant.pass stepped
  | message message host =>
      obtain ⟨-, performed⟩ := Option.ite_none_left_eq_some.mp stepped
      obtain ⟨agent, executed, rfl⟩ := Option.map_eq_some_iff.mp performed
      refine ⟨keeps_of_execAll invariant.1 (toOption_eq_some.mp executed), ?_⟩
      intro deletes
      have before := invariant.2 deletes
      have notSet : ifaceName ∉ message.sets := by
        intro sets
        have free := outside ifaceName sets
        rw [deletes] at free
        cases free
      cases message with
      | changeInterface name rate delay | replaceInterface name rate delay =>
          have different : name ≠ ifaceName := by simpa [Message.sets] using notSet
          simp [recordAsked, Message.asked, different, before]
      | eraseInterface name => simp [recordAsked, Message.asked, before]
      | _ => exact before

end PassInvariant

end Invariant

/-! ## Runs -/

/-- **When no message sets an interface that the pass is deleting, none is lost**, in any
interleaving of passes and messages. -/
theorem run_keeps_readded (created : HostReading) (actions : List PassAction) (s : PassState)
    (outside : Meets passStep SetsOutside (.initial created) actions)
    (ran : run passStep (.initial created) actions = some s) : KeepsReadded s actions := by
  intro idle ifaceName rate delay asked
  have invariant := run_invariant_foldl (PassInvariant ifaceName) (recordAsked ifaceName)
    (fun s asked action next invariant outside stepped => invariant.step outside stepped)
    (passInvariant_initial created) outside ran
  exact invariant.1 rate delay asked

/-- Steps of the pass. -/
def passes (count : ℕ) : List PassAction := List.replicate count .pass

/-- An interface is added, marked to be deleted, and added again when the pass has erased
it and is about to end. -/
def addAfterErase : List PassAction :=
  [.message (.replaceInterface (ascii "eth0") 1000 5) ⟨0, 0⟩,
    .message (.eraseInterface (ascii "eth0")) ⟨0, 0⟩] ++ passes 4 ++
  [.message (.replaceInterface (ascii "eth0") 2000 7) ⟨0, 0⟩] ++ passes 1

theorem run_keeps_readded_after_erase :
    ∃ s, run passStep (.initial ⟨0, 0⟩) addAfterErase = some s ∧ s.pc = .idle ∧
      lastAsked (ascii "eth0") addAfterErase = some (2000, 7) ∧
      KeepsReadded s addAfterErase := by
  have computed : (run passStep (.initial ⟨0, 0⟩) addAfterErase).any
      (fun s => s.pc = .idle) = true := by
    decide +kernel
  obtain ⟨s, ran, values⟩ := exists_of_any computed
  exact ⟨s, ran, values, by decide +kernel,
    run_keeps_readded _ _ s (by decide +kernel) ran⟩

/-- **A message that sets the interface while the pass is deleting it is undone**: the
rest of the treatment of the entry erases it. -/
theorem erased_of_set_while_deleting {s next : PassState} {message : Message}
    {host : HostReading} {ifaceName : CString} (sets : ifaceName ∈ message.sets)
    (deletes : s.pc.deletes ifaceName = true)
    (stepped : passStep s (.message message host) = some next) :
    ∃ count erased, run passStep next (passes count) = some erased ∧
      (∃ it, erased.pc = .test it) ∧
      erased.agent.ifaceAttrTable.ifaceAttrMap[ifaceName]? = none := by
  obtain ⟨-, performed⟩ := Option.ite_none_left_eq_some.mp stepped
  obtain ⟨agent, -, rfl⟩ := Option.map_eq_some_iff.mp performed
  cases at_pc : s.pc with
  | delete name =>
      obtain rfl : name = ifaceName := by simpa [at_pc, PassPc.deletes] using deletes
      refine ⟨2, {
        agent := { agent with
          ifaceAttrTable := agent.ifaceAttrTable.erase name
          tcCommands := agent.tcCommands ++ deleteInterfaceAttribute name }
        pc := .test (KeyOrder.nextKey agent.ifaceAttrTable.ifaceAttrMap name) },
        ?_, ⟨_, rfl⟩, ExtTreeMap.getElem?_erase_self⟩
      simp [passes, List.replicate_succ, run, passStep, PassState.pass, passStatement]
  | erase name it =>
      obtain rfl : name = ifaceName := by simpa [at_pc, PassPc.deletes] using deletes
      refine ⟨1, {
        agent := { agent with ifaceAttrTable := agent.ifaceAttrTable.erase name }
        pc := .test it },
        ?_, ⟨it, rfl⟩, ExtTreeMap.getElem?_erase_self⟩
      simp [passes, run, passStep, PassState.pass, passStatement]
  | _ => simp [at_pc, PassPc.deletes] at deletes

/-- An interface is marked to be deleted, and added again when the pass has read its
flag. -/
def addWhileDeleting : List PassAction :=
  [.message (.replaceInterface (ascii "eth0") 1000 5) ⟨0, 0⟩,
    .message (.eraseInterface (ascii "eth0")) ⟨0, 0⟩] ++ passes 2 ++
  [.message (.replaceInterface (ascii "eth0") 2000 7) ⟨0, 0⟩] ++ passes 3

/-- **An interface that is added again while the pass is deleting it is lost.** -/
theorem readded_interface_is_erased :
    ∃ s, run passStep (.initial ⟨0, 0⟩) addWhileDeleting = some s ∧
      ¬ KeepsReadded s addWhileDeleting := by
  have computed : (run passStep (.initial ⟨0, 0⟩) addWhileDeleting).any
      (fun s => s.pc = .idle ∧
        s.agent.ifaceAttrTable.ifaceAttrMap[ascii "eth0"]? = none) = true := by
    decide +kernel
  obtain ⟨s, ran, idle, absent⟩ := exists_of_any computed
  refine ⟨s, ran, ?_⟩
  intro keeps
  have present := keeps idle (ascii "eth0") 2000 7 (by decide +kernel)
  rw [absent] at present
  cases present

/-! ## A pass that is not interrupted -/

/-- From any place on, the steps do what is left of the pass. -/
theorem run_passes_of_passEnds (a : Agent) (commands : List TcCommand) {pc : PassPc}
    {t last : InterfaceAttributeTable} {left : List TcCommand}
    (ends : PassEnds a.tdfTable.latestTdf pc t last left) :
    ∃ count, run passStep
      { agent := { a with ifaceAttrTable := t, tcCommands := commands }, pc } (passes count) =
      some { agent := { a with ifaceAttrTable := last, tcCommands := commands ++ left } } := by
  induction ends generalizing commands with
  | done t => exact ⟨0, by simp [passes, run]⟩
  | @step pc pc' t next last issued left underway performed rest ih =>
      obtain ⟨count, ran⟩ := ih (commands ++ issued)
      refine ⟨count + 1, run_cons_eq_some.mpr ⟨_, PassState.pass_eq_some.mpr
        ⟨pc', next, issued, performed, rfl⟩, ?_⟩⟩
      rw [← List.append_assoc]
      exact ran

/-- **Without messages in between, the steps are the pass.** -/
theorem run_pass_alone {a next : Agent} (updated : a.updateInterfaceAttribute = .ok next) :
    ∃ count, run passStep { agent := a } (passes count) = some { agent := next } := by
  obtain ⟨ifaceAttrTable, commands, looped, rfl⟩ :=
    Agent.updateInterfaceAttribute_eq_ok.mp updated
  obtain ⟨count, ran⟩ := run_passes_of_passEnds a a.tcCommands
    (passEnds_of_updateInterfaceAttribute looped)
  refine ⟨count + 1, run_cons_eq_some.mpr ⟨_, PassState.pass_eq_some.mpr
    ⟨_, _, [], rfl, rfl⟩, ?_⟩⟩
  rw [← ran, List.append_nil]
  rfl

end VirtualAgent
