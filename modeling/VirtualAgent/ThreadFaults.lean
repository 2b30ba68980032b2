import VirtualAgent.MissingEntry
import VirtualAgent.Threads

/-!
# The threads do not fault

The messages write the interface table between the statements of the pass over it. What
they write are entries, so no pointer becomes null, and they erase none, so the entries that
the pass is going to read stay in the table (`World.Sound`). A thread that would read
through a null pointer does not end its statement; here only a Protocol-2 message for an
unknown interface does.

So the virtual time thread can go on wherever it is, but before its start, at its end, and
in its wait until it is woken (`exists_virtualTime`).
-/

set_option autoImplicit false

namespace VirtualAgent

open ExactFloat CText Outcome Transition
open Std (ExtTreeMap)

/-- No table holds a null pointer, and a pass under way finds the entries it goes to. -/
structure World.Sound (w : World) : Prop where
  nonNull : w.agent.NonNull
  within : ∀ pc, w.vtPc = .updateInterfaceAttribute pc → pc.Within w.agent.ifaceAttrTable

theorem World.sound_initial (created host : HostReading) : (World.initial created host).Sound :=
  ⟨nonNull_initial created, by simp [World.initial]⟩

/-- A notification does not move a pass. -/
theorem VtPc.eq_of_notified {pc : VtPc} {passPc : PassPc}
    (at_pc : pc.notified = .updateInterfaceAttribute passPc) :
    pc = .updateInterfaceAttribute passPc := by
  cases pc with
  | blocked woken => cases at_pc
  | _ => exact at_pc

namespace World.Sound

variable {w next : World}

theorem congr (sound : w.Sound) (agent_eq : next.agent = w.agent)
    (vtPc_eq : next.vtPc = w.vtPc ∨ next.vtPc = w.vtPc.notified) : next.Sound := by
  refine ⟨agent_eq ▸ sound.nonNull, ?_⟩
  intro pc at_pc
  rw [agent_eq]
  rcases vtPc_eq with same | same
  · exact sound.within pc (same ▸ at_pc)
  · exact sound.within pc (VtPc.eq_of_notified (same ▸ at_pc))

/-- Outside of its pass the thread leaves the interface table. -/
theorem outside (nonNull : next.agent.NonNull)
    (outside : ∀ pc, next.vtPc ≠ .updateInterfaceAttribute pc) : next.Sound :=
  ⟨nonNull, fun pc at_pc => absurd at_pc (outside pc)⟩

theorem virtualTime (sound : w.Sound) (stepped : w.virtualTime = some next) : next.Sound := by
  have ⟨tdfMap, ifaceAttrMap⟩ := sound.nonNull
  cases virtualTime_effect stepped with
  | updateInterfaceAttribute pc pc' ifaceAttrTable commands at_pc performed =>
      have nonNull : NonNull ifaceAttrTable.ifaceAttrMap := by
        rcases (passStatement_effect performed).table with rfl | ⟨ifaceName, rfl⟩
        · exact ifaceAttrMap
        · exact ifaceAttrMap.erase ifaceName
      refine ⟨⟨tdfMap, nonNull⟩, ?_⟩
      intro place at_place
      have within := (sound.within pc at_pc).statement performed
      rcases VtPc.afterPass_cases pc' with ⟨rfl, ended⟩ | ⟨-, goesOn⟩
      · cases ended.symm.trans at_place
      · cases goesOn.symm.trans at_place
        exact within
  | test at_pc =>
      refine outside ⟨tdfMap, ifaceAttrMap⟩ ?_
      cases w.isRunning <;> simp
  | setTdf newTdf at_pc =>
      refine ⟨⟨tdfMap, ifaceAttrMap⟩, ?_⟩
      rintro pc ⟨rfl⟩
      trivial
  | _ => exact outside ⟨tdfMap, ifaceAttrMap⟩ (by simp)

/-- **No step makes a pointer null or takes an entry from under the pass.** -/
theorem step {action : ThreadAction} (sound : w.Sound)
    (stepped : threadStep w action = some next) : next.Sound := by
  cases threadStep_effect stepped with
  | idle agent_eq vtPc_eq _ _ _ _ => exact sound.congr agent_eq (Or.inl vtPc_eq)
  | receivedUdp msg _ => exact sound.congr rfl (Or.inl rfl)
  | receivedTcp msg _ => exact sound.congr rfl (Or.inl rfl)
  | started _ => exact outside sound.nonNull (by simp)
  | notified _ => exact sound.congr rfl (Or.inr rfl)
  | virtualTime stepped => exact sound.virtualTime stepped
  | message statement rest agent notified _ _ executed =>
      refine ⟨sound.nonNull.exec executed, ?_⟩
      intro pc at_pc
      have here : w.vtPc = .updateInterfaceAttribute pc := by
        cases notified with
        | false => exact at_pc
        | true => exact VtPc.eq_of_notified at_pc
      refine (sound.within pc here).mono ?_
      intro name present
      rcases exec_ifaceAttrTable executed with same | ⟨other, entry, same⟩
      · exact same ▸ present
      · exact same ▸ ExtTreeMap.mem_insert.mpr (Or.inr present)

end World.Sound

theorem sound_of_threads {created host : HostReading} {actions : List ThreadAction} {w : World}
    (ran : run threadStep (World.initial created host) actions = some w) : w.Sound :=
  run_invariant World.Sound (fun _ _ _ sound stepped => sound.step stepped)
    (World.sound_initial created host) ran

/-- **The virtual time thread stands still** before its start, at its end, and in its wait
until it is woken, and nowhere else. -/
theorem exists_virtualTime {w : World} (sound : w.Sound) (started : w.vtPc ≠ .notStarted)
    (unfinished : w.vtPc ≠ .finished) (awake : w.vtPc ≠ .blocked false) :
    ∃ next, w.virtualTime = some next := by
  unfold World.virtualTime
  cases at_pc : w.vtPc with
  | notStarted => exact absurd at_pc started
  | finished => exact absurd at_pc unfinished
  | blocked woken =>
      cases woken with
      | false => exact absurd at_pc awake
      | true => exact ⟨_, rfl⟩
  | updateInterfaceAttribute pc =>
      obtain ⟨result, performed⟩ := exists_passStatement w.agent.tdfTable.latestTdf
        sound.nonNull.ifaceAttrMap (sound.within pc at_pc)
      exact ⟨_, Option.map_eq_some_iff.mpr ⟨result, performed, rfl⟩⟩
  | _ => exact ⟨_, rfl⟩

end VirtualAgent
