import VirtualAgent.Threads

/-!
# Where a factor comes from

A dilation factor is received in a message, goes to the table, is adopted there or
imposed past it, is read by the virtual time thread and written to shared memory. On the
way it is compared and selected, and never computed with.

`AllTdf` says of every place a factor can be in that what is there has a property.
Received factors that have it, in whatever order the threads act, make every factor have
it (`allTdf_of_run`). With the property of being one or received, this is
`tdf_received`: the agent runs on no factor of its own making.
-/

set_option autoImplicit false

namespace VirtualAgent

open ExactFloat CText Outcome Transition
open Std (ExtTreeMap)

/-! ## The greatest factor is one of the table -/

/-- What the loop keeps is its start or a factor of the positions. -/
theorem foldlM_keepGreater_mem {positions : List (CString × Option TdfEntry)}
    {start maxVal : LongDouble}
    (folded : positions.foldlM TdfTable.keepGreater start = .ok maxVal) :
    maxVal = start ∨ ∃ name entry, (name, some entry) ∈ positions ∧ entry.baseTdf = maxVal := by
  induction positions generalizing start with
  | nil =>
      cases folded
      exact Or.inl rfl
  | cons position rest ih =>
      obtain ⟨name, pointer⟩ := position
      rw [List.foldlM_cons] at folded
      obtain ⟨kept, compared, later⟩ := bind_eq_ok.mp folded
      obtain ⟨entry, read, returned⟩ := bind_eq_ok.mp compared
      cases pointer with
      | none => cases read
      | some found =>
          cases read
          cases returned
          rcases ih later with same | ⟨other, value, member, value_eq⟩
          · split at same
            · exact Or.inr ⟨name, entry, List.mem_cons_self, same.symm⟩
            · exact Or.inl same
          · exact Or.inr ⟨other, value, List.mem_cons_of_mem _ member, value_eq⟩

/-- **The greatest factor of a table is one of its factors**, whatever the table holds. -/
theorem maxTdf_mem {t : TdfTable} {maxVal : LongDouble} (greatest : t.maxTdf = .ok maxVal) :
    ∃ (name : CString) (entry : TdfEntry),
      t.tdfMap[name]? = some (some entry) ∧ entry.baseTdf = maxVal := by
  unfold TdfTable.maxTdf at greatest
  have inTable : ∀ (name : CString) (entry : TdfEntry),
      (name, some entry) ∈ t.tdfMap.toList → t.tdfMap[name]? = some (some entry) :=
    fun _ _ member => ExtTreeMap.mem_toList_iff_getElem?_eq_some.mp member
  split at greatest
  · cases greatest
  · rename_i first rest positions
    obtain ⟨entry, read, folded⟩ := bind_eq_ok.mp greatest
    obtain ⟨name, pointer⟩ := first
    cases pointer with
    | none => cases read
    | some found =>
        cases read
        rw [positions] at inTable
        rcases foldlM_keepGreater_mem folded with rfl | ⟨other, value, member, value_eq⟩
        · exact ⟨name, entry, inTable name entry List.mem_cons_self, rfl⟩
        · exact ⟨other, value, inTable other value member, value_eq⟩

/-! ## Every place of a factor -/

/-- The factors a statement brings into the agent. -/
def Statement.brings : Statement → List LongDouble
  | .tdfTableSet _ tdf => [tdf]
  | .enforceTdf tdf => [tdf]
  | _ => []

/-- The factors of a message received. -/
def ThreadAction.brings : ThreadAction → List LongDouble
  | .receiveUdp msg => (statementsOf (parseUdpMsg msg)).flatMap Statement.brings
  | .receiveTcp msg => (statementsOf (parseTcpMsg msg)).flatMap Statement.brings
  | _ => []

/-- The factor that the virtual time thread has read and not written yet. -/
def VtPc.holdsTdf : VtPc → List LongDouble
  | .setTdf newTdf => [newTdf]
  | _ => []

@[simp] theorem VtPc.notified_holdsTdf (pc : VtPc) : pc.notified.holdsTdf = pc.holdsTdf := by
  cases pc <;> rfl

/-- Every factor of the agent has a property. -/
structure Agent.AllTdf (P : LongDouble → Prop) (a : Agent) : Prop where
  entries : ∀ (name : CString) (entry : TdfEntry),
    a.tdfTable.tdfMap[name]? = some (some entry) → P entry.baseTdf
  latestTdf : P a.tdfTable.latestTdf
  sharedTdf : P a.sharedTdf

/-- Every factor in the agent, on its way to shared memory and in the statements left has
a property. -/
structure World.AllTdf (P : LongDouble → Prop) (w : World) : Prop where
  agent : w.agent.AllTdf P
  read : ∀ tdf ∈ w.vtPc.holdsTdf, P tdf
  io : ∀ statement ∈ w.io, ∀ tdf ∈ statement.brings, P tdf

section

variable {P : LongDouble → Prop}

/-- The two tables agree in their factors. -/
theorem Agent.AllTdf.congr {a next : Agent} (all : a.AllTdf P)
    (tdfTable_eq : next.tdfTable.tdfMap = a.tdfTable.tdfMap)
    (latestTdf_eq : next.tdfTable.latestTdf = a.tdfTable.latestTdf)
    (sharedTdf_eq : next.sharedTdf = a.sharedTdf) : next.AllTdf P where
  entries := tdfTable_eq ▸ all.entries
  latestTdf := latestTdf_eq ▸ all.latestTdf
  sharedTdf := sharedTdf_eq ▸ all.sharedTdf

theorem allTdf_initial (one : P 1) (created host : HostReading) :
    (World.initial created host).AllTdf P where
  agent := ⟨fun name entry found => by simp [World.initial, Agent.initial] at found, one, one⟩
  read := by simp [World.initial, VtPc.holdsTdf]
  io := by simp [World.initial]

/-- A factor written to the table. -/
theorem Agent.AllTdf.entries_written {a : Agent} (all : a.AllTdf P) {hostname : CString}
    {tdf : LongDouble} (holds : P tdf) (name : CString) (entry : TdfEntry)
    (found : (a.tdfTable.written hostname tdf).tdfMap[name]? = some (some entry)) :
    P entry.baseTdf := by
  rw [TdfTable.written, ExtTreeMap.getElem?_insert] at found
  split at found
  · cases found
    exact holds
  · exact all.entries name entry found

/-- **A statement selects among the factors there are.** -/
theorem Agent.AllTdf.exec {a next : Agent} (all : a.AllTdf P) {statement : Statement}
    (brought : ∀ tdf ∈ statement.brings, P tdf) {host : HostReading} {notified : Bool}
    (done : statement.exec a host = .ok (next, notified)) : next.AllTdf P := by
  cases statement with
  | tdfTableSet hostname tdf =>
      have holds : P tdf := brought tdf List.mem_cons_self
      obtain ⟨tdfTable, set, rfl⟩ := exec_tdfTableSet.mp done
      obtain ⟨rfl, -⟩ | ⟨maxVal, greatest, rfl, -⟩ := TdfTable.set_cases set
      · exact ⟨all.entries_written holds, all.latestTdf, all.sharedTdf⟩
      · obtain ⟨name, entry, found, rfl⟩ := maxTdf_mem greatest
        exact ⟨all.entries_written holds, all.entries_written holds name entry found,
          all.sharedTdf⟩
  | setFlagKeep ifaceName flagKeep =>
      obtain ⟨ifaceAttrTable, -, rfl, -⟩ := exec_setFlagKeep.mp done
      exact all.congr rfl rfl rfl
  | enforceTdf tdf =>
      have holds : P tdf := brought tdf List.mem_cons_self
      cases done
      exact ⟨all.entries, holds, all.sharedTdf⟩
  | clear =>
      cases done
      exact ⟨fun name entry found => by simp [TdfTable.clear] at found, all.latestTdf,
        all.sharedTdf⟩
  | _ =>
      cases done
      exact all.congr rfl rfl rfl

/-- A message performed as a whole selects among the factors there are, and so does a cycle. -/
theorem Agent.AllTdf.perform {a next : Agent} (all : a.AllTdf P) {event : Event}
    (brought : ∀ statement ∈ statementsOf event.message, ∀ tdf ∈ statement.brings, P tdf)
    (done : event.perform a = .ok next) : next.AllTdf P := by
  rcases event.perform_eq a with ⟨suspendAt, resumeAt, rfl⟩ | ⟨host, performed⟩
  · obtain ⟨-, -, -, tdfTable_eq, -, sharedTdf_eq, -⟩ := Agent.updateCycle_ok done
    exact ⟨tdfTable_eq ▸ all.entries, tdfTable_eq ▸ all.latestTdf, sharedTdf_eq ▸ all.latestTdf⟩
  · rw [performed] at done
    have free : ∀ (_ : Agent) (statement : Statement), statement.standsAlone = false →
        ∀ tdf ∈ statement.brings, P tdf := by
      intro s statement ordinary tdf member
      cases statement with
      | tdfTableSet hostname tdf => cases ordinary
      | enforceTdf tdf => cases ordinary
      | _ => cases member
    exact execAll_invariant (Agent.AllTdf P) free
      (fun s statement after notified kept brings executed => kept.exec brings executed)
      all brought done

/-- The virtual time thread carries the latest factor to shared memory. -/
theorem World.AllTdf.virtualTime {w next : World} (all : w.AllTdf P)
    (stepped : w.virtualTime = some next) : next.AllTdf P := by
  obtain ⟨-, io_eq, tdfTable_eq, -⟩ := virtualTime_frame stepped
  have io : ∀ statement ∈ next.io, ∀ tdf ∈ statement.brings, P tdf := io_eq ▸ all.io
  have still : next.agent.sharedTdf = w.agent.sharedTdf → next.vtPc.holdsTdf = [] →
      next.AllTdf P := by
    intro sharedTdf_eq nothing
    refine ⟨all.agent.congr ?_ ?_ sharedTdf_eq, ?_, io⟩
    · rw [tdfTable_eq]
    · rw [tdfTable_eq]
    · simp [nothing]
  cases virtualTime_effect stepped with
  | getLatestTdf at_pc =>
      refine ⟨all.agent, ?_, io⟩
      intro tdf member
      obtain rfl := List.mem_singleton.mp member
      exact all.agent.latestTdf
  | setTdf newTdf at_pc =>
      have holds : P newTdf := all.read newTdf (by simp [at_pc, VtPc.holdsTdf])
      exact ⟨⟨all.agent.entries, all.agent.latestTdf, holds⟩, by simp [VtPc.holdsTdf], io⟩
  | test at_pc =>
      refine still rfl ?_
      cases w.isRunning <;> rfl
  | updateInterfaceAttribute pc pc' ifaceAttrTable commands at_pc performed =>
      refine still rfl ?_
      cases pc' <;> rfl
  | _ => exact still rfl rfl

/-- **Every step keeps a property of all factors** that the factors received have. -/
theorem World.AllTdf.step {w next : World} (all : w.AllTdf P) {action : ThreadAction}
    (brought : ∀ tdf ∈ action.brings, P tdf) (stepped : threadStep w action = some next) :
    next.AllTdf P := by
  have received : ∀ parsed : Option Message,
      (∀ tdf ∈ (statementsOf parsed).flatMap Statement.brings, P tdf) →
      World.AllTdf P { w with io := statementsOf parsed } := by
    intro parsed each
    refine ⟨all.agent, all.read, fun statement member tdf inside => each tdf ?_⟩
    exact List.mem_flatMap.mpr ⟨statement, member, inside⟩
  cases threadStep_effect stepped with
  | idle agent_eq vtPc_eq io_eq _ _ _ =>
      exact ⟨agent_eq ▸ all.agent, vtPc_eq ▸ all.read, io_eq ▸ all.io⟩
  | receivedUdp msg _ => exact received _ brought
  | receivedTcp msg _ => exact received _ brought
  | message statement rest agent notified io_eq _ executed =>
      have brings := all.io
      rw [io_eq] at brings
      refine ⟨all.agent.exec (brings statement List.mem_cons_self) executed, ?_, ?_⟩
      · cases notified <;> simpa using all.read
      · exact fun other member => brings other (List.mem_cons_of_mem _ member)
  | virtualTime stepped => exact all.virtualTime stepped
  | started _ => exact ⟨all.agent, by simp [VtPc.holdsTdf], all.io⟩
  | notified _ => exact ⟨all.agent, by simpa using all.read, all.io⟩

/-- **What every received factor has, every factor has**, after each run. -/
theorem allTdf_of_run (one : P 1) {created host : HostReading} {actions : List ThreadAction}
    (brought : ∀ action ∈ actions, ∀ tdf ∈ action.brings, P tdf) {w : World}
    (ran : run threadStep (World.initial created host) actions = some w) : w.AllTdf P :=
  run_invariant_of_meets (World.AllTdf P)
    (fun _ _ _ all brings stepped => World.AllTdf.step all brings stepped)
    (allTdf_initial one created host)
    (meets_of_forall (fun action member _ => brought action member) _) ran

end

/-- **Every factor of the agent is one or was received.** In every interleaving of the
threads and the messages, the factor in shared memory, the latest factor of the table and
the factor of each of its entries is one, or stood in a message received. -/
theorem tdf_received (created host : HostReading) (actions : List ThreadAction) (w : World)
    (ran : run threadStep (World.initial created host) actions = some w) (tdf : LongDouble)
    (held : tdf = w.agent.sharedTdf ∨ tdf = w.agent.tdfTable.latestTdf ∨
      ∃ name : CString, w.agent.tdfTable.tdfMap[name]? = some (some ⟨tdf⟩)) :
    tdf = 1 ∨ ∃ action ∈ actions, tdf ∈ action.brings := by
  have all : w.AllTdf fun tdf => tdf = 1 ∨ ∃ action ∈ actions, tdf ∈ action.brings :=
    allTdf_of_run (Or.inl rfl)
      (fun action member tdf brought => Or.inr ⟨action, member, brought⟩) ran
  rcases held with rfl | rfl | ⟨name, found⟩
  · exact all.agent.sharedTdf
  · exact all.agent.latestTdf
  · exact all.agent.entries name ⟨tdf⟩ found

/-- A factor of a datagram is adopted, carried to shared memory, and kept there when the
table is cleared. -/
theorem tdf_received_adopted :
    ∃ w, run threadStep (World.initial ⟨0, 0⟩ ⟨0, 0⟩)
        (startUp ++ receive (ascii "12") ++ [.receiveUdp (ascii "10|a|3"), .message] ++
          turns 5 ++ receive (ascii "28")) = some w ∧
      w.agent.sharedTdf = .ofRat 3 ∧
      ((.ofRat 3 : LongDouble) = 1 ∨ ∃ action ∈ startUp ++ receive (ascii "12") ++
        [.receiveUdp (ascii "10|a|3"), .message] ++ turns 5 ++ receive (ascii "28"),
          (.ofRat 3 : LongDouble) ∈ action.brings) := by
  obtain ⟨w, ran, shared⟩ :
      ∃ w, run threadStep (World.initial ⟨0, 0⟩ ⟨0, 0⟩)
        (startUp ++ receive (ascii "12") ++ [.receiveUdp (ascii "10|a|3"), .message] ++
          turns 5 ++ receive (ascii "28")) = some w ∧ w.agent.sharedTdf = .ofRat 3 := by
    apply exists_of_any
    decide +kernel
  exact ⟨w, ran, shared, tdf_received _ _ _ w ran _ (Or.inl shared.symm)⟩

end VirtualAgent
