import VirtualAgent.MissingEntry
import VirtualAgent.Provenance

/-!
# The dilation factor as a divisor

The factor is divided by where clocks are read and devices are shaped, so it should
stay positive. It comes from the number in a message, which is any number a text can
denote, by two ways: Protocol-11 imposes it, and Protocol-10 puts it in the table,
whose greatest factor the hysteresis may adopt.

`Statement.PositiveDemand` is what keeps it positive: an imposed factor is positive,
and an enabled table that receives a factor has a positive one then. A greatest
factor that is no number is not adopted, since the comparison with the threshold
fails.
-/

set_option autoImplicit false

namespace VirtualAgent

open ExactFloat CText Outcome Transition
open Std (ExtTreeMap)

/-- Both copies of the factor are positive. -/
structure Agent.PositiveTdf (a : Agent) : Prop where
  latestTdf : a.tdfTable.latestTdf.Positive
  sharedTdf : a.sharedTdf.Positive

theorem positiveTdf_initial (created : HostReading) : (Agent.initial created).PositiveTdf := by
  have one : (1 : LongDouble).Positive := LongDouble.positive_ofRat.mpr one_pos
  exact ⟨one, one⟩

/-- The factor behind a pointer is positive. -/
def holdsPositive (pointer : Option TdfEntry) : Bool :=
  pointer.any fun entry => entry.baseTdf.Positive

/-- A statement imposes a positive factor, or leaves an enabled table with a positive
one, its own or that of another host. -/
def Statement.PositiveDemand (a : Agent) : Statement → Prop
  | .enforceTdf tdf => tdf.Positive
  | .tdfTableSet hostname tdf => a.tdfTable.isTableEnabled = true →
      tdf.Positive ∨
        ∃ position ∈ (a.tdfTable.tdfMap.erase hostname).toList, holdsPositive position.2 = true
  | _ => True

instance (a : Agent) : DecidablePred (Statement.PositiveDemand a)
  | .enforceTdf tdf => inferInstanceAs (Decidable tdf.Positive)
  | .tdfTableSet _ tdf =>
      inferInstanceAs (Decidable (_ = _ → tdf.Positive ∨ ∃ position ∈ _, holdsPositive _ = true))
  | .ifaceAttrTableSet _ _ _ | .setFlagKeep _ _ | .changeInterfaceAttribute _ _ _
  | .replaceInterfaceAttribute _ _ _ _ | .enableTable | .disableTable | .clear | .configure _
  | .cpuDisableTicks | .cpuEnableTicks | .semaphoreSetval _ => inferInstanceAs (Decidable True)

/-- What the hysteresis adopts from a table with a positive factor is positive. -/
theorem positive_of_adopted {t : TdfTable} (nonNull : NonNull t.tdfMap) {hostname : CString}
    {tdf threshold maxVal : LongDouble}
    (demand : tdf.Positive ∨
      ∃ position ∈ (t.tdfMap.erase hostname).toList, holdsPositive position.2 = true)
    (greatest : (t.written hostname tdf).maxTdf = .ok maxVal)
    (away : threshold ≤ t.gap maxVal) : maxVal.Positive := by
  have number : maxVal ≠ .nan := by
    rintro rfl
    exact LongDouble.not_le_nan threshold away
  obtain ⟨maxVal', greatest', -, least⟩ := TdfTable.maxTdf_written nonNull hostname tdf
  obtain rfl : maxVal = maxVal' := Except.ok.inj (greatest.symm.trans greatest')
  rcases demand with positive | ⟨⟨name, pointer⟩, member, positive⟩
  · refine positive.of_not_lt (least hostname ⟨tdf⟩ ?_) number
    simp [TdfTable.written]
  · cases pointer with
    | none => cases positive
    | some entry =>
        have found := ExtTreeMap.mem_toList_iff_getElem?_eq_some.mp member
        rw [ExtTreeMap.getElem?_erase] at found
        split at found
        case isTrue => cases found
        case isFalse different =>
          have entryPositive : entry.baseTdf.Positive := by simpa [holdsPositive] using positive
          refine entryPositive.of_not_lt (least name entry ?_) number
          rw [TdfTable.written, ExtTreeMap.getElem?_insert, if_neg different]
          exact found

section

variable {a next : Agent} {host : HostReading} {notified : Bool}

theorem Agent.PositiveTdf.exec (positive : a.PositiveTdf) (nonNull : a.NonNull)
    {statement : Statement} (demand : statement.PositiveDemand a)
    (done : statement.exec a host = .ok (next, notified)) : next.PositiveTdf := by
  refine ⟨?_, exec_sharedTdf done ▸ positive.sharedTdf⟩
  cases notified with
  | false => exact exec_latestTdf done ▸ positive.latestTdf
  | true =>
      cases statement with
      | tdfTableSet hostname tdf =>
          obtain ⟨tdfTable, set, rfl⟩ := exec_tdfTableSet.mp done
          obtain ⟨-, silent, -⟩ | ⟨maxVal, greatest, rfl, -, enabled, away⟩ :=
            TdfTable.set_cases set
          · cases silent
          · exact positive_of_adopted nonNull.tdfMap (demand enabled) greatest away
      | enforceTdf tdf =>
          cases done
          exact demand
      | setFlagKeep ifaceName flagKeep =>
          obtain ⟨-, -, -, silent⟩ := exec_setFlagKeep.mp done
          cases silent
      | _ => cases done

theorem Agent.PositiveTdf.perform (positive : a.PositiveTdf) (nonNull : a.NonNull) {event : Event}
    (demand : ∀ statement ∈ statementsOf event.message, statement.PositiveDemand a)
    (done : event.perform a = .ok next) : next.PositiveTdf := by
  rcases event.perform_eq a with ⟨suspendAt, resumeAt, rfl⟩ | ⟨host, performed⟩
  · obtain ⟨-, -, -, tdfTable_eq, -, sharedTdf_eq, -⟩ := Agent.updateCycle_ok done
    exact ⟨tdfTable_eq ▸ positive.latestTdf, sharedTdf_eq ▸ positive.latestTdf⟩
  · rw [performed] at done
    have free : ∀ (s : Agent) (statement : Statement), statement.standsAlone = false →
        statement.PositiveDemand s := by
      intro s statement ordinary
      cases statement <;> trivial
    have kept := execAll_invariant (fun s => s.NonNull ∧ s.PositiveTdf) free
      (fun s statement after notified invariant demanded executed =>
        ⟨invariant.1.exec executed, invariant.2.exec invariant.1 demanded executed⟩)
      ⟨nonNull, positive⟩ demand done
    exact kept.2

end

/-- **Both copies of the factor are positive after every history whose messages
demand a positive factor**, and finite numbers, as the hysteresis compares them, if the
factors in the messages are. -/
theorem run_positiveTdf (created : HostReading) (events : List Event) (a : Agent)
    (demand : Meets eventStep
      (fun s event => ∀ statement ∈ statementsOf event.message, statement.PositiveDemand s)
      (Agent.initial created) events)
    (ran : run eventStep (Agent.initial created) events = some a) :
    a.PositiveTdf ∧
      ((∀ event ∈ events, ∀ statement ∈ statementsOf event.message, ∀ tdf ∈ statement.brings,
        tdf.isFinite = true) → a.AllTdf fun tdf => tdf.isFinite = true) := by
  have kept := run_invariant_of_meets (fun s : Agent => s.NonNull ∧ s.PositiveTdf)
    (fun s event next invariant demanded stepped =>
      have performed := eventStep_eq_some.mp stepped
      ⟨invariant.1.perform performed, invariant.2.perform invariant.1 demanded performed⟩)
    ⟨nonNull_initial created, positiveTdf_initial created⟩ demand ran
  refine ⟨kept.2, fun finite => ?_⟩
  have one : (1 : LongDouble).isFinite = true := rfl
  exact run_invariant_of_meets (Agent.AllTdf fun tdf => tdf.isFinite = true)
    (fun s event next all brings stepped => all.perform brings (eventStep_eq_some.mp stepped))
    (allTdf_initial one created created).agent
    (meets_of_forall (fun event member _ => finite event member) _) ran

theorem run_positiveTdf_adopted :
    ∃ a : Agent, a.PositiveTdf ∧ a.AllTdf (fun tdf => tdf.isFinite = true) ∧
      a.sharedTdf = .ofRat 3 := by
  have computed : (run eventStep (Agent.initial ⟨0, 0⟩)
      [.tcp (ascii "12") ⟨1, 1⟩, .udp (ascii "10|a|3"), .udp (ascii "10|b|-2"),
        .cycle ⟨2, 2⟩ ⟨3, 3⟩]).any (fun a => a.sharedTdf = .ofRat 3) = true := by
    decide +kernel
  obtain ⟨a, ran, shared⟩ := exists_of_any computed
  obtain ⟨positive, finite⟩ := run_positiveTdf _ _ a (by decide +kernel) ran
  exact ⟨a, positive, finite (by decide +kernel), shared⟩

/-- An operator can impose the factor zero. -/
theorem enforceTdf_zero :
    ∃ a, run eventStep (Agent.initial ⟨0, 0⟩)
        [.tcp (ascii "11|0") ⟨1, 1⟩, .cycle ⟨2, 2⟩ ⟨3, 3⟩] = some a ∧
      a.tdfTable.latestTdf = .ofRat 0 ∧ a.sharedTdf = .ofRat 0 ∧ ¬ a.PositiveTdf := by
  have computed : (run eventStep (Agent.initial ⟨0, 0⟩)
      [.tcp (ascii "11|0") ⟨1, 1⟩, .cycle ⟨2, 2⟩ ⟨3, 3⟩]).any
        (fun a => a.tdfTable.latestTdf = .ofRat 0 ∧ a.sharedTdf = .ofRat 0) = true := by
    decide +kernel
  obtain ⟨a, ran, latest, shared⟩ := exists_of_any computed
  refine ⟨a, ran, latest, shared, ?_⟩
  intro positive
  have zero_pos := positive.latestTdf
  rw [latest, LongDouble.positive_ofRat] at zero_pos
  exact lt_irrefl 0 zero_pos

end VirtualAgent
