import VirtualAgent.VirtualTime

/-!
# The pace of the monitor

An iteration of `CpuMonitor::start` ends in a sleep of the configured period times the
number of hosts in the table, so all hosts together broadcast once in a period. The product
is an `unsigned int`, the period one that is filled from a signed number, and the table may
be empty.

A run determines the period and the hosts by its messages alone (`paceOf`, `follows_of_run`).
The sleep is what is meant exactly when the period is zero, or positive with a host in the
table and a product below `2 ^ 32`, or negative without a host (`sleepUs_exact_iff`).
Each of the three ways to miss it is a message away (`pace_not_kept`): with an empty table
the loop does not sleep at all, a period of -1 makes it sleep for over an hour, and one that
is too long for three hosts is cut to less than itself.
-/

set_option autoImplicit false

namespace VirtualAgent

open CText Outcome Transition
open KeyOrder (HasKeys hasKeys_empty)

/-- The sleep that ends an iteration of `CpuMonitor::start`, in microseconds. An
`unsigned int` times an `int` is an `unsigned int`. -/
def Agent.sleepUs (a : Agent) : ℕ :=
  let tdfTableSize := a.tdfTable.getSize
  (a.configuration.packetHandlePeriod * tdfTableSize % 2 ^ 32).toNat

/-- The sleep is the period times the number of entries, and there is one when there is a
period. -/
structure Agent.SleepsFor (a : Agent) (period : ℤ) : Prop where
  total : (a.sleepUs : ℤ) = period * a.tdfTable.tdfMap.size
  positive : 0 < period → 0 < a.sleepUs

instance (a : Agent) (period : ℤ) : Decidable (a.SleepsFor period) :=
  decidable_of_iff
    ((a.sleepUs : ℤ) = period * a.tdfTable.tdfMap.size ∧ (0 < period → 0 < a.sleepUs))
    ⟨fun ⟨total, positive⟩ => { total, positive },
      fun sleepsFor => ⟨sleepsFor.total, sleepsFor.positive⟩⟩

/-! ## What messages ask for -/

/-- The period last configured, and the hosts heard of since the table was cleared. -/
structure Pace where
  period : ℤ := 10000
  hosts : Finset CString := ∅

/-- What a statement does to the pace. -/
def Statement.onPace (pace : Pace) : Statement → Pace
  | .tdfTableSet hostname _ => { pace with hosts := insert hostname pace.hosts }
  | .clear => { pace with hosts := ∅ }
  | .configure (.packetHandlePeriod period) => { pace with period }
  | _ => pace

/-- What an event does to the pace. -/
def Event.onPace (pace : Pace) (event : Event) : Pace :=
  (statementsOf event.message).foldl Statement.onPace pace

/-- The pace a list of events asks for. -/
def paceOf (events : List Event) : Pace := events.foldl Event.onPace {}

/-- The pace can be kept by an `unsigned int` number of microseconds. -/
def Pace.Fits (pace : Pace) : Prop :=
  pace.period = 0 ∨ (pace.period < 0 ∧ pace.hosts = ∅) ∨
    (0 < pace.period ∧ pace.hosts.Nonempty ∧ pace.period * pace.hosts.card < 2 ^ 32)

/-- The agent has stored the period, and its table has the hosts. -/
structure Agent.Follows (a : Agent) (pace : Pace) : Prop where
  stored : a.configuration.packetHandlePeriod = (pace.period % 2 ^ 32).toNat
  hasKeys : HasKeys a.tdfTable.tdfMap pace.hosts

theorem Agent.follows_initial (created : HostReading) : (Agent.initial created).Follows {} :=
  ⟨rfl, hasKeys_empty⟩

section

variable {a next : Agent} {pace : Pace}

theorem Agent.Follows.exec (follows : a.Follows pace) {statement : Statement}
    {host : HostReading} {notified : Bool}
    (done : statement.exec a host = .ok (next, notified)) :
    next.Follows (statement.onPace pace) := by
  obtain ⟨stored, hasKeys⟩ := follows
  cases statement with
  | tdfTableSet hostname tdf =>
      obtain ⟨tdfTable, set, rfl⟩ := exec_tdfTableSet.mp done
      refine ⟨stored, ?_⟩
      rw [TdfTable.set_tdfMap set]
      exact hasKeys.insert hostname _
  | setFlagKeep ifaceName flagKeep =>
      obtain ⟨ifaceAttrTable, -, rfl, -⟩ := exec_setFlagKeep.mp done
      exact ⟨stored, hasKeys⟩
  | clear =>
      cases done
      exact ⟨stored, hasKeys_empty⟩
  | configure setting =>
      cases done
      cases setting with
      | packetHandlePeriod period => exact ⟨rfl, hasKeys⟩
      | _ => exact ⟨stored, hasKeys⟩
  | _ =>
      cases done
      exact ⟨stored, hasKeys⟩

theorem Agent.Follows.execAll (follows : a.Follows pace) {statements : List Statement}
    {host : HostReading} (done : execAll a host statements = .ok next) :
    next.Follows (statements.foldl Statement.onPace pace) := by
  refine execAll_foldl Agent.Follows Statement.onPace ?_ follows done
  intro s pace statement after notified kept executed
  exact kept.exec executed

/-- **Each event does to the agent what it does to the pace.** A cycle does nothing to
either. -/
theorem Agent.Follows.perform (follows : a.Follows pace) {event : Event}
    (done : event.perform a = .ok next) : next.Follows (event.onPace pace) := by
  obtain ⟨suspendAt, resumeAt, rfl⟩ | ⟨host, performed⟩ := Event.perform_eq a event
  · obtain ⟨ifaceAttrTable, commands, -, tdfTable_eq, -, -, configuration_eq, -⟩ :=
      Agent.updateCycle_ok done
    refine ⟨?_, ?_⟩
    · rw [configuration_eq]
      exact follows.stored
    · rw [tdfTable_eq]
      exact follows.hasKeys
  · rw [performed] at done
    exact follows.execAll done

end

/-- **The agent follows the pace its messages ask for.** -/
theorem follows_of_run {created : HostReading} {events : List Event} {a : Agent}
    (ran : run eventStep (Agent.initial created) events = some a) : a.Follows (paceOf events) := by
  refine run_foldl Agent.Follows Event.onPace ?_ (Agent.follows_initial created) ran
  intro s pace event next follows stepped
  exact follows.perform (eventStep_eq_some.mp stepped)

/-! ## The sleep -/

theorem getSize_emod (t : TdfTable) : t.getSize % 2 ^ 32 = (t.tdfMap.size : ℤ) % 2 ^ 32 := by
  have cut := @Int.bmod_emod t.tdfMap.size (2 ^ 32)
  rwa [Nat.cast_pow] at cut

/-- The sleep is the product, cut to 32 bits once: no conversion before it loses more. -/
theorem sleepUs_eq {a : Agent} {pace : Pace} (follows : a.Follows pace) :
    (a.sleepUs : ℤ) = pace.period * pace.hosts.card % 2 ^ 32 := by
  have nonneg : ∀ x : ℤ, 0 ≤ x % 2 ^ 32 := fun x => Int.emod_nonneg x (by norm_num)
  have stored : (a.configuration.packetHandlePeriod : ℤ) = pace.period % 2 ^ 32 := by
    rw [follows.stored, Int.toNat_of_nonneg (nonneg _)]
  calc (a.sleepUs : ℤ)
      = a.configuration.packetHandlePeriod * a.tdfTable.getSize % 2 ^ 32 := by
        rw [Agent.sleepUs, Int.toNat_of_nonneg (nonneg _)]
    _ = pace.period % 2 ^ 32 % 2 ^ 32 * ((pace.hosts.card : ℤ) % 2 ^ 32) % 2 ^ 32 := by
        rw [Int.mul_emod, stored, getSize_emod, follows.hasKeys.size_eq]
    _ = pace.period * pace.hosts.card % 2 ^ 32 := by
        rw [Int.emod_emod_of_dvd _ dvd_rfl, ← Int.mul_emod]

namespace Pace

variable {pace : Pace}

theorem fits_of_neg (negative : pace.period < 0) : pace.Fits ↔ pace.hosts = ∅ := by
  simp [Fits, negative, negative.ne, negative.not_gt]

theorem fits_of_pos (positive : 0 < pace.period) :
    pace.Fits ↔ pace.hosts.Nonempty ∧ pace.period * pace.hosts.card < 2 ^ 32 := by
  simp [Fits, positive, positive.ne', positive.not_gt]

/-- **A pace fits when its product is not cut**, and is positive with the period. -/
theorem fits_iff (pace : Pace) :
    (pace.period * pace.hosts.card % 2 ^ 32 = pace.period * pace.hosts.card ∧
      (0 < pace.period → 0 < pace.period * pace.hosts.card)) ↔ pace.Fits := by
  have uncut : pace.period * pace.hosts.card % 2 ^ 32 = pace.period * pace.hosts.card ↔
      0 ≤ pace.period * pace.hosts.card ∧ pace.period * pace.hosts.card < 2 ^ 32 := by
    omega
  have hosts_pos : 0 < (pace.hosts.card : ℤ) ↔ pace.hosts.Nonempty := by
    rw [Nat.cast_pos, Finset.card_pos]
  rw [uncut]
  rcases lt_trichotomy pace.period 0 with negative | zero | positive
  · rw [fits_of_neg negative]
    constructor
    · rintro ⟨⟨nonneg, -⟩, -⟩
      by_contra some
      have card := hosts_pos.mpr (Finset.nonempty_iff_ne_empty.mpr some)
      exact nonneg.not_gt (mul_neg_of_neg_of_pos negative card)
    · intro empty
      rw [empty, Finset.card_empty, Nat.cast_zero, mul_zero]
      exact ⟨⟨le_rfl, by norm_num⟩, fun positive => absurd positive negative.not_gt⟩
  · simp [zero, Fits]
  · rw [fits_of_pos positive]
    constructor
    · rintro ⟨⟨-, small⟩, sleeps⟩
      have product := sleeps positive
      rw [mul_pos_iff_of_pos_left positive, hosts_pos] at product
      exact ⟨product, small⟩
    · rintro ⟨nonempty, small⟩
      have product := mul_pos positive (hosts_pos.mpr nonempty)
      exact ⟨⟨product.le, small⟩, fun _ => product⟩

end Pace

/-- **When the monitor sleeps for its period times the number of its hosts.** -/
theorem sleepUs_exact_iff (created : HostReading) (events : List Event) (a : Agent)
    (ran : run eventStep (Agent.initial created) events = some a) :
    a.SleepsFor (paceOf events).period ↔ (paceOf events).Fits := by
  have follows := follows_of_run ran
  have size_eq := follows.hasKeys.size_eq
  have sleep_eq := sleepUs_eq follows
  rw [← Pace.fits_iff, ← sleep_eq]
  constructor
  · rintro ⟨total, positive⟩
    rw [size_eq] at total
    refine ⟨total, ?_⟩
    intro configured
    rw [← total]
    exact_mod_cast positive configured
  · rintro ⟨uncut, positive⟩
    refine ⟨by rw [uncut, size_eq], ?_⟩
    intro configured
    rw [← uncut] at positive
    exact_mod_cast positive configured

/-- Two hosts and a period of five milliseconds. -/
theorem sleepUs_exact_iff_twoHosts :
    ∃ a, run eventStep (Agent.initial ⟨0, 0⟩)
        [.tcp (ascii "22|5000") ⟨0, 0⟩, .udp (ascii "10|a|1"), .udp (ascii "10|b|2")] = some a ∧
      a.sleepUs = 10000 ∧ a.SleepsFor 5000 := by
  have computed : (run eventStep (Agent.initial ⟨0, 0⟩)
      [.tcp (ascii "22|5000") ⟨0, 0⟩, .udp (ascii "10|a|1"), .udp (ascii "10|b|2")]).any
      (fun a => decide (a.sleepUs = 10000)) = true := by decide +kernel
  obtain ⟨a, ran, values⟩ := exists_of_any computed
  have fits : (paceOf
      [.tcp (ascii "22|5000") ⟨0, 0⟩, .udp (ascii "10|a|1"), .udp (ascii "10|b|2")]).Fits :=
    Or.inr (Or.inr (by decide +kernel))
  exact ⟨a, ran, values, (sleepUs_exact_iff ⟨0, 0⟩ _ a ran).mpr fits⟩

/-- **The pace is not kept** with a period and no host, with a negative period, and with a
period that is too long for three hosts. -/
theorem pace_not_kept :
    (∃ a, run eventStep (Agent.initial ⟨0, 0⟩)
        [.tcp (ascii "22|10000") ⟨0, 0⟩, .udp (ascii "10|a|1"), .tcp (ascii "28") ⟨0, 0⟩] = some a ∧
      a.sleepUs = 0 ∧ ¬ a.SleepsFor 10000) ∧
    (∃ a, run eventStep (Agent.initial ⟨0, 0⟩)
        [.tcp (ascii "22|-1") ⟨0, 0⟩, .udp (ascii "10|a|1")] = some a ∧
      a.sleepUs = 4294967295 ∧ ¬ a.SleepsFor (-1)) ∧
    ∃ a, run eventStep (Agent.initial ⟨0, 0⟩)
        [.tcp (ascii "22|2147483647") ⟨0, 0⟩, .udp (ascii "10|a|1"), .udp (ascii "10|b|1"),
          .udp (ascii "10|c|1")] = some a ∧
      a.sleepUs = 2147483645 ∧ ¬ a.SleepsFor 2147483647 := by
  refine ⟨?_, ?_, ?_⟩
  · apply exists_of_any
    decide +kernel
  · apply exists_of_any
    decide +kernel
  · apply exists_of_any
    decide +kernel

end VirtualAgent
