import VirtualAgent.VirtualTime

/-!
# Agreement between agents

The hosts broadcast the factors they need, and every agent sets them in its own
table, in the order in which the network delivers them. Each sender's broadcasts
arrive in order, and those of different senders in any.

The table of factors does not depend on that order. The factor an agent adopts from
it does, since the hysteresis compares with the factor adopted before. What the
hysteresis promises instead is that after each broadcast the factor in use is within
the threshold of the greatest one (`settled_of_set`). So two agents end up within the
threshold of one common maximum (`agreement_within_threshold`).
-/

set_option autoImplicit false

namespace VirtualAgent

open ExactFloat CText Outcome Transition KeyOrder
open Std (ExtTreeMap)

/-! ## Broadcasts -/

/-- A datagram that is a Protocol-10 message with a positive factor. -/
structure Broadcast where
  text : CString
  hostname : CString
  tdf : LongDouble
  parsed : parseUdpMsg text = some (.tdfTableSet hostname tdf)
  positive : tdf.Positive

/-- The entry a broadcast writes. -/
def Broadcast.entry (broadcast : Broadcast) : CString × Option TdfEntry :=
  (broadcast.hostname, some ⟨broadcast.tdf⟩)

/-- The broadcasts of each host, in the order it sent them, merged in some order. -/
def IsMerge (sent : CString → List Broadcast) (order : List Broadcast) : Prop :=
  ∀ hostname, (order.filter fun broadcast => broadcast.hostname = hostname) = sent hostname

theorem updatesOf_entries (hostname : CString) (order : List Broadcast) :
    updatesOf hostname (order.map Broadcast.entry) =
      (order.filter fun broadcast => broadcast.hostname = hostname).map Broadcast.entry := by
  rw [updatesOf, List.filter_map]
  rfl

/-- Two merges of the same broadcasts leave the same entries. -/
theorem insertAll_of_isMerge {sent : CString → List Broadcast} {first second : List Broadcast}
    (mergesFirst : IsMerge sent first) (mergesSecond : IsMerge sent second)
    (m : PointerMap TdfEntry) :
    insertAll m (first.map Broadcast.entry) = insertAll m (second.map Broadcast.entry) := by
  refine insertAll_congr m ?_
  intro hostname
  rw [updatesOf_entries, updatesOf_entries, mergesFirst, mergesSecond]

theorem IsMerge.eq_nil {sent : CString → List Broadcast} {first second : List Broadcast}
    (mergesFirst : IsMerge sent first) (mergesSecond : IsMerge sent second) (empty : first = []) :
    second = [] := by
  refine List.eq_nil_iff_forall_not_mem.mpr ?_
  intro broadcast member
  have among : broadcast ∈ second.filter fun other => other.hostname = broadcast.hostname := by
    simpa using member
  rw [mergesSecond, ← mergesFirst, empty] at among
  cases among

/-! ## The hysteresis -/

/-- The factor in use is within the threshold of the greatest one. -/
def TdfTable.Settled (t : TdfTable) (threshold : LongDouble) : Prop :=
  ∃ maxVal, t.maxTdf = .ok maxVal ∧ ¬ threshold ≤ t.gap maxVal

/-- **Setting an entry of an enabled table settles it.** -/
theorem settled_of_set {t next : TdfTable} {threshold : LongDouble} {hostname : CString}
    {tdf : LongDouble} {notified : Bool} (positive : threshold.Positive)
    (enabled : t.isTableEnabled = true)
    (done : t.set threshold hostname tdf = .ok (next, notified)) : next.Settled threshold := by
  obtain ⟨rfl, -, near⟩ | ⟨maxVal, greatest, rfl, -⟩ := TdfTable.set_cases done
  · obtain ⟨maxVal, greatest, within⟩ := near enabled
    exact ⟨maxVal, greatest, within⟩
  · exact ⟨maxVal, greatest, LongDouble.not_le_relative_self positive⟩

/-- On rational numbers the test bounds the difference by that part of the latest
factor. -/
theorem abs_sub_lt_of_gap {t : TdfTable} {threshold maxVal latest : ℚ} (positive : 0 < latest)
    (latest_eq : t.latestTdf = .ofRat latest)
    (within : ¬ LongDouble.ofRat threshold ≤ t.gap (.ofRat maxVal)) :
    |maxVal - latest| < threshold * latest := by
  simp only [TdfTable.gap, Arithmetic.exact_extended] at within
  rw [latest_eq, LongDouble.ofRat_sub, LongDouble.fabs_ofRat, LongDouble.ofRat_div _ positive,
    LongDouble.ofRat_le, not_le] at within
  exact (div_lt_iff₀ positive).mp within

/-! ## Processing broadcasts -/

/-- What an agent's table is after processing broadcasts. -/
structure Processed (a b : Agent) (order : List Broadcast) : Prop where
  tdfMap : b.tdfTable.tdfMap = insertAll a.tdfTable.tdfMap (order.map Broadcast.entry)
  settled : order ≠ [] ∨ a.tdfTable.Settled a.configuration.tdfChangeThreshold →
    b.tdfTable.Settled a.configuration.tdfChangeThreshold
  untouched : order = [] → b.tdfTable.latestTdf = a.tdfTable.latestTdf

theorem eventStep_broadcast {a next : Agent} {broadcast : Broadcast} :
    eventStep a (.udp broadcast.text) = some next ↔
      ∃ tdfTable notified, a.tdfTable.set a.configuration.tdfChangeThreshold broadcast.hostname
        broadcast.tdf = .ok (tdfTable, notified) ∧ next = { a with tdfTable } := by
  rw [eventStep_eq_some, Event.perform, broadcast.parsed]
  refine execAll_singleton.trans ?_
  constructor
  · rintro ⟨notified, executed⟩
    obtain ⟨tdfTable, set, rfl⟩ := exec_tdfTableSet.mp executed
    exact ⟨tdfTable, notified, set, rfl⟩
  · rintro ⟨tdfTable, notified, set, rfl⟩
    exact ⟨notified, exec_tdfTableSet.mpr ⟨tdfTable, set, rfl⟩⟩

/-- **The table after broadcasts**: every entry is written, and the factor in use is
near the greatest. -/
theorem processed_of_run {a b : Agent} {order : List Broadcast}
    (positive : a.configuration.tdfChangeThreshold.Positive)
    (enabled : a.tdfTable.isTableEnabled = true)
    (ran : run eventStep a (order.map fun broadcast => .udp broadcast.text) = some b) :
    Processed a b order := by
  induction order generalizing a with
  | nil =>
      cases ran
      exact ⟨rfl, fun settled => settled.resolve_left (by simp), fun _ => rfl⟩
  | cons broadcast rest ih =>
      obtain ⟨next, stepped, later⟩ := run_cons_eq_some.mp ran
      obtain ⟨tdfTable, notified, set, rfl⟩ := eventStep_broadcast.mp stepped
      have enabledNext : tdfTable.isTableEnabled = true := by
        obtain ⟨rfl, -⟩ | ⟨maxVal, -, rfl, -⟩ := TdfTable.set_cases set
        · exact enabled
        · exact enabled
      have processed := ih (a := { a with tdfTable }) positive enabledNext later
      refine ⟨?_, fun _ => processed.settled (Or.inr (settled_of_set positive enabled set)),
        fun empty => by cases empty⟩
      rw [processed.tdfMap, TdfTable.set_tdfMap set]
      rfl

/-- **Agents that process the same broadcasts, merged in any order, hold the same
table, and the factor each has adopted is within the threshold of its greatest
one.** So the factors differ by less than the threshold's part of their sum. -/
theorem agreement_within_threshold (sent : CString → List Broadcast)
    (first second : List Broadcast) (mergesFirst : IsMerge sent first)
    (mergesSecond : IsMerge sent second) (a₁ a₂ b₁ b₂ : Agent) (threshold : LongDouble)
    (positive : threshold.Positive) (threshold₁ : a₁.configuration.tdfChangeThreshold = threshold)
    (threshold₂ : a₂.configuration.tdfChangeThreshold = threshold)
    (same : a₁.tdfTable = a₂.tdfTable) (enabled : a₁.tdfTable.isTableEnabled = true)
    (ran₁ : run eventStep a₁ (first.map fun broadcast => .udp broadcast.text) = some b₁)
    (ran₂ : run eventStep a₂ (second.map fun broadcast => .udp broadcast.text) = some b₂) :
    b₁.tdfTable.tdfMap = b₂.tdfTable.tdfMap ∧
      (first = [] → b₁.tdfTable.latestTdf = b₂.tdfTable.latestTdf) ∧
      (first ≠ [] → ∃ maxVal, b₁.tdfTable.maxTdf = .ok maxVal ∧ b₂.tdfTable.maxTdf = .ok maxVal ∧
        ¬ threshold ≤ b₁.tdfTable.gap maxVal ∧ ¬ threshold ≤ b₂.tdfTable.gap maxVal ∧
        ∀ t m l₁ l₂ : ℚ, threshold = .ofRat t → maxVal = .ofRat m →
          b₁.tdfTable.latestTdf = .ofRat l₁ → b₂.tdfTable.latestTdf = .ofRat l₂ →
          0 < l₁ → 0 < l₂ →
          |m - l₁| < t * l₁ ∧ |m - l₂| < t * l₂ ∧ |l₁ - l₂| < t * (l₁ + l₂)) := by
  subst threshold₁
  have processed₁ := processed_of_run positive enabled ran₁
  have processed₂ := processed_of_run (threshold₂ ▸ positive) (same ▸ enabled) ran₂
  have maps : b₁.tdfTable.tdfMap = b₂.tdfTable.tdfMap := by
    rw [processed₁.tdfMap, processed₂.tdfMap, same]
    exact insertAll_of_isMerge mergesFirst mergesSecond _
  refine ⟨maps, ?_, ?_⟩
  · intro empty
    rw [processed₁.untouched empty, processed₂.untouched (mergesFirst.eq_nil mergesSecond empty),
      same]
  · intro nonempty
    have nonempty₂ : second ≠ [] := fun empty => nonempty (mergesSecond.eq_nil mergesFirst empty)
    obtain ⟨maxVal, greatest₁, within₁⟩ := processed₁.settled (Or.inl nonempty)
    obtain ⟨maxVal₂, greatest₂, within₂⟩ := processed₂.settled (Or.inl nonempty₂)
    obtain rfl : maxVal₂ = maxVal := by
      have greatest : b₁.tdfTable.maxTdf = .ok maxVal₂ := by
        rw [TdfTable.maxTdf, maps]
        exact greatest₂
      exact Except.ok.inj (greatest.symm.trans greatest₁)
    rw [threshold₂] at within₂
    refine ⟨maxVal₂, greatest₁, greatest₂, within₁, within₂, ?_⟩
    intro t m l₁ l₂ threshold_eq maxVal_eq latest₁ latest₂ positive₁ positive₂
    rw [threshold_eq, maxVal_eq] at within₁ within₂
    have near₁ := abs_sub_lt_of_gap positive₁ latest₁ within₁
    have near₂ := abs_sub_lt_of_gap positive₂ latest₂ within₂
    refine ⟨near₁, near₂, ?_⟩
    calc |l₁ - l₂| ≤ |l₁ - m| + |m - l₂| := abs_sub_le l₁ m l₂
      _ = |m - l₁| + |m - l₂| := by rw [abs_sub_comm l₁ m]
      _ < t * l₁ + t * l₂ := add_lt_add near₁ near₂
      _ = t * (l₁ + l₂) := by ring

/-! ## Two senders -/

/-- Broadcasts of two hosts, whose factors are nearer to each other than a tenth. -/
def broadcastA : Broadcast :=
  ⟨ascii "10|a|1.5", ascii "a", .ofRat (3 / 2), by decide +kernel, by decide +kernel⟩

def broadcastB : Broadcast :=
  ⟨ascii "10|b|1.625", ascii "b", .ofRat (13 / 8), by decide +kernel, by decide +kernel⟩

/-- An agent whose table was just enabled. -/
def enabledAgent : Agent := { Agent.initial ⟨0, 0⟩ with tdfTable := { isTableEnabled := true } }

/-- What the two hosts send. -/
def sentAB (hostname : CString) : List Broadcast :=
  [broadcastA, broadcastB].filter fun broadcast => broadcast.hostname = hostname

theorem isMerge_reversed : IsMerge sentAB [broadcastB, broadcastA] := by
  intro hostname
  by_cases atA : broadcastA.hostname = hostname
  · have atB : broadcastB.hostname ≠ hostname := atA ▸ by decide
    simp [sentAB, atA, atB]
  · simp [sentAB, List.filter_cons, atA]

/-- **The order decides the factor**: the first of the two is adopted, and the other
is too near to it. -/
theorem latestTdf_of_orders :
    IsMerge sentAB [broadcastA, broadcastB] ∧ IsMerge sentAB [broadcastB, broadcastA] ∧
      enabledAgent.configuration.tdfChangeThreshold.Positive ∧
      ∃ b₁ b₂ : Agent,
        run eventStep enabledAgent
          ([broadcastA, broadcastB].map fun broadcast => .udp broadcast.text) = some b₁ ∧
        run eventStep enabledAgent
          ([broadcastB, broadcastA].map fun broadcast => .udp broadcast.text) = some b₂ ∧
        b₁.tdfTable.latestTdf = .ofRat (3 / 2) ∧ b₂.tdfTable.latestTdf = .ofRat (13 / 8) ∧
        b₁.tdfTable.latestTdf ≠ b₂.tdfTable.latestTdf := by
  have first : (run eventStep enabledAgent
      ([broadcastA, broadcastB].map fun broadcast => .udp broadcast.text)).any
        (fun b => b.tdfTable.latestTdf = .ofRat (3 / 2)) = true := by decide +kernel
  have second : (run eventStep enabledAgent
      ([broadcastB, broadcastA].map fun broadcast => .udp broadcast.text)).any
        (fun b => b.tdfTable.latestTdf = .ofRat (13 / 8)) = true := by decide +kernel
  obtain ⟨b₁, ran₁, latest₁⟩ := exists_of_any first
  obtain ⟨b₂, ran₂, latest₂⟩ := exists_of_any second
  refine ⟨fun _ => rfl, isMerge_reversed, by decide +kernel, b₁, b₂, ran₁, ran₂, latest₁, latest₂,
    ?_⟩
  rw [latest₁, latest₂]
  decide +kernel

theorem agreement_within_threshold_orders :
    ∃ b₁ b₂ : Agent, b₁.tdfTable.tdfMap = b₂.tdfTable.tdfMap ∧
      ∃ maxVal, b₁.tdfTable.maxTdf = .ok maxVal ∧ b₂.tdfTable.maxTdf = .ok maxVal ∧
        ¬ enabledAgent.configuration.tdfChangeThreshold ≤ b₁.tdfTable.gap maxVal ∧
        ¬ enabledAgent.configuration.tdfChangeThreshold ≤ b₂.tdfTable.gap maxVal := by
  have first : (run eventStep enabledAgent
      ([broadcastA, broadcastB].map fun broadcast => .udp broadcast.text)).isSome = true := by
    decide +kernel
  have second : (run eventStep enabledAgent
      ([broadcastB, broadcastA].map fun broadcast => .udp broadcast.text)).isSome = true := by
    decide +kernel
  obtain ⟨b₁, ran₁⟩ := Option.isSome_iff_exists.mp first
  obtain ⟨b₂, ran₂⟩ := Option.isSome_iff_exists.mp second
  obtain ⟨maps, -, near⟩ := agreement_within_threshold sentAB [broadcastA, broadcastB]
    [broadcastB, broadcastA] (fun _ => rfl) isMerge_reversed enabledAgent enabledAgent b₁ b₂
    enabledAgent.configuration.tdfChangeThreshold (by decide +kernel) rfl rfl rfl rfl ran₁ ran₂
  obtain ⟨maxVal, greatest₁, greatest₂, within₁, within₂, -⟩ := near (by simp)
  exact ⟨b₁, b₂, maps, maxVal, greatest₁, greatest₂, within₁, within₂⟩

end VirtualAgent
