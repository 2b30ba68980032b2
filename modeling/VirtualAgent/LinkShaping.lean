import VirtualAgent.MissingEntry
import VirtualAgent.CommandLine
import VirtualAgent.Library.Neighbours

/-!
# Link shaping and the dilation factor

Three paths program the kernel: a Protocol-1 message replaces what is on a device, a
Protocol-3 message changes it, and an update cycle changes all devices. Protocol-1
uses the factor one, the others the latest factor of the table.

So a device is shaped to the factor the guests run on unless a Protocol-1 message
came while that was the latest one, or a message shaped a device ahead of an update
cycle that then had nothing to change. The commands find the device if its name is one
argument, and the numbers in them are those of the factor if a `long long` holds these and
no `long double` is rounded to the next integer (`FitsLongLong`). `AdmitsShaping` asks for
these and excludes Protocol-3 messages for devices that are not shaped, and under it the
shaping always matches (`run_shapingMatches`).
-/

set_option autoImplicit false

namespace VirtualAgent

open ExactFloat CText Outcome Transition
open Std (ExtTreeMap)

/-! ## The numbers -/

/-- The rate divided by a factor, without its fraction. -/
def dilatedRate (rate : ℤ) (tdf : LongDouble) : ℤ := Truncation.truncate (rate / tdf.toRat)

/-- The delay multiplied by a factor, without its fraction. -/
def dilatedDelay (delay : ℤ) (tdf : LongDouble) : ℤ := Truncation.truncate (delay * tdf.toRat)

/-- The factor is a number that can divide. -/
def Divides (tdf : LongDouble) : Prop := tdf.isFinite = true ∧ tdf.toRat ≠ 0

/-- A `long long` holds the number without its fraction, and a `long double` does not round
it to the next integer. -/
def FitsLongLong (q : ℚ) : Prop :=
  (-2 ^ 63 ≤ Truncation.truncate q ∧ Truncation.truncate q < 2 ^ 63) ∧
    Format.extended.KeepsInteger q

/-- The quotient of the rate and the product of the delay fit. -/
def Dilates (rate delay : ℤ) (tdf : LongDouble) : Prop :=
  Divides tdf ∧ FitsLongLong (rate / tdf.toRat) ∧ FitsLongLong (delay * tdf.toRat)

/-- The factor does not change the rate and the delay. -/
def Keeps (rate delay : ℤ) (tdf : LongDouble) : Prop :=
  Divides tdf ∧ dilatedRate rate tdf = rate ∧ dilatedDelay delay tdf = delay

instance (tdf : LongDouble) : Decidable (Divides tdf) :=
  inferInstanceAs (Decidable (_ = _ ∧ _ ≠ _))

instance : DecidablePred FitsLongLong := fun _ => inferInstanceAs (Decidable ((_ ≤ _ ∧ _ < _) ∧ _))

instance (rate delay : ℤ) (tdf : LongDouble) : Decidable (Dilates rate delay tdf) :=
  inferInstanceAs (Decidable (_ ∧ _ ∧ _))

instance (rate delay : ℤ) (tdf : LongDouble) : Decidable (Keeps rate delay tdf) :=
  inferInstanceAs (Decidable (_ ∧ _ = _ ∧ _ = _))

/-- A number that fits is converted without its fraction. -/
theorem toInt64_round_of_fits {x : LongDouble} {q : ℚ} (value : x.HasValue q)
    (fits : FitsLongLong q) :
    (Format.extended.round x).toInt64 = Truncation.truncate q := by
  obtain ⟨held, keeps⟩ := fits
  have bounded : |q| < 2 ^ 64 := by
    have whole : |(Truncation.truncate q : ℚ)| ≤ 2 ^ 63 := by
      exact_mod_cast abs_le.mpr ⟨held.1, held.2.le⟩
    have dropped := Truncation.abs_sub_truncate_lt q
    have triangle := abs_sub_abs_le_abs_sub q (Truncation.truncate q)
    linarith
  have few : ⌊|q|⌋₊ < 2 ^ (Format.extended.digits + 1) := by
    rw [Nat.floor_lt (abs_nonneg q)]
    exact_mod_cast bounded
  have small : |q| ≤ 2 ^ Format.extended.top :=
    bounded.le.trans (pow_le_pow_right₀ one_le_two (by decide))
  have rounded := Format.extended.hasValue_round_of_le value small
  have same := Format.truncate_rounded (f := Format.extended) (by decide) few keeps
  rw [LongDouble.toInt64, rounded.toInt, same, if_pos held]

/-- **The code computes the rate and the delay of the factor** when they fit. -/
theorem adjusted_of_dilates {rate delay : ℤ} {tdf : LongDouble} (dilates : Dilates rate delay tdf) :
    adjustedRate rate tdf = dilatedRate rate tdf ∧
      adjustedDelay delay tdf = dilatedDelay delay tdf := by
  obtain ⟨⟨finite, nonzero⟩, rateFits, delayFits⟩ := dilates
  have value : tdf.HasValue tdf.toRat := ⟨finite, rfl⟩
  exact ⟨toInt64_round_of_fits ((LongDouble.hasValue_ofInt rate).div value nonzero) rateFits,
    toInt64_round_of_fits ((LongDouble.hasValue_ofInt delay).mul value) delayFits⟩

/-- Every interface to keep is programmed for the factor. -/
def Agent.ShapedFor (a : Agent) (tdf : LongDouble) : Prop :=
  ∀ (ifaceName : CString) (entry : InterfaceAttributeEntry),
    a.ifaceAttrTable.ifaceAttrMap[ifaceName]? = some (some entry) → entry.flagKeep = true →
      Divides tdf ∧ ∃ d, a.kernel ifaceName = some d ∧
        d.Programmed (dilatedRate entry.rate tdf) (dilatedDelay entry.delay tdf)

/-- Every interface of the table has a device that can be changed. -/
def Agent.Changeable (a : Agent) : Prop :=
  ∀ ifaceName ∈ a.ifaceAttrTable.ifaceAttrMap,
    ∃ d, a.kernel ifaceName = some d ∧ d.Complete

/-! ## What was shaped ahead -/

/-- The latest factor is not in shared memory yet. -/
def Agent.updatePending (a : Agent) : Bool := decide (a.tdfTable.latestTdf ≠ a.sharedTdf)

/-- A device was shaped since the last cycle while an update was pending. -/
def recordMessage (a : Agent) (shapedAhead : Bool) : Option Message → Bool
  | some (.replaceInterface _ _ _) => shapedAhead || a.updatePending
  | some (.changeInterface _ _ _) => shapedAhead || a.updatePending
  | _ => shapedAhead

def recordShaping (a : Agent) (shapedAhead : Bool) : Event → Bool
  | .cycle _ _ => false
  | event => recordMessage a shapedAhead event.message

/-- A message that keeps the shaping matched: Protocol-1 for a name that is one argument,
with an update pending or with a rate and a delay that the factor does not change; Protocol-3
for an interface of the table, with an update pending or with numbers that fit; and, once a
device was shaped ahead, no factor that cancels the update. -/
def AdmitsMessage (s : Agent × Bool) : Message → Prop
  | .replaceInterface ifaceName rate delay => IsArgument ifaceName ∧
      (s.1.updatePending = false → Keeps rate delay s.1.tdfTable.latestTdf)
  | .changeInterface ifaceName rate delay => ifaceName ∈ s.1.ifaceAttrTable.ifaceAttrMap ∧
      (s.1.updatePending = false → Dilates rate delay s.1.tdfTable.latestTdf)
  | .enforceTdf tdf => s.2 = true → tdf ≠ s.1.sharedTdf
  | .tdfTableSet hostname tdf => s.2 = true → s.1.tdfTable.isTableEnabled = true →
      (s.1.tdfTable.written hostname tdf).maxTdf ≠ .ok s.1.sharedTdf
  | _ => True

/-- An entry whose numbers fit, if it is to keep. -/
def AdmitsEntry (tdf : LongDouble) : Option InterfaceAttributeEntry → Prop
  | some entry => entry.flagKeep = true → Dilates entry.rate entry.delay tdf
  | none => True

/-- An event that keeps the shaping matched: a message that does, or a cycle for which the
numbers of every interface to keep fit. -/
def AdmitsShaping (s : Agent × Bool) : Event → Prop
  | .cycle _ _ => ∀ position ∈ s.1.ifaceAttrTable.ifaceAttrMap.toList,
      AdmitsEntry s.1.tdfTable.latestTdf position.2
  | event => ∀ message ∈ event.message, AdmitsMessage s message

instance (s : Agent × Bool) : DecidablePred (AdmitsMessage s)
  | .replaceInterface _ _ _ => inferInstanceAs (Decidable (_ ∧ (_ = _ → _)))
  | .changeInterface ifaceName rate delay =>
      inferInstanceAs (Decidable (ifaceName ∈ s.1.ifaceAttrTable.ifaceAttrMap ∧
        (s.1.updatePending = false → Dilates rate delay s.1.tdfTable.latestTdf)))
  | .enforceTdf _ => inferInstanceAs (Decidable (_ = _ → _ ≠ _))
  | .tdfTableSet _ _ => inferInstanceAs (Decidable (_ = _ → _ = _ → _ ≠ _))
  | .eraseInterface _ | .enableTable | .disableTable | .clearTable | .suspendVMs | .resumeVMs
  | .configure _ => inferInstanceAs (Decidable True)

instance (tdf : LongDouble) : DecidablePred (AdmitsEntry tdf)
  | some _ => inferInstanceAs (Decidable (_ = _ → _))
  | none => inferInstanceAs (Decidable True)

instance (s : Agent × Bool) : DecidablePred (AdmitsShaping s)
  | .cycle _ _ => inferInstanceAs (Decidable (∀ position ∈ _, AdmitsEntry _ _))
  | .udp msg => inferInstanceAs (Decidable (∀ message ∈ parseUdpMsg msg, AdmitsMessage s message))
  | .tcp msg _ => inferInstanceAs (Decidable (∀ message ∈ parseTcpMsg msg, AdmitsMessage s message))

/-! ## The invariant -/

/-- What holds between whole messages and cycles. -/
structure ShapingInvariant (s : Agent × Bool) : Prop where
  nonNull : s.1.NonNull
  names : ∀ ifaceName ∈ s.1.ifaceAttrTable.ifaceAttrMap, IsArgument ifaceName
  changeable : s.1.Changeable
  shaped : s.2 = false → s.1.ShapedFor s.1.sharedTdf
  ahead : s.2 = true → s.1.updatePending = true

theorem shapingInvariant_initial (created : HostReading) :
    ShapingInvariant (Agent.initial created, false) where
  nonNull := nonNull_initial created
  names ifaceName member := by simp [Agent.initial] at member
  changeable ifaceName member := by simp [Agent.initial] at member
  shaped _ ifaceName entry found := by simp [Agent.initial] at found
  ahead := by simp

section

variable {a next : Agent} {ahead : Bool} {host : HostReading}

/-- Commands that are received as they are move the devices as they say. -/
theorem kernel_append {commands : List TcCommand}
    (tcCommands_eq : next.tcCommands = a.tcCommands ++ commands)
    (received : commands.map TcCommand.received = commands) :
    next.kernel = a.kernel.performAll commands := by
  rw [Agent.kernel, tcCommands_eq, List.map_append, performAll_append, received, Agent.kernel]

/-- Programming one device, and setting its entry, leaves the others matched. -/
theorem ShapedFor.set {tdf : LongDouble} (shaped : a.ShapedFor tdf) (ifaceName : CString)
    (rate delay : ℤ) (actions : List TcAction)
    (ifaceAttrTable_eq : next.ifaceAttrTable = a.ifaceAttrTable.set ifaceName rate delay)
    (kernel_eq : next.kernel = a.kernel.performAll (actions.map (TcCommand.mk ifaceName)))
    (programmed : Divides tdf ∧ ∃ d, performActions (a.kernel ifaceName) actions = some d ∧
      d.Programmed (dilatedRate rate tdf) (dilatedDelay delay tdf)) : next.ShapedFor tdf := by
  intro other entry found keep
  rw [kernel_eq]
  rw [ifaceAttrTable_eq, InterfaceAttributeTable.set, ExtTreeMap.getElem?_insert] at found
  by_cases same : ifaceName = other
  · subst same
    simp at found
    subst found
    rw [performAll_same]
    exact programmed
  · simp [same] at found
    rw [performAll_other _ (Ne.symm same)]
    exact shaped other entry found keep

theorem Changeable.set (changeable : a.Changeable) (ifaceName : CString)
    (rate delay : ℤ) (actions : List TcAction)
    (ifaceAttrTable_eq : next.ifaceAttrTable = a.ifaceAttrTable.set ifaceName rate delay)
    (kernel_eq : next.kernel = a.kernel.performAll (actions.map (TcCommand.mk ifaceName)))
    (complete : ∃ d, performActions (a.kernel ifaceName) actions = some d ∧ d.Complete) :
    next.Changeable := by
  intro other member
  rw [kernel_eq]
  rw [ifaceAttrTable_eq, InterfaceAttributeTable.set, ExtTreeMap.mem_insert] at member
  by_cases same : ifaceName = other
  · subst same
    rw [performAll_same]
    exact complete
  · rw [performAll_other _ (Ne.symm same)]
    exact changeable other (by simpa [same] using member)

/-- A message that shapes one device. -/
theorem ShapingInvariant.shape (invariant : ShapingInvariant (a, ahead)) (nonNull : next.NonNull)
    {ifaceName : CString} (isArgument : IsArgument ifaceName) (rate delay : ℤ)
    (actions : List TcAction)
    (tdfTable_eq : next.tdfTable = a.tdfTable) (sharedTdf_eq : next.sharedTdf = a.sharedTdf)
    (ifaceAttrTable_eq : next.ifaceAttrTable = a.ifaceAttrTable.set ifaceName rate delay)
    (kernel_eq : next.kernel = a.kernel.performAll (actions.map (TcCommand.mk ifaceName)))
    {rate' delay' : ℤ}
    (programmed : ∃ d, performActions (a.kernel ifaceName) actions = some d ∧
      d.Programmed rate' delay')
    (matched : a.updatePending = false → Divides a.tdfTable.latestTdf ∧
      rate' = dilatedRate rate a.tdfTable.latestTdf ∧
      delay' = dilatedDelay delay a.tdfTable.latestTdf) :
    ShapingInvariant (next, ahead || a.updatePending) := by
  obtain ⟨d, shapedDevice, programmed⟩ := programmed
  refine ⟨nonNull, ?_, ?_, ?_, ?_⟩
  · intro other member
    rw [ifaceAttrTable_eq, InterfaceAttributeTable.set, ExtTreeMap.mem_insert] at member
    rcases member with same | member
    · obtain rfl : ifaceName = other := Std.LawfulEqCmp.compare_eq_iff_eq.mp same
      exact isArgument
    · exact invariant.names other member
  · exact Changeable.set invariant.changeable ifaceName rate delay actions ifaceAttrTable_eq
      kernel_eq ⟨d, shapedDevice, programmed.complete⟩
  · intro notAhead
    obtain ⟨rfl, current⟩ : ahead = false ∧ a.updatePending = false := by simpa using notAhead
    have same : a.tdfTable.latestTdf = a.sharedTdf := by
      simpa [Agent.updatePending] using current
    obtain ⟨divides, rate_eq, delay_eq⟩ := matched current
    rw [same] at divides rate_eq delay_eq
    rw [sharedTdf_eq]
    exact ShapedFor.set (invariant.shaped rfl) ifaceName rate delay actions ifaceAttrTable_eq
      kernel_eq ⟨divides, d, shapedDevice, rate_eq ▸ delay_eq ▸ programmed⟩
  · intro wasAhead
    have pending : a.updatePending = true := by
      rcases Bool.or_eq_true_iff.mp wasAhead with wasAhead | pending
      · exact invariant.ahead wasAhead
      · exact pending
    rw [Agent.updatePending, tdfTable_eq, sharedTdf_eq]
    exact pending

/-- A message that neither shapes a device nor touches the interface table. -/
theorem ShapingInvariant.untouched (invariant : ShapingInvariant (a, ahead))
    (nonNull : next.NonNull) (sharedTdf_eq : next.sharedTdf = a.sharedTdf)
    (ifaceAttrTable_eq : next.ifaceAttrTable = a.ifaceAttrTable)
    (tcCommands_eq : next.tcCommands = a.tcCommands)
    (pending : ahead = true → next.updatePending = true) : ShapingInvariant (next, ahead) where
  nonNull := nonNull
  names := by
    rw [ifaceAttrTable_eq]
    exact invariant.names
  changeable := by
    have changeable := invariant.changeable
    rwa [Agent.Changeable, Agent.kernel, ← ifaceAttrTable_eq, ← tcCommands_eq] at changeable
  shaped notAhead := by
    have shaped := invariant.shaped notAhead
    rwa [Agent.ShapedFor, Agent.kernel, ← ifaceAttrTable_eq, ← tcCommands_eq, ← sharedTdf_eq]
      at shaped
  ahead := pending

/-- Marking an interface to be deleted. -/
theorem ShapingInvariant.mark (invariant : ShapingInvariant (a, ahead))
    {ifaceName : CString} {ifaceAttrTable : InterfaceAttributeTable}
    (marked : a.ifaceAttrTable.setFlagKeep ifaceName false = .ok ifaceAttrTable) :
    ShapingInvariant ({ a with ifaceAttrTable }, ahead) := by
  obtain ⟨entry, found, rfl⟩ := InterfaceAttributeTable.setFlagKeep_eq_ok.mp marked
  have before : ∀ other, other ∈ a.ifaceAttrTable.ifaceAttrMap.insert ifaceName
      (some { entry with flagKeep := false }) → other ∈ a.ifaceAttrTable.ifaceAttrMap := by
    intro other member
    rw [ExtTreeMap.mem_insert] at member
    rcases member with same | member
    · obtain rfl : ifaceName = other := Std.LawfulEqCmp.compare_eq_iff_eq.mp same
      rw [ExtTreeMap.mem_iff_isSome_getElem?, found]
      rfl
    · exact member
  refine ⟨⟨invariant.nonNull.tdfMap, invariant.nonNull.ifaceAttrMap.insert _ _⟩,
    fun other member => invariant.names other (before other member),
    fun other member => invariant.changeable other (before other member), ?_, invariant.ahead⟩
  · intro notAhead other kept foundKept keep
    rw [ExtTreeMap.getElem?_insert] at foundKept
    by_cases same : ifaceName = other
    · subst same
      simp at foundKept
      subst foundKept
      cases keep
    · simp [same] at foundKept
      exact invariant.shaped notAhead other kept foundKept keep

/-- The commands of a pass are received as they are. -/
theorem map_received_treatments {tdf : LongDouble}
    {positions : List (CString × Option InterfaceAttributeEntry)}
    (names : ∀ position ∈ positions, IsArgument position.1) :
    (positions.flatMap (treatment tdf)).map TcCommand.received =
      positions.flatMap (treatment tdf) := by
  induction positions with
  | nil => rfl
  | cons position rest ih =>
      obtain ⟨ifaceName, pointer⟩ := position
      obtain ⟨isArgument, restNames⟩ := List.forall_mem_cons.mp names
      rw [List.flatMap_cons, List.map_append, ih restNames]
      congr 1
      cases pointer with
      | none => rfl
      | some entry =>
          refine map_received isArgument entry.rate entry.delay tdf ?_
          intro action member
          rw [treatmentActions] at member
          split at member
          · exact List.mem_append_left _ (List.mem_append_right _ member)
          · exact List.mem_append_right _ member

/-- **A whole cycle shapes every interface to keep for the factor it puts in shared
memory.** -/
theorem ShapingInvariant.cycle (invariant : ShapingInvariant (a, ahead))
    {suspendAt resumeAt : HostReading}
    (admits : AdmitsShaping (a, ahead) (.cycle suspendAt resumeAt))
    (done : a.updateCycle suspendAt resumeAt = .ok next) : ShapingInvariant (next, false) := by
  have nonNull := invariant.nonNull
  obtain ⟨ifaceAttrTable, commands, passed, tdfTable_eq, ifaceAttrTable_eq, sharedTdf_eq, -,
    tcCommands_eq⟩ := Agent.updateCycle_ok done
  rw [updateInterfaceAttribute_eq nonNull.ifaceAttrMap] at passed
  cases passed
  have distinct : a.ifaceAttrTable.ifaceAttrMap.toList.Pairwise fun p q => p.1 ≠ q.1 :=
    (ExtTreeMap.distinct_keys_toList).imp fun apart same =>
      apart (Std.LawfulEqCmp.compare_eq_iff_eq.mpr same)
  have isMember : ∀ position ∈ a.ifaceAttrTable.ifaceAttrMap.toList,
      position.1 ∈ a.ifaceAttrTable.ifaceAttrMap := by
    intro position member
    have found := ExtTreeMap.mem_toList_iff_getElem?_eq_some.mp member
    exact ExtTreeMap.mem_iff_isSome_getElem?.mpr (by simp [found])
  have kernel_eq := kernel_append tcCommands_eq
    (map_received_treatments fun position member => invariant.names _ (isMember position member))
  -- an entry that is left was kept, and its device is changed to the factor
  have shapedNow : ∀ (ifaceName : CString) (entry : InterfaceAttributeEntry),
      next.ifaceAttrTable.ifaceAttrMap[ifaceName]? = some (some entry) →
        ifaceName ∈ a.ifaceAttrTable.ifaceAttrMap ∧ Divides a.tdfTable.latestTdf ∧
        ∃ d, next.kernel ifaceName = some d ∧
          d.Programmed (dilatedRate entry.rate a.tdfTable.latestTdf)
            (dilatedDelay entry.delay a.tdfTable.latestTdf) := by
    intro ifaceName entry found
    rw [ifaceAttrTable_eq, ExtTreeMap.getElem?_filter', Option.filter_eq_some_iff] at found
    obtain ⟨found, kept⟩ := found
    have keep : entry.flagKeep = true := by simpa [isKept] using kept
    have member := ExtTreeMap.mem_toList_iff_getElem?_eq_some.mpr found
    obtain ⟨d, shaped, complete⟩ := invariant.changeable ifaceName (isMember _ member)
    have dilates := admits _ member keep
    obtain ⟨rate_eq, delay_eq⟩ := adjusted_of_dilates dilates
    refine ⟨isMember _ member, dilates.1, ?_⟩
    change a.kernel ifaceName = some d at shaped
    rw [kernel_eq, performAll_treatments _ distinct member, treatmentActions, if_pos keep, shaped,
      ← rate_eq, ← delay_eq]
    exact performActions_changeActions complete _ _ _
  have entryOf : ∀ ifaceName ∈ next.ifaceAttrTable.ifaceAttrMap, ∃ entry,
      next.ifaceAttrTable.ifaceAttrMap[ifaceName]? = some (some entry) := by
    intro ifaceName member
    obtain ⟨pointer, found⟩ :=
      Option.isSome_iff_exists.mp (ExtTreeMap.mem_iff_isSome_getElem?.mp member)
    obtain ⟨entry, rfl⟩ : ∃ entry, pointer = some entry := Option.ne_none_iff_exists'.mp
      fun null => (nonNull.updateCycle done).ifaceAttrMap ifaceName (null ▸ found)
    exact ⟨entry, found⟩
  refine ⟨nonNull.updateCycle done, ?_, ?_, ?_, by simp⟩
  · intro ifaceName member
    obtain ⟨entry, found⟩ := entryOf ifaceName member
    exact invariant.names ifaceName (shapedNow ifaceName entry found).1
  · intro ifaceName member
    obtain ⟨entry, found⟩ := entryOf ifaceName member
    obtain ⟨-, -, d, shaped, programmed⟩ := shapedNow ifaceName entry found
    exact ⟨d, shaped, programmed.complete⟩
  · intro _ ifaceName entry found _
    rw [sharedTdf_eq]
    exact (shapedNow ifaceName entry found).2

/-- **A whole message keeps the invariant** when it is admitted. -/
theorem ShapingInvariant.message (invariant : ShapingInvariant (a, ahead))
    {parsed : Option Message} (admits : ∀ message ∈ parsed, AdmitsMessage (a, ahead) message)
    (fits : ∀ ifaceName rate delay, parsed = some (.replaceInterface ifaceName rate delay) →
      (-2 ^ 63 ≤ rate ∧ rate < 2 ^ 63) ∧ -2 ^ 63 ≤ delay ∧ delay < 2 ^ 63)
    (done : execAll a host (statementsOf parsed) = .ok next) :
    ShapingInvariant (next, recordMessage a ahead parsed) := by
  have nonNull := invariant.nonNull.execAll done
  cases parsed with
  | none =>
      cases done
      exact invariant
  | some message =>
      have admitted := admits message rfl
      cases message with
      | replaceInterface ifaceName rate delay =>
          cases done
          obtain ⟨rateFits, delayFits⟩ := fits ifaceName rate delay rfl
          refine invariant.shape nonNull admitted.1 rate delay (replaceActions rate delay 1)
            rfl rfl rfl (kernel_append rfl ?_)
            (performActions_replaceActions _ rate delay 1) ?_
          · exact map_received admitted.1 rate delay 1 fun action member =>
              List.mem_append_left _ (List.mem_append_left _ member)
          · intro current
            obtain ⟨divides, rate_eq, delay_eq⟩ := admitted.2 current
            exact ⟨divides, (adjusted_one rateFits.1 rateFits.2).1.trans rate_eq.symm,
              (adjusted_one delayFits.1 delayFits.2).2.trans delay_eq.symm⟩
      | changeInterface ifaceName rate delay =>
          cases done
          obtain ⟨member, dilates⟩ := admitted
          obtain ⟨d, shaped, complete⟩ := invariant.changeable ifaceName member
          have isArgument := invariant.names ifaceName member
          refine invariant.shape nonNull isArgument rate delay
            (changeActions rate delay a.tdfTable.latestTdf) rfl rfl rfl (kernel_append rfl ?_) ?_
            fun current => ⟨(dilates current).1, adjusted_of_dilates (dilates current)⟩
          · exact map_received isArgument rate delay a.tdfTable.latestTdf fun action member =>
              List.mem_append_left _ (List.mem_append_right _ member)
          · rw [shaped]
            exact performActions_changeActions complete rate delay _
      | eraseInterface ifaceName =>
          obtain ⟨notified, executed⟩ := execAll_singleton.mp done
          obtain ⟨ifaceAttrTable, marked, rfl, -⟩ := exec_setFlagKeep.mp executed
          exact invariant.mark marked
      | enforceTdf tdf =>
          cases done
          exact invariant.untouched nonNull rfl rfl rfl fun wasAhead =>
            decide_eq_true (admitted wasAhead)
      | tdfTableSet hostname tdf =>
          obtain ⟨notified, executed⟩ := execAll_singleton.mp done
          obtain ⟨tdfTable, set, rfl⟩ := exec_tdfTableSet.mp executed
          refine invariant.untouched nonNull rfl rfl rfl ?_
          intro wasAhead
          obtain ⟨rfl, -⟩ | ⟨maxVal, greatest, rfl, -, enabled, -⟩ := TdfTable.set_cases set
          · exact invariant.ahead wasAhead
          · exact decide_eq_true fun same => admitted wasAhead enabled (same ▸ greatest)
      | configure settings =>
          obtain rfl := Except.ok.inj ((execAll_configure a host settings).symm.trans done)
          exact invariant.untouched nonNull rfl rfl rfl invariant.ahead
      | _ =>
          cases done
          exact invariant.untouched nonNull rfl rfl rfl invariant.ahead

end

theorem ShapingInvariant.step {s t : Agent × Bool} {event : Event}
    (invariant : ShapingInvariant s) (admits : AdmitsShaping s event)
    (stepped : withHistory eventStep recordShaping s event = some t) : ShapingInvariant t := by
  obtain ⟨a, ahead⟩ := s
  obtain ⟨next, recorded⟩ := t
  obtain ⟨stepped, rfl⟩ := withHistory_eq_some.mp stepped
  have performed := eventStep_eq_some.mp stepped
  cases event with
  | udp msg =>
      refine invariant.message admits ?_ performed
      intro ifaceName rate delay parsed
      obtain ⟨hostname, tdf, other⟩ | ⟨ifaceName', rate', delay', other⟩ :=
        parseUdpMsg_cases parsed
      · cases other
      · cases other
  | tcp msg host =>
      exact invariant.message admits
        (fun ifaceName rate delay parsed => parseTcpMsg_replaceInterface parsed) performed
  | cycle suspendAt resumeAt => exact invariant.cycle admits performed

/-- **In every history whose events are admitted, the shaping of every interface to
keep matches the latest factor whenever that is the one in shared memory.** -/
theorem run_shapingMatches (created : HostReading) (events : List Event) (a : Agent)
    (admits : Meets (withHistory eventStep recordShaping) AdmitsShaping
      (Agent.initial created, false) events)
    (ran : run eventStep (Agent.initial created) events = some a)
    (current : a.sharedTdf = a.tdfTable.latestTdf) : a.ShapedFor a.tdfTable.latestTdf := by
  obtain ⟨ahead, recorded⟩ := run_withHistory recordShaping ran false
  have invariant := run_invariant_of_meets ShapingInvariant
    (fun s event next invariant admits stepped => invariant.step admits stepped)
    (shapingInvariant_initial created) admits recorded
  cases ahead with
  | false => exact current ▸ invariant.shaped rfl
  | true =>
      have pending := invariant.ahead rfl
      simp [Agent.updatePending, current] at pending

theorem run_shapingMatches_changed :
    ∃ a : Agent, a.tdfTable.latestTdf = .ofRat 2 ∧ a.ShapedFor a.tdfTable.latestTdf ∧
      a.ifaceAttrTable.ifaceAttrMap[ascii "eth0"]? = some (some ⟨500, 20, true⟩) := by
  have computed : (run eventStep (Agent.initial ⟨0, 0⟩)
      [.tcp (ascii "1|eth0|1000|10") ⟨1, 1⟩, .tcp (ascii "11|2") ⟨2, 2⟩, .cycle ⟨3, 3⟩ ⟨4, 4⟩,
        .udp (ascii "3|eth0|500|20")]).any (fun a =>
          a.sharedTdf = .ofRat 2 ∧ a.tdfTable.latestTdf = .ofRat 2 ∧
            a.ifaceAttrTable.ifaceAttrMap[ascii "eth0"]? = some (some ⟨500, 20, true⟩)) =
        true := by
    decide +kernel
  obtain ⟨a, ran, shared, latest, found⟩ := exists_of_any computed
  exact ⟨a, latest,
    run_shapingMatches _ _ a (by decide +kernel) ran (shared.trans latest.symm), found⟩

/-- A Protocol-1 message while the factor is two, and no update pending. -/
theorem replaceInterface_without_factor :
    ∃ a, run eventStep (Agent.initial ⟨0, 0⟩)
        [.tcp (ascii "11|2") ⟨1, 1⟩, .cycle ⟨2, 2⟩ ⟨3, 3⟩, .tcp (ascii "1|eth0|1000|10") ⟨4, 4⟩]
          = some a ∧
      a.sharedTdf = a.tdfTable.latestTdf ∧ ¬ a.ShapedFor a.tdfTable.latestTdf := by
  have computed : (run eventStep (Agent.initial ⟨0, 0⟩)
      [.tcp (ascii "11|2") ⟨1, 1⟩, .cycle ⟨2, 2⟩ ⟨3, 3⟩,
        .tcp (ascii "1|eth0|1000|10") ⟨4, 4⟩]).any (fun a =>
          a.sharedTdf = .ofRat 2 ∧ a.tdfTable.latestTdf = .ofRat 2 ∧
            a.ifaceAttrTable.ifaceAttrMap[ascii "eth0"]? = some (some ⟨1000, 10, true⟩) ∧
            (a.kernel (ascii "eth0")).map (fun d => (d.classes 10).map HtbClass.rate) =
              some (some 1000)) = true := by
    decide +kernel
  obtain ⟨a, ran, shared, latest, found, programmed⟩ := exists_of_any computed
  refine ⟨a, ran, shared.trans latest.symm, ?_⟩
  intro matched
  obtain ⟨-, d, device, shaped⟩ := matched _ _ found rfl
  have rate := shaped.rate_eq 10 (by simp)
  rw [device, Option.map_some] at programmed
  rw [Option.some.inj programmed, latest] at rate
  revert rate
  decide +kernel

end VirtualAgent
