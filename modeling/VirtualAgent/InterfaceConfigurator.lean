import VirtualAgent.MemoryDatabase
import VirtualAgent.TrafficControl

/-!
# The interface configurator

The commands with which `InterfaceConfigurator.cpp` shapes a device, and the pass
over the interface table that follows a new dilation factor. The rate is divided
by the factor and the delay multiplied by it in `long double`, and each is converted
to a `long long`.

* `performActions_replaceActions` and `performActions_changeActions`
  say what the commands leave on the device.
* `updateInterfaceAttribute_eq`: on a table without null pointers the pass treats
  every entry once, in the order of the names, and leaves the entries to keep.
-/

set_option autoImplicit false

namespace VirtualAgent

open ExactFloat CText Outcome
open Std (ExtTreeMap)

/-! ## The commands for a device -/

/-- `rate / tdf`, a `long double`, as a `long long`. -/
def adjustedRate (rate : ℤ) (tdf : LongDouble) : ℤ :=
  (Format.extended.round (.ofInt rate / tdf)).toInt64

/-- `delay * tdf`, a `long double`, as a `long long`. -/
def adjustedDelay (delay : ℤ) (tdf : LongDouble) : ℤ :=
  (Format.extended.round (.ofInt delay * tdf)).toInt64

def replaceActions (rate delay : ℤ) (tdf : LongDouble) : List TcAction :=
  [.replaceRoot,
    .replaceClass 10 (adjustedRate rate tdf) rate rate,
    .replaceClass 20 (adjustedRate rate tdf) rate rate,
    .replaceClass 30 (adjustedRate rate tdf) rate rate,
    .replaceNetem 10 10 (adjustedDelay delay tdf),
    .replaceNetem 20 20 (adjustedDelay delay tdf),
    .replaceFilter (ascii "192.168.0.0/16") 20,
    .replaceFilter (ascii "172.16.0.0/16") 30]

def changeActions (rate delay : ℤ) (tdf : LongDouble) : List TcAction :=
  [.changeClass 10 (adjustedRate rate tdf) rate rate,
    .changeClass 20 (adjustedRate rate tdf) rate rate,
    .changeClass 30 (adjustedRate rate tdf) rate rate,
    .changeNetem 10 (adjustedDelay delay tdf),
    .changeNetem 20 (adjustedDelay delay tdf)]

/-- `InterfaceConfigurator::replaceInterfaceAttribute`. -/
def replaceInterfaceAttribute (iface : CString) (rate delay : ℤ) (tdf : LongDouble) :
    List TcCommand :=
  (replaceActions rate delay tdf).map (TcCommand.mk iface)

/-- `InterfaceConfigurator::changeInterfaceAttribute`. -/
def changeInterfaceAttribute (iface : CString) (rate delay : ℤ) (tdf : LongDouble) :
    List TcCommand :=
  (changeActions rate delay tdf).map (TcCommand.mk iface)

/-- `InterfaceConfigurator::deleteInterfaceAttribute`. -/
def deleteInterfaceAttribute (ifaceName : CString) : List TcCommand := [⟨ifaceName, .deleteRoot⟩]

/-! ### What they leave on the device -/

/-- The device has all that a changing command needs. -/
structure Device.Complete (d : Device) : Prop where
  classes : ∀ minor ∈ [10, 20, 30], d.classes minor ≠ none
  netems : ∀ handle ∈ [10, 20], d.netems handle ≠ none

/-- The device is shaped to a rate and a delay. -/
structure Device.Programmed (d : Device) (rate delay : ℤ) : Prop where
  rate_eq : ∀ minor ∈ [10, 20, 30], (d.classes minor).map HtbClass.rate = some rate
  delay_eq : ∀ handle ∈ [10, 20], (d.netems handle).map Netem.delay = some delay

theorem Device.Programmed.complete {d : Device} {rate delay : ℤ}
    (programmed : d.Programmed rate delay) : d.Complete where
  classes minor member absent := by simpa [absent] using programmed.rate_eq minor member
  netems handle member absent := by simpa [absent] using programmed.delay_eq handle member

/-- **Replacing shapes a device**, whatever it was. -/
theorem performActions_replaceActions (device : Option Device) (rate delay : ℤ)
    (tdf : LongDouble) :
    ∃ d, performActions device (replaceActions rate delay tdf) = some d ∧
      d.Programmed (adjustedRate rate tdf) (adjustedDelay delay tdf) := by
  cases device with
  | none => exact ⟨_, rfl, by simp [Function.update], by simp [Function.update]⟩
  | some d => exact ⟨_, rfl, by simp [Function.update], by simp [Function.update]⟩

/-- **Changing shapes a device that is complete.** -/
theorem performActions_changeActions {d : Device} (complete : d.Complete) (rate delay : ℤ)
    (tdf : LongDouble) :
    ∃ d', performActions (some d) (changeActions rate delay tdf) = some d' ∧
      d'.Programmed (adjustedRate rate tdf) (adjustedDelay delay tdf) := by
  obtain ⟨class10, at10⟩ := Option.ne_none_iff_exists'.mp (complete.classes 10 (by simp))
  obtain ⟨class20, at20⟩ := Option.ne_none_iff_exists'.mp (complete.classes 20 (by simp))
  obtain ⟨class30, at30⟩ := Option.ne_none_iff_exists'.mp (complete.classes 30 (by simp))
  obtain ⟨netem10, delay10⟩ := Option.ne_none_iff_exists'.mp (complete.netems 10 (by simp))
  obtain ⟨netem20, delay20⟩ := Option.ne_none_iff_exists'.mp (complete.netems 20 (by simp))
  simp [performActions, changeActions, TcAction.perform, Device.perform, Function.update, at10,
    at20, at30, delay10, delay20]
  exact ⟨by simp, by simp⟩

/-- A factor of one leaves a `long long` as it is. -/
theorem adjusted_one {n : ℤ} (low : -2 ^ 63 ≤ n) (high : n < 2 ^ 63) :
    adjustedRate n 1 = n ∧ adjustedDelay n 1 = n := by
  have isPoint : (n : ℚ) ∈ Format.extended.points := by
    refine Format.extended.intCast_mem_points (abs_le.mpr ⟨?_, ?_⟩)
    · exact le_trans (by norm_num [Format.extended]) low
    · exact high.le.trans (by norm_num [Format.extended])
  have low' : (-2 ^ 63 : ℚ) ≤ n := by exact_mod_cast low
  have high' : (n : ℚ) < 2 ^ 63 := by exact_mod_cast high
  have small : |(n : ℚ)| ≤ 2 ^ Format.extended.top := by
    refine (abs_le.mpr ⟨low', high'.le⟩).trans ?_
    exact pow_le_pow_right₀ one_le_two (by decide)
  have kept : ∀ {x : LongDouble}, x.HasValue n → (Format.extended.round x).toInt64 = n := by
    intro x value
    have rounded := Format.extended.hasValue_round_of_le value small
    rw [Format.rounded_of_mem isPoint] at rounded
    rw [rounded.toInt64 low' high', Truncation.truncate_intCast]
  have quotient := (LongDouble.hasValue_ofInt n).div LongDouble.hasValue_one one_ne_zero
  have product := (LongDouble.hasValue_ofInt n).mul LongDouble.hasValue_one
  rw [div_one] at quotient
  rw [mul_one] at product
  exact ⟨kept quotient, kept product⟩

/-! ## The pass over the interface table -/

/-- `InterfaceConfigurator::updateInterfaceAttribute`, from the position of the
iterator on, with the commands issued so far. The factor is the latest of the
table of factors, whose mutex the caller holds. -/
def updateLoop (latestTdf : LongDouble) :
    ℕ → InterfaceAttributeTable → List TcCommand → Option CString →
      Except Fault (InterfaceAttributeTable × List TcCommand)
  | _, t, commands, none => .ok (t, commands)
  | 0, _, _, some _ => .error .unfinished
  | steps + 1, t, commands, some ifaceName =>
      match t.ifaceAttrMap[ifaceName]? with
      | none => .error .danglingIterator
      | some pointer => do
          let entry ← deref pointer
          if entry.flagKeep then
            updateLoop latestTdf steps t
              (commands ++ changeInterfaceAttribute ifaceName entry.rate entry.delay latestTdf)
              (KeyOrder.nextKey t.ifaceAttrMap ifaceName)
          else
            -- the iterator has moved on when its entry is erased
            updateLoop latestTdf steps (t.erase ifaceName)
              (commands ++ deleteInterfaceAttribute ifaceName)
              (KeyOrder.nextKey t.ifaceAttrMap ifaceName)

/-- `InterfaceConfigurator::updateInterfaceAttribute`: the table it leaves and the
commands it issues. -/
def updateInterfaceAttribute (t : InterfaceAttributeTable) (latestTdf : LongDouble) :
    Except Fault (InterfaceAttributeTable × List TcCommand) :=
  updateLoop latestTdf t.ifaceAttrMap.size t [] (KeyOrder.firstKey t.ifaceAttrMap)

/-- The entry behind a pointer is to be kept. -/
def isKept (pointer : Option InterfaceAttributeEntry) : Bool :=
  pointer.any InterfaceAttributeEntry.flagKeep

/-- What the pass asks of the device of an entry. -/
def treatmentActions (latestTdf : LongDouble) : Option InterfaceAttributeEntry → List TcAction
  | none => []
  | some entry =>
      if entry.flagKeep then changeActions entry.rate entry.delay latestTdf else [.deleteRoot]

/-- The commands for a position of the table. -/
def treatment (latestTdf : LongDouble) (position : CString × Option InterfaceAttributeEntry) :
    List TcCommand :=
  (treatmentActions latestTdf position.2).map (TcCommand.mk position.1)

/-- The loop, on a table whose positions up to the iterator are done with. -/
theorem updateLoop_eq (latestTdf : LongDouble)
    (before after : List (CString × Option InterfaceAttributeEntry))
    (t : InterfaceAttributeTable) (commands : List TcCommand) {steps : ℕ}
    (entries : t.ifaceAttrMap.toList = before ++ after)
    (nonNull : ∀ position ∈ after, position.2 ≠ none) (enough : after.length ≤ steps) :
    ∃ next, updateLoop latestTdf steps t commands (after.head?.map Prod.fst) =
        .ok (next, commands ++ after.flatMap (treatment latestTdf)) ∧
      next.ifaceAttrMap.toList = before ++ after.filter fun position => isKept position.2 := by
  induction after generalizing before steps t commands with
  | nil =>
      refine ⟨t, ?_, by simpa using entries⟩
      cases steps <;> simp [updateLoop]
  | cons position rest ih =>
      obtain ⟨ifaceName, pointer⟩ := position
      obtain ⟨entry, rfl⟩ := Option.ne_none_iff_exists'.mp (nonNull _ List.mem_cons_self)
      have restNonNull := fun other member => nonNull other (List.mem_cons_of_mem _ member)
      obtain ⟨steps, rfl⟩ : ∃ fewer, steps = fewer + 1 :=
        ⟨steps - 1, by simp at enough; omega⟩
      have enoughRest : rest.length ≤ steps := by simpa using enough
      have found : t.ifaceAttrMap[ifaceName]? = some (some entry) := by
        rw [← ExtTreeMap.mem_toList_iff_getElem?_eq_some, entries]
        simp
      have moves := KeyOrder.nextKey_of_toList_eq entries
      cases keep : entry.flagKeep with
      | true =>
          obtain ⟨next, looped, left⟩ := ih (before ++ [(ifaceName, some entry)]) t
            (commands ++ changeInterfaceAttribute ifaceName entry.rate entry.delay latestTdf)
            (by simpa using entries) restNonNull enoughRest
          refine ⟨next, ?_, by simpa [isKept, keep] using left⟩
          have treated : treatment latestTdf (ifaceName, some entry) =
              changeInterfaceAttribute ifaceName entry.rate entry.delay latestTdf := by
            rw [treatment, treatmentActions, if_pos keep, changeInterfaceAttribute]
          simp [updateLoop, found, deref, keep, moves, looped, treated]
      | false =>
          obtain ⟨next, looped, left⟩ := ih before (t.erase ifaceName)
            (commands ++ deleteInterfaceAttribute ifaceName)
            (KeyOrder.toList_erase_of_toList_eq entries) restNonNull enoughRest
          refine ⟨next, ?_, by simpa [isKept, keep] using left⟩
          have treated : treatment latestTdf (ifaceName, some entry) =
              deleteInterfaceAttribute ifaceName := by
            simp [treatment, treatmentActions, keep, deleteInterfaceAttribute]
          simp [updateLoop, found, deref, keep, moves, looped, treated]

/-- **The pass over a table without null pointers** ends without a fault. It treats
every entry once, in the order of the names, and leaves those to keep. -/
theorem updateInterfaceAttribute_eq {t : InterfaceAttributeTable}
    (nonNull : NonNull t.ifaceAttrMap) (latestTdf : LongDouble) :
    updateInterfaceAttribute t latestTdf =
      .ok (⟨t.ifaceAttrMap.filter fun _ pointer => isKept pointer⟩,
        t.ifaceAttrMap.toList.flatMap (treatment latestTdf)) := by
  have pointers : ∀ position ∈ t.ifaceAttrMap.toList, position.2 ≠ none := by
    rintro ⟨name, pointer⟩ member rfl
    exact nonNull name (ExtTreeMap.mem_toList_iff_getElem?_eq_some.mp member)
  obtain ⟨next, looped, left⟩ := updateLoop_eq latestTdf [] t.ifaceAttrMap.toList t []
    (List.nil_append _).symm pointers ExtTreeMap.length_toList.le
  have same : next = ⟨t.ifaceAttrMap.filter fun _ pointer => isKept pointer⟩ := by
    obtain ⟨map⟩ := next
    congr 1
    rw [← ExtTreeMap.toList_inj, ExtTreeMap.toList_filter]
    simpa using left
  rw [updateInterfaceAttribute, KeyOrder.firstKey_eq, looped, same, List.nil_append]

/-- A device without a position is not touched. -/
theorem performAll_treatments_of_not_mem (latestTdf : LongDouble) {name : CString}
    {positions : List (CString × Option InterfaceAttributeEntry)}
    (absent : ∀ position ∈ positions, position.1 ≠ name) (k : Kernel) :
    k.performAll (positions.flatMap (treatment latestTdf)) name = k name := by
  induction positions generalizing k with
  | nil => rfl
  | cons position rest ih =>
      rw [List.flatMap_cons, performAll_append,
        ih fun other member => absent other (List.mem_cons_of_mem _ member)]
      exact performAll_other k (absent position List.mem_cons_self).symm _

/-- **The pass does to a device what its entry asks**, the other entries being those
of other devices. -/
theorem performAll_treatments (latestTdf : LongDouble) {name : CString}
    {pointer : Option InterfaceAttributeEntry}
    {positions : List (CString × Option InterfaceAttributeEntry)}
    (distinct : positions.Pairwise fun a b => a.1 ≠ b.1) (member : (name, pointer) ∈ positions)
    (k : Kernel) :
    k.performAll (positions.flatMap (treatment latestTdf)) name =
      performActions (k name) (treatmentActions latestTdf pointer) := by
  induction positions generalizing k with
  | nil => cases member
  | cons position rest ih =>
      rw [List.flatMap_cons, performAll_append]
      obtain ⟨apart, distinctRest⟩ := List.pairwise_cons.mp distinct
      rcases List.mem_cons.mp member with rfl | member
      · rw [performAll_treatments_of_not_mem latestTdf
          fun other member => (apart other member).symm]
        exact performAll_same k name _
      · rw [ih distinctRest member]
        congr 1
        exact performAll_other k (apart (name, pointer) member).symm _

end VirtualAgent
