import VirtualAgent.Configuration
import VirtualAgent.Library.CText
import VirtualAgent.Library.FloatFormat
import VirtualAgent.Library.KeyOrder
import VirtualAgent.Library.Outcome

/-!
# The memory database

The two tables of `MemoryDatabase.cpp` and the dilation factor in shared memory.
Both tables map names to pointers, and `operator[]` on a name that is not there
inserts a null one. So an entry is an `Option`, and what reads through a pointer
or an iterator can fail with the `Fault` the source runs into.

`TdfTable.set` is the hysteresis of the agent: on an enabled table it adopts the
greatest factor, and notifies, when that differs from the factor adopted last by
the threshold or more (`TdfTable.set_cases`). `maxTdf_spec` says what the
greatest factor is, numbers that are no numbers included.
-/

set_option autoImplicit false

namespace VirtualAgent

open ExactFloat CText Outcome
open Std (ExtTreeMap)

/-! ## Pointers -/

/-- What the source does without a defined result, and, for a loop, not ending
within the steps allowed. -/
inductive Fault where
  /-- A null pointer of a table is read through. -/
  | nullEntry
  /-- The end of a table is read through. -/
  | endDereference
  /-- An iterator whose entry was erased is used. -/
  | danglingIterator
  | unfinished
  deriving DecidableEq

/-- Read through a pointer. -/
def deref {β : Type} : Option β → Except Fault β
  | some entry => .ok entry
  | none => .error .nullEntry

/-- A table of pointers under names, in the order of the names. -/
abbrev PointerMap (β : Type) := ExtTreeMap CString (Option β)

/-- No pointer of the table is null. -/
def NonNull {β : Type} (m : PointerMap β) : Prop := ∀ name : CString, m[name]? ≠ some none

theorem nonNull_empty {β : Type} : NonNull (∅ : PointerMap β) := by
  intro name
  simp

theorem NonNull.insert {β : Type} {m : PointerMap β} (nonNull : NonNull m) (name : CString)
    (entry : β) : NonNull (m.insert name (some entry)) := by
  intro other
  rw [ExtTreeMap.getElem?_insert]
  split
  · simp
  · exact nonNull other

theorem NonNull.erase {β : Type} {m : PointerMap β} (nonNull : NonNull m) (name : CString) :
    NonNull (m.erase name) := by
  intro other
  rw [ExtTreeMap.getElem?_erase]
  split
  · simp
  · exact nonNull other

/-! ## The table of dilation factors -/

structure TdfEntry where
  baseTdf : LongDouble
  deriving DecidableEq

/-- `class TdfTable`, as its constructor leaves it by default. -/
structure TdfTable where
  tdfMap : PointerMap TdfEntry := ∅
  isTableEnabled : Bool := false
  latestTdf : LongDouble := 1
  deriving DecidableEq

namespace TdfTable

/-- Keep the greater factor. -/
def keepGreater (maxVal : LongDouble) (position : CString × Option TdfEntry) :
    Except Fault LongDouble := do
  let entry ← deref position.2
  return if maxVal < entry.baseTdf then entry.baseTdf else maxVal

/-- `TdfTable::maxTdf`. The first factor is read before the loop looks at it
again, also when there is none. -/
def maxTdf (t : TdfTable) : Except Fault LongDouble :=
  match t.tdfMap.toList with
  | [] => .error .endDereference
  | first :: rest => do
      let entry ← deref first.2
      (first :: rest).foldlM keepGreater entry.baseTdf

/-- How far a factor is from the one adopted last. -/
def gap (t : TdfTable) (maxTdfVal : LongDouble) (a : Arithmetic := .exact) : LongDouble :=
  let diff := LongDouble.fabs (a.extended (maxTdfVal - t.latestTdf))
  a.extended (diff / t.latestTdf)

/-- `TdfTable::set`, with whether it ends in `notify_all`. -/
def set (t : TdfTable) (tdfChangeThreshold : LongDouble) (hostname : CString)
    (tdfVal : LongDouble) (a : Arithmetic := .exact) : Except Fault (TdfTable × Bool) :=
  let t := { t with tdfMap := t.tdfMap.insert hostname (some ⟨tdfVal⟩) }
  if t.isTableEnabled then do
    let maxTdfVal ← t.maxTdf
    if tdfChangeThreshold ≤ t.gap maxTdfVal a then
      return ({ t with latestTdf := maxTdfVal }, true)
    else return (t, false)
  else return (t, false)

/-- `TdfTable::getSize`, which converts the size to an `int`. -/
def getSize (t : TdfTable) : ℤ := Int.bmod t.tdfMap.size (2 ^ 32)

def erase (t : TdfTable) (hostname : CString) : TdfTable :=
  { t with tdfMap := t.tdfMap.erase hostname }

def clear (t : TdfTable) : TdfTable := { t with tdfMap := ∅ }

def enableTable (t : TdfTable) : TdfTable := { t with isTableEnabled := true }

def disableTable (t : TdfTable) : TdfTable := { t with isTableEnabled := false }

def setLatestTdf (t : TdfTable) (tdfVal : LongDouble) : TdfTable := { t with latestTdf := tdfVal }

/-! ### The greatest factor -/

theorem foldlM_keepGreater {positions : List (CString × Option TdfEntry)}
    (nonNull : ∀ position ∈ positions, position.2 ≠ none) (start : LongDouble) :
    ∃ maxVal, positions.foldlM keepGreater start = .ok maxVal ∧
      (maxVal = start ∨
        start < maxVal ∧ ∃ name entry, (name, some entry) ∈ positions ∧ entry.baseTdf = maxVal) ∧
      ∀ name entry, (name, some entry) ∈ positions → ¬ maxVal < entry.baseTdf := by
  induction positions generalizing start with
  | nil => exact ⟨start, rfl, Or.inl rfl, by simp⟩
  | cons position rest ih =>
      obtain ⟨name, pointer⟩ := position
      obtain ⟨entry, rfl⟩ := Option.ne_none_iff_exists'.mp (nonNull _ List.mem_cons_self)
      have restNonNull := fun other member => nonNull other (List.mem_cons_of_mem _ member)
      obtain ⟨maxVal, folded, origin, greatest⟩ :=
        ih restNonNull (if start < entry.baseTdf then entry.baseTdf else start)
      refine ⟨maxVal, by simpa [keepGreater, deref] using folded, ?_, ?_⟩
      · by_cases less : start < entry.baseTdf
        · rw [if_pos less] at origin
          rcases origin with rfl | ⟨above, other, found, member, value⟩
          · exact Or.inr ⟨less, name, entry, List.mem_cons_self, rfl⟩
          · exact Or.inr ⟨LongDouble.lt_trans less above, other, found,
              List.mem_cons_of_mem _ member, value⟩
        · rw [if_neg less] at origin
          rcases origin with same | ⟨above, other, found, member, value⟩
          · exact Or.inl same
          · exact Or.inr ⟨above, other, found, List.mem_cons_of_mem _ member, value⟩
      · intro other found member below
        rcases List.mem_cons.mp member with same | member
        · obtain ⟨rfl, rfl⟩ : other = name ∧ found = entry := by simpa using same
          by_cases less : start < found.baseTdf
          · rw [if_pos less] at origin
            rcases origin with rfl | ⟨above, -⟩
            · exact LongDouble.lt_irrefl _ below
            · exact LongDouble.lt_irrefl _ (LongDouble.lt_trans above below)
          · rw [if_neg less] at origin
            rcases origin with rfl | ⟨above, -⟩
            · exact less below
            · exact less (LongDouble.lt_trans above below)
        · exact greatest other found member below

/-- **The greatest factor of a table that is not empty** is one of its factors,
and none of them is greater. -/
theorem maxTdf_spec {t : TdfTable} (nonNull : NonNull t.tdfMap) (nonempty : t.tdfMap ≠ ∅) :
    ∃ maxVal, t.maxTdf = .ok maxVal ∧
      (∃ (name : CString) (entry : TdfEntry),
        t.tdfMap[name]? = some (some entry) ∧ entry.baseTdf = maxVal) ∧
      ∀ (name : CString) (entry : TdfEntry),
        t.tdfMap[name]? = some (some entry) → ¬ maxVal < entry.baseTdf := by
  have pointers : ∀ position ∈ t.tdfMap.toList, position.2 ≠ none := by
    rintro ⟨name, pointer⟩ member rfl
    exact nonNull name (ExtTreeMap.mem_toList_iff_getElem?_eq_some.mp member)
  unfold maxTdf
  cases positions : t.tdfMap.toList with
  | nil => exact absurd (ExtTreeMap.toList_eq_nil_iff.mp positions) nonempty
  | cons first rest =>
      rw [positions] at pointers
      obtain ⟨name, pointer⟩ := first
      obtain ⟨entry, rfl⟩ := Option.ne_none_iff_exists'.mp (pointers _ List.mem_cons_self)
      obtain ⟨maxVal, folded, origin, greatest⟩ := foldlM_keepGreater pointers entry.baseTdf
      have found : ∀ other value, (other, some value) ∈ (name, some entry) :: rest ↔
          t.tdfMap[other]? = some (some value) := by
        intro other value
        rw [← positions, ExtTreeMap.mem_toList_iff_getElem?_eq_some]
      refine ⟨maxVal, folded, ?_, ?_⟩
      · rcases origin with rfl | ⟨-, other, value, member, same⟩
        · exact ⟨name, entry, (found name entry).mp List.mem_cons_self, rfl⟩
        · exact ⟨other, value, (found other value).mp member, same⟩
      · intro other value at_other
        exact greatest other value ((found other value).mpr at_other)

/-! ### Setting an entry -/

/-- The table with an entry written, before the maximum is looked at. -/
def written (t : TdfTable) (hostname : CString) (tdfVal : LongDouble) : TdfTable :=
  { t with tdfMap := t.tdfMap.insert hostname (some ⟨tdfVal⟩) }

theorem maxTdf_written {t : TdfTable} (nonNull : NonNull t.tdfMap) (hostname : CString)
    (tdfVal : LongDouble) :
    ∃ maxVal, (t.written hostname tdfVal).maxTdf = .ok maxVal ∧
      (∃ (name : CString) (entry : TdfEntry),
        (t.written hostname tdfVal).tdfMap[name]? = some (some entry) ∧ entry.baseTdf = maxVal) ∧
      ∀ (name : CString) (entry : TdfEntry),
        (t.written hostname tdfVal).tdfMap[name]? = some (some entry) →
          ¬ maxVal < entry.baseTdf := by
  refine maxTdf_spec (nonNull.insert hostname ⟨tdfVal⟩) ?_
  intro empty
  have present : hostname ∈ (t.written hostname tdfVal).tdfMap := by simp [written]
  rw [empty] at present
  simp at present

theorem set_of_disabled {t : TdfTable} {a : Arithmetic} (disabled : t.isTableEnabled = false)
    (threshold : LongDouble) (hostname : CString) (tdfVal : LongDouble) :
    t.set threshold hostname tdfVal a = .ok (t.written hostname tdfVal, false) := by
  simp [set, disabled, written, pure, Except.pure]

theorem set_of_enabled {t : TdfTable} {a : Arithmetic} (enabled : t.isTableEnabled = true)
    (threshold : LongDouble) (hostname : CString) (tdfVal : LongDouble) :
    t.set threshold hostname tdfVal a =
      (t.written hostname tdfVal).maxTdf >>= fun maxVal =>
        if threshold ≤ t.gap maxVal a then
          .ok ((t.written hostname tdfVal).setLatestTdf maxVal, true)
        else .ok (t.written hostname tdfVal, false) := by
  simp [set, enabled, written, setLatestTdf, gap, pure, Except.pure]

/-- **What `set` does**: it writes the entry, and on an enabled table it adopts the
greatest factor exactly when that is away from the latest by the threshold. -/
theorem set_cases {t next : TdfTable} {threshold : LongDouble} {hostname : CString}
    {tdfVal : LongDouble} {a : Arithmetic} {notified : Bool}
    (done : t.set threshold hostname tdfVal a = .ok (next, notified)) :
    (next = t.written hostname tdfVal ∧ notified = false ∧
        (t.isTableEnabled = true → ∃ maxVal, (t.written hostname tdfVal).maxTdf = .ok maxVal ∧
          ¬ threshold ≤ t.gap maxVal a)) ∨
      ∃ maxVal, (t.written hostname tdfVal).maxTdf = .ok maxVal ∧
        next = (t.written hostname tdfVal).setLatestTdf maxVal ∧ notified = true ∧
        t.isTableEnabled = true ∧ threshold ≤ t.gap maxVal a := by
  cases enabled : t.isTableEnabled with
  | false =>
      rw [set_of_disabled enabled] at done
      cases done
      exact Or.inl ⟨rfl, rfl, by simp⟩
  | true =>
      rw [set_of_enabled enabled] at done
      obtain ⟨maxVal, greatest, decided⟩ := bind_eq_ok.mp done
      by_cases away : threshold ≤ t.gap maxVal a
      · rw [if_pos away] at decided
        cases decided
        exact Or.inr ⟨maxVal, greatest, rfl, rfl, rfl, away⟩
      · rw [if_neg away] at decided
        cases decided
        exact Or.inl ⟨rfl, rfl, fun _ => ⟨maxVal, greatest, away⟩⟩

/-- On a table without null pointers `set` has a result. -/
theorem set_ok {t : TdfTable} (nonNull : NonNull t.tdfMap) (threshold : LongDouble)
    (hostname : CString) (tdfVal : LongDouble) (a : Arithmetic := .exact) :
    ∃ next notified, t.set threshold hostname tdfVal a = .ok (next, notified) := by
  cases enabled : t.isTableEnabled with
  | false => exact ⟨_, _, set_of_disabled enabled _ _ _⟩
  | true =>
      obtain ⟨maxVal, greatest, -⟩ := maxTdf_written nonNull hostname tdfVal
      rw [set_of_enabled enabled, greatest, ok_bind]
      by_cases away : threshold ≤ t.gap maxVal a
      · exact ⟨_, _, if_pos away⟩
      · exact ⟨_, _, if_neg away⟩

theorem set_tdfMap {t next : TdfTable} {threshold : LongDouble} {hostname : CString}
    {tdfVal : LongDouble} {a : Arithmetic} {notified : Bool}
    (done : t.set threshold hostname tdfVal a = .ok (next, notified)) :
    next.tdfMap = t.tdfMap.insert hostname (some ⟨tdfVal⟩) := by
  obtain ⟨rfl, -⟩ | ⟨maxVal, -, rfl, -⟩ := set_cases done
  · rfl
  · rfl

end TdfTable

/-! ## The table of interface attributes -/

/-- `class InterfaceAttributeEntry`; its constructor keeps the entry. -/
structure InterfaceAttributeEntry where
  rate : ℤ
  delay : ℤ
  flagKeep : Bool := true
  deriving DecidableEq

structure InterfaceAttributeTable where
  ifaceAttrMap : PointerMap InterfaceAttributeEntry := ∅
  deriving DecidableEq

namespace InterfaceAttributeTable

/-- `InterfaceAttributeTable::set`, a new entry also under a known name. -/
def set (t : InterfaceAttributeTable) (ifaceName : CString) (rate delay : ℤ) :
    InterfaceAttributeTable where
  ifaceAttrMap := t.ifaceAttrMap.insert ifaceName (some { rate, delay })

/-- `InterfaceAttributeTable::setFlagKeep`. On an unknown name `operator[]` inserts a
null pointer, and it is read through at once. -/
def setFlagKeep (t : InterfaceAttributeTable) (ifaceName : CString) (flagKeep : Bool) :
    Except Fault InterfaceAttributeTable := do
  let entry ← deref (t.ifaceAttrMap.getD ifaceName none)
  return ⟨t.ifaceAttrMap.insert ifaceName (some { entry with flagKeep })⟩

def erase (t : InterfaceAttributeTable) (ifaceName : CString) : InterfaceAttributeTable where
  ifaceAttrMap := t.ifaceAttrMap.erase ifaceName

/-- **What `setFlagKeep` does**: it changes the flag of an entry that is there. -/
theorem setFlagKeep_eq_ok {t next : InterfaceAttributeTable} {ifaceName : CString}
    {flagKeep : Bool} :
    t.setFlagKeep ifaceName flagKeep = .ok next ↔
      ∃ entry : InterfaceAttributeEntry, t.ifaceAttrMap[ifaceName]? = some (some entry) ∧
        next = ⟨t.ifaceAttrMap.insert ifaceName (some { entry with flagKeep })⟩ := by
  unfold setFlagKeep
  rw [bind_eq_ok, ExtTreeMap.getD_eq_getD_getElem?]
  cases pointer : t.ifaceAttrMap[ifaceName]? with
  | none => simp [deref]
  | some found =>
      cases found with
      | none => simp [deref]
      | some entry => simp [deref, pure, Except.pure, eq_comm]

end InterfaceAttributeTable

/-! ## The database -/

/-- `class MemoryDatabase`, with the dilation factor in shared memory as
`SharedMemory::create` leaves it. -/
structure MemoryDatabase where
  tdfTable : TdfTable := {}
  ifaceAttrTable : InterfaceAttributeTable := {}
  sharedTdf : LongDouble := 1
  deriving DecidableEq

/-- `MemoryDatabase::enforceTdf`, which always ends in `notify_all`. -/
def MemoryDatabase.enforceTdf (memDb : MemoryDatabase) (tdfVal : LongDouble) : MemoryDatabase :=
  { memDb with tdfTable := memDb.tdfTable.disableTable.setLatestTdf tdfVal }

/-- `SharedMemory::setTdf`. -/
def MemoryDatabase.setTdf (memDb : MemoryDatabase) (tdfVal : LongDouble) : MemoryDatabase :=
  { memDb with sharedTdf := tdfVal }

end VirtualAgent
