import VirtualAgent.InterfaceConfigurator

/-!
# The pass over the interface table, statement by statement

`updateInterfaceAttribute` holds the mutex of the table of factors and no lock of the
interface table, which the messages write meanwhile. Here each of its statements is a step
of its own (`passStatement`): it tests its iterator, reads the flag, the rate and the delay
of an entry through the pointer, one after the other, has the device shaped, and erases an
entry by its name. A call of the configurator for one device is one step, with the `it++`
that follows it.

`PassEffect` says what a statement does. Without messages in between the statements are the
loop of `InterfaceConfigurator` (`passEnds_of_updateInterfaceAttribute`); whatever comes in
between, a pass over a table without null pointers does not fault as long as no other
thread erases (`exists_passStatement`, `PassPc.Within.statement`), and what is left of it is
bounded by the entries before its iterator (`turnsLeft_of_passStatement`).
-/

set_option autoImplicit false

namespace VirtualAgent

open ExactFloat CText Outcome KeyOrder
open Std (ExtTreeMap)

/-! ## The statements -/

/-- The next statement of `InterfaceConfigurator::updateInterfaceAttribute`. The iterator is
the name it stands at, or the end. -/
inductive PassPc where
  /-- `it = ifaceAttrMap.begin()`, when the pass begins -/
  | idle
  /-- `while (it != ifaceAttrMap.end())`, and the reading of `it->second->flagKeep` -/
  | test (it : Option CString)
  /-- The reading of `it->second->rate` -/
  | rate (ifaceName : CString)
  /-- The reading of `it->second->delay` -/
  | delay (ifaceName : CString) (rate : ℤ)
  /-- `changeInterfaceAttribute`, then `it++` -/
  | change (ifaceName : CString) (rate delay : ℤ)
  /-- `deleteInterfaceAttribute`, then `it++` -/
  | delete (ifaceName : CString)
  /-- `memDb_.ifaceAttrTable.erase(ifaceName)` -/
  | erase (ifaceName : CString) (it : Option CString)
  deriving DecidableEq

/-- `it->second`, with the entry it points to. -/
def InterfaceAttributeTable.entryAt? (t : InterfaceAttributeTable) (ifaceName : CString) :
    Option InterfaceAttributeEntry :=
  t.ifaceAttrMap[ifaceName]?.join

/-- The next statement: where the pass stands after it, the table it leaves, and the
commands it issues. -/
def passStatement (latestTdf : LongDouble) (t : InterfaceAttributeTable) :
    PassPc → Option (PassPc × InterfaceAttributeTable × List TcCommand)
  | .idle => some (.test (firstKey t.ifaceAttrMap), t, [])
  | .test none => some (.idle, t, [])
  | .test (some ifaceName) =>
      (t.entryAt? ifaceName).map fun entry =>
        (if entry.flagKeep then .rate ifaceName else .delete ifaceName, t, [])
  | .rate ifaceName =>
      (t.entryAt? ifaceName).map fun entry => (.delay ifaceName entry.rate, t, [])
  | .delay ifaceName rate =>
      (t.entryAt? ifaceName).map fun entry => (.change ifaceName rate entry.delay, t, [])
  | .change ifaceName rate delay =>
      some (.test (nextKey t.ifaceAttrMap ifaceName), t,
        changeInterfaceAttribute ifaceName rate delay latestTdf)
  | .delete ifaceName =>
      some (.erase ifaceName (nextKey t.ifaceAttrMap ifaceName), t,
        deleteInterfaceAttribute ifaceName)
  | .erase ifaceName it => some (.test it, t.erase ifaceName, [])

theorem entryAt?_eq_some {t : InterfaceAttributeTable} {ifaceName : CString}
    {entry : InterfaceAttributeEntry} :
    t.entryAt? ifaceName = some entry ↔ t.ifaceAttrMap[ifaceName]? = some (some entry) :=
  Option.join_eq_some_iff

/-- **What a statement of the pass does.** -/
inductive PassEffect (latestTdf : LongDouble) (t : InterfaceAttributeTable) :
    PassPc → PassPc → InterfaceAttributeTable → List TcCommand → Prop
  | begins : PassEffect latestTdf t .idle (.test (firstKey t.ifaceAttrMap)) t []
  | ends : PassEffect latestTdf t (.test none) .idle t []
  | keeps (ifaceName : CString) (entry : InterfaceAttributeEntry)
      (found : t.ifaceAttrMap[ifaceName]? = some (some entry)) (keep : entry.flagKeep = true) :
      PassEffect latestTdf t (.test (some ifaceName)) (.rate ifaceName) t []
  | drops (ifaceName : CString) (entry : InterfaceAttributeEntry)
      (found : t.ifaceAttrMap[ifaceName]? = some (some entry)) (drop : entry.flagKeep = false) :
      PassEffect latestTdf t (.test (some ifaceName)) (.delete ifaceName) t []
  | rate (ifaceName : CString) (entry : InterfaceAttributeEntry)
      (found : t.ifaceAttrMap[ifaceName]? = some (some entry)) :
      PassEffect latestTdf t (.rate ifaceName) (.delay ifaceName entry.rate) t []
  | delay (ifaceName : CString) (rate : ℤ) (entry : InterfaceAttributeEntry)
      (found : t.ifaceAttrMap[ifaceName]? = some (some entry)) :
      PassEffect latestTdf t (.delay ifaceName rate) (.change ifaceName rate entry.delay) t []
  | change (ifaceName : CString) (rate delay : ℤ) :
      PassEffect latestTdf t (.change ifaceName rate delay)
        (.test (nextKey t.ifaceAttrMap ifaceName)) t
        (changeInterfaceAttribute ifaceName rate delay latestTdf)
  | delete (ifaceName : CString) :
      PassEffect latestTdf t (.delete ifaceName)
        (.erase ifaceName (nextKey t.ifaceAttrMap ifaceName)) t
        (deleteInterfaceAttribute ifaceName)
  | erase (ifaceName : CString) (it : Option CString) :
      PassEffect latestTdf t (.erase ifaceName it) (.test it) (t.erase ifaceName) []

section

variable {latestTdf : LongDouble} {t next : InterfaceAttributeTable} {pc pc' : PassPc}
  {commands : List TcCommand}

theorem passStatement_effect
    (performed : passStatement latestTdf t pc = some (pc', next, commands)) :
    PassEffect latestTdf t pc pc' next commands := by
  cases pc with
  | idle =>
      cases performed
      exact .begins
  | test it =>
      cases it with
      | none =>
          cases performed
          exact .ends
      | some ifaceName =>
          obtain ⟨entry, found, same⟩ := Option.map_eq_some_iff.mp performed
          rw [entryAt?_eq_some] at found
          cases keep : entry.flagKeep with
          | true =>
              rw [keep] at same
              cases same
              exact .keeps ifaceName entry found keep
          | false =>
              rw [keep] at same
              cases same
              exact .drops ifaceName entry found keep
  | rate ifaceName =>
      obtain ⟨entry, found, same⟩ := Option.map_eq_some_iff.mp performed
      cases same
      exact .rate ifaceName entry (entryAt?_eq_some.mp found)
  | delay ifaceName rate =>
      obtain ⟨entry, found, same⟩ := Option.map_eq_some_iff.mp performed
      cases same
      exact .delay ifaceName rate entry (entryAt?_eq_some.mp found)
  | change ifaceName rate delay =>
      cases performed
      exact .change ifaceName rate delay
  | delete ifaceName =>
      cases performed
      exact .delete ifaceName
  | erase ifaceName it =>
      cases performed
      exact .erase ifaceName it

/-- A statement of the pass erases an entry or leaves the table. -/
theorem PassEffect.table (effect : PassEffect latestTdf t pc pc' next commands) :
    next = t ∨ ∃ ifaceName, next = t.erase ifaceName := by
  cases effect with
  | erase ifaceName it => exact Or.inr ⟨ifaceName, rfl⟩
  | _ => exact Or.inl rfl

end

/-! ## A pass that is not interrupted -/

/-- **What is left of a pass**: from its place on, the statements lead to a table and issue
commands, with nothing in between. -/
inductive PassEnds (latestTdf : LongDouble) :
    PassPc → InterfaceAttributeTable → InterfaceAttributeTable → List TcCommand → Prop
  | done (t : InterfaceAttributeTable) : PassEnds latestTdf .idle t t []
  | step {pc pc' : PassPc} {t next last : InterfaceAttributeTable}
      {commands left : List TcCommand} (underway : pc ≠ .idle)
      (performed : passStatement latestTdf t pc = some (pc', next, commands))
      (rest : PassEnds latestTdf pc' next last left) :
      PassEnds latestTdf pc t last (commands ++ left)

section Ends

variable {latestTdf : LongDouble} {t last : InterfaceAttributeTable} {left : List TcCommand}

theorem passEnds_idle (ends : PassEnds latestTdf .idle t last left) : last = t ∧ left = [] := by
  cases ends with
  | done => exact ⟨rfl, rfl⟩
  | step underway performed rest => exact absurd rfl underway

/-- A statement leaves the rest of the pass. -/
theorem PassEnds.statement {pc pc' : PassPc} {next : InterfaceAttributeTable}
    {commands : List TcCommand} (ends : PassEnds latestTdf pc t last left) (underway : pc ≠ .idle)
    (performed : passStatement latestTdf t pc = some (pc', next, commands)) :
    ∃ more, left = commands ++ more ∧ PassEnds latestTdf pc' next last more := by
  cases ends with
  | done => exact absurd rfl underway
  | step _ same rest =>
      cases performed.symm.trans same
      exact ⟨_, rfl, rest⟩

section Entry

variable {ifaceName : CString} {entry : InterfaceAttributeEntry}

/-- An entry to keep. -/
theorem PassEnds.keep (found : t.entryAt? ifaceName = some entry) (keep : entry.flagKeep = true)
    (rest : PassEnds latestTdf (.test (nextKey t.ifaceAttrMap ifaceName)) t last left) :
    PassEnds latestTdf (.test (some ifaceName)) t last
      (changeInterfaceAttribute ifaceName entry.rate entry.delay latestTdf ++ left) := by
  have readsFlag : passStatement latestTdf t (.test (some ifaceName)) =
      some (.rate ifaceName, t, []) := by simp [passStatement, found, keep]
  have readsRate : passStatement latestTdf t (.rate ifaceName) =
      some (.delay ifaceName entry.rate, t, []) := by simp [passStatement, found]
  have readsDelay : passStatement latestTdf t (.delay ifaceName entry.rate) =
      some (.change ifaceName entry.rate entry.delay, t, []) := by simp [passStatement, found]
  have changes : passStatement latestTdf t (.change ifaceName entry.rate entry.delay) =
      some (.test (nextKey t.ifaceAttrMap ifaceName), t,
        changeInterfaceAttribute ifaceName entry.rate entry.delay latestTdf) := rfl
  have changed := PassEnds.step (by simp) changes rest
  have delayRead := PassEnds.step (by simp) readsDelay changed
  have rateRead := PassEnds.step (by simp) readsRate delayRead
  have flagRead := PassEnds.step (by simp) readsFlag rateRead
  exact flagRead

/-- An entry to erase. -/
theorem PassEnds.drop (found : t.entryAt? ifaceName = some entry) (drop : entry.flagKeep = false)
    (rest : PassEnds latestTdf (.test (nextKey t.ifaceAttrMap ifaceName)) (t.erase ifaceName)
      last left) :
    PassEnds latestTdf (.test (some ifaceName)) t last
      (deleteInterfaceAttribute ifaceName ++ left) := by
  have readsFlag : passStatement latestTdf t (.test (some ifaceName)) =
      some (.delete ifaceName, t, []) := by simp [passStatement, found, drop]
  have deletes : passStatement latestTdf t (.delete ifaceName) =
      some (.erase ifaceName (nextKey t.ifaceAttrMap ifaceName), t,
        deleteInterfaceAttribute ifaceName) := rfl
  have erases : passStatement latestTdf t
      (.erase ifaceName (nextKey t.ifaceAttrMap ifaceName)) =
        some (.test (nextKey t.ifaceAttrMap ifaceName), t.erase ifaceName, []) := rfl
  have erased := PassEnds.step (by simp) erases rest
  have deleted := PassEnds.step (by simp) deletes erased
  have flagRead := PassEnds.step (by simp) readsFlag deleted
  exact flagRead

end Entry

/-- From any position of the loop on, the statements do what the loop does. -/
theorem passEnds_of_updateLoop {steps : ℕ} {commands issued : List TcCommand}
    {it : Option CString}
    (looped : updateLoop latestTdf steps t commands it = .ok (last, issued)) :
    ∃ left, issued = commands ++ left ∧ PassEnds latestTdf (.test it) t last left := by
  have ended : ∀ t : InterfaceAttributeTable, PassEnds latestTdf (.test none) t t [] := by
    intro t
    have stops : passStatement latestTdf t (.test none) = some (.idle, t, []) := rfl
    have ended := PassEnds.step (by simp) stops (.done t)
    exact ended
  induction steps generalizing t commands it with
  | zero =>
      cases it with
      | none =>
          cases looped
          exact ⟨[], (List.append_nil _).symm, ended _⟩
      | some ifaceName => cases looped
  | succ steps ih =>
      cases it with
      | none =>
          cases looped
          exact ⟨[], (List.append_nil _).symm, ended _⟩
      | some ifaceName =>
          cases found : t.ifaceAttrMap[ifaceName]? with
          | none => simp [updateLoop, found] at looped
          | some pointer =>
              cases pointer with
              | none => simp [updateLoop, found, deref] at looped
              | some entry =>
                  have there := entryAt?_eq_some.mpr found
                  cases keep : entry.flagKeep with
                  | true =>
                      simp [updateLoop, found, deref, keep] at looped
                      obtain ⟨left, rfl, rest⟩ := ih looped
                      exact ⟨_, List.append_assoc _ _ _, .keep there keep rest⟩
                  | false =>
                      simp [updateLoop, found, deref, keep] at looped
                      obtain ⟨left, rfl, rest⟩ := ih looped
                      exact ⟨_, List.append_assoc _ _ _, .drop there keep rest⟩

/-- **Without messages in between, the statements are the pass.** -/
theorem passEnds_of_updateInterfaceAttribute
    (passed : updateInterfaceAttribute t latestTdf = .ok (last, left)) :
    PassEnds latestTdf (.test (firstKey t.ifaceAttrMap)) t last left := by
  obtain ⟨issued, rfl, ends⟩ := passEnds_of_updateLoop passed
  exact ends

end Ends

/-! ## A pass that goes on -/

/-- The entries that the pass is going to read are in the table. -/
def PassPc.Within (t : InterfaceAttributeTable) : PassPc → Prop
  | .test it => ∀ ifaceName ∈ it, ifaceName ∈ t.ifaceAttrMap
  | .rate ifaceName | .delay ifaceName _ => ifaceName ∈ t.ifaceAttrMap
  | .erase ifaceName it => ∀ other ∈ it, other ∈ t.ifaceAttrMap ∧ other ≠ ifaceName
  | .idle | .change _ _ _ | .delete _ => True

/-- An upper bound of the statements left, if the table stays as it is: four for each entry
before the iterator. -/
def PassPc.turnsLeft (t : InterfaceAttributeTable) : PassPc → ℕ
  | .idle => 4 * t.ifaceAttrMap.size + 2
  | .test it => 4 * remaining t.ifaceAttrMap it + 1
  | .rate ifaceName => 4 * following t.ifaceAttrMap ifaceName + 4
  | .delay ifaceName _ | .delete ifaceName => 4 * following t.ifaceAttrMap ifaceName + 3
  | .change ifaceName _ _ => 4 * following t.ifaceAttrMap ifaceName + 2
  | .erase _ it => 4 * remaining t.ifaceAttrMap it + 2

section Going

variable {latestTdf : LongDouble} {t next : InterfaceAttributeTable} {pc pc' : PassPc}
  {commands : List TcCommand}

/-- Entries that are added do not matter. -/
theorem PassPc.Within.mono (within : pc.Within t)
    (kept : ∀ name, name ∈ t.ifaceAttrMap → name ∈ next.ifaceAttrMap) : pc.Within next := by
  cases pc with
  | test it => exact fun name member => kept name (within name member)
  | rate ifaceName => exact kept ifaceName within
  | delay ifaceName rate => exact kept ifaceName within
  | erase ifaceName it =>
      exact fun name member => ⟨kept name (within name member).1, (within name member).2⟩
  | _ => trivial

/-- **The pass does not lose the entry it goes to.** -/
theorem PassPc.Within.statement (within : pc.Within t)
    (performed : passStatement latestTdf t pc = some (pc', next, commands)) :
    pc'.Within next := by
  cases passStatement_effect performed with
  | begins => exact fun name first => mem_of_firstKey first
  | ends => trivial
  | keeps ifaceName entry found keep => exact within ifaceName rfl
  | drops ifaceName entry found drop => trivial
  | rate ifaceName entry found => exact within
  | delay ifaceName rate entry found => trivial
  | change ifaceName rate delay => exact fun name moves => (mem_of_nextKey moves).1
  | delete ifaceName =>
      intro name moves
      obtain ⟨present, less⟩ := mem_of_nextKey moves
      refine ⟨present, ?_⟩
      rintro rfl
      simp [Std.ReflCmp.compare_self] at less
  | erase ifaceName it =>
      intro name member
      obtain ⟨present, apart⟩ := within name member
      refine ExtTreeMap.mem_erase.mpr ⟨?_, present⟩
      exact fun same => apart (Std.LawfulEqCmp.eq_of_compare same).symm

/-- **The pass does not fault** on a table without null pointers that has the entry it is at. -/
theorem exists_passStatement (latestTdf : LongDouble) (nonNull : NonNull t.ifaceAttrMap)
    (within : pc.Within t) : ∃ result, passStatement latestTdf t pc = some result := by
  have there : ∀ name, name ∈ t.ifaceAttrMap → ∃ entry, t.entryAt? name = some entry := by
    intro name present
    obtain ⟨pointer, found⟩ :=
      Option.isSome_iff_exists.mp (ExtTreeMap.mem_iff_isSome_getElem?.mp present)
    obtain ⟨entry, rfl⟩ := Option.ne_none_iff_exists'.mp fun null => nonNull name (null ▸ found)
    exact ⟨entry, entryAt?_eq_some.mpr found⟩
  cases pc with
  | test it =>
      cases it with
      | none => exact ⟨_, rfl⟩
      | some ifaceName =>
          obtain ⟨entry, found⟩ := there ifaceName (within ifaceName rfl)
          exact ⟨_, Option.map_eq_some_iff.mpr ⟨entry, found, rfl⟩⟩
  | rate ifaceName =>
      obtain ⟨entry, found⟩ := there ifaceName within
      exact ⟨_, Option.map_eq_some_iff.mpr ⟨entry, found, rfl⟩⟩
  | delay ifaceName rate =>
      obtain ⟨entry, found⟩ := there ifaceName within
      exact ⟨_, Option.map_eq_some_iff.mpr ⟨entry, found, rfl⟩⟩
  | _ => exact ⟨_, rfl⟩

/-- **Each statement leaves fewer**, until the last one. -/
theorem turnsLeft_of_passStatement (underway : pc' ≠ .idle)
    (performed : passStatement latestTdf t pc = some (pc', next, commands)) :
    pc'.turnsLeft next + 1 ≤ pc.turnsLeft t := by
  cases passStatement_effect performed with
  | begins =>
      have bound := remaining_le_size (m := t.ifaceAttrMap) (firstKey t.ifaceAttrMap)
      simp only [PassPc.turnsLeft]
      omega
  | ends => exact absurd rfl underway
  | keeps ifaceName entry found keep =>
      have fewer := following_lt_remaining (m := t.ifaceAttrMap) (k := ifaceName)
        (ExtTreeMap.mem_iff_isSome_getElem?.mpr (by simp [found]))
      simp only [PassPc.turnsLeft]
      omega
  | drops ifaceName entry found drop =>
      have fewer := following_lt_remaining (m := t.ifaceAttrMap) (k := ifaceName)
        (ExtTreeMap.mem_iff_isSome_getElem?.mpr (by simp [found]))
      simp only [PassPc.turnsLeft]
      omega
  | rate ifaceName entry found => exact le_rfl
  | delay ifaceName rate entry found => exact le_rfl
  | change ifaceName rate delay =>
      have moves := remaining_nextKey_le (m := t.ifaceAttrMap) ifaceName
      simp only [PassPc.turnsLeft]
      omega
  | delete ifaceName =>
      have moves := remaining_nextKey_le (m := t.ifaceAttrMap) ifaceName
      simp only [PassPc.turnsLeft]
      omega
  | erase ifaceName it =>
      have fewer : remaining (t.erase ifaceName).ifaceAttrMap it ≤ remaining t.ifaceAttrMap it := by
        cases it with
        | none => exact le_rfl
        | some name => exact countKeys_erase_le _ ifaceName
      simp only [PassPc.turnsLeft]
      omega

/-- An entry that is added leaves at most four statements more. -/
theorem turnsLeft_insert_le (pc : PassPc) (name : CString)
    (pointer : Option InterfaceAttributeEntry) :
    pc.turnsLeft ⟨t.ifaceAttrMap.insert name pointer⟩ ≤ pc.turnsLeft t + 4 := by
  have behind : ∀ k, following (t.ifaceAttrMap.insert name pointer) k ≤
      following t.ifaceAttrMap k + 1 := fun k => countKeys_insert_le _ name pointer
  have before : ∀ it, remaining (t.ifaceAttrMap.insert name pointer) it ≤
      remaining t.ifaceAttrMap it + 1 := by
    intro it
    cases it with
    | none => exact Nat.zero_le _
    | some k => exact countKeys_insert_le _ name pointer
  cases pc with
  | idle =>
      have size : (t.ifaceAttrMap.insert name pointer).size ≤ t.ifaceAttrMap.size + 1 :=
        ExtTreeMap.size_insert_le
      simp only [PassPc.turnsLeft]
      omega
  | test it =>
      have more := before it
      simp only [PassPc.turnsLeft]
      omega
  | rate ifaceName | delay ifaceName rate | change ifaceName rate delay | delete ifaceName =>
      have more := behind ifaceName
      simp only [PassPc.turnsLeft]
      omega
  | erase ifaceName it =>
      have more := before it
      simp only [PassPc.turnsLeft]
      omega

end Going

end VirtualAgent
