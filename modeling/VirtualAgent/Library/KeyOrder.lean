import Std.Data.ExtTreeMap
import Mathlib.Data.Finset.Card
import Mathlib.Data.List.Induction
import Mathlib.Data.List.Nodup
import Mathlib.Data.List.Perm.Basic

/-!
# Iterators and keyed updates of an ordered map

An iterator of an ordered map is the key it stands at. The next position is the
least greater key (`nextKey`): the next entry's, in the list of the entries
(`nextKey_of_toList_eq`). Erasing the entry behind an iterator leaves the entries
from the iterator on as they were (`toList_erase_of_toList_eq`).

A list of keyed updates performed in order leaves at each key the last update of
that key. So two lists that have the same updates of each key, in the same
order, leave the same map (`insertAll_congr`), however the updates of
different keys are merged.

A map has as many entries as different keys were inserted (`HasKeys.insert`). An iterator
has fewer positions before it with each move (`following_lt_remaining`,
`remaining_nextKey_le`), and an insertion adds at most one.
-/

set_option autoImplicit false

namespace KeyOrder

open Std

variable {κ β : Type*} {cmp : κ → κ → Ordering}

/-- The position of `begin()`. -/
def firstKey (m : ExtTreeMap κ β cmp) [TransCmp cmp] : Option κ := m.keys.head?

/-- The position after a key. -/
def nextKey (m : ExtTreeMap κ β cmp) [TransCmp cmp] (k : κ) : Option κ :=
  m.keys.find? fun other => (cmp k other).isLT

variable [TransCmp cmp]

theorem firstKey_eq (m : ExtTreeMap κ β cmp) : firstKey m = m.toList.head?.map Prod.fst := by
  rw [firstKey, ← ExtTreeMap.map_fst_toList_eq_keys, List.head?_map]

/-- The position after an entry is that of the next one. -/
theorem nextKey_of_toList_eq {m : ExtTreeMap κ β cmp} {k : κ} {v : β}
    {before after : List (κ × β)} (entries : m.toList = before ++ (k, v) :: after) :
    nextKey m k = after.head?.map Prod.fst := by
  have ordered := m.ordered_keys_toList
  rw [entries, List.pairwise_append] at ordered
  obtain ⟨-, fromEntry, split⟩ := ordered
  have notBefore : ((before.map Prod.fst).find? fun other => (cmp k other).isLT) = none := by
    rw [List.find?_eq_none]
    intro other member
    obtain ⟨entry, inBefore, rfl⟩ := List.mem_map.mp member
    have less := split entry inBefore (k, v) (by simp)
    simp [OrientedCmp.gt_of_lt less]
  have notSelf : (cmp k k).isLT = false := by simp [ReflCmp.compare_self]
  rw [nextKey, ← ExtTreeMap.map_fst_toList_eq_keys, entries, List.map_append, List.find?_append,
    notBefore, Option.none_or, List.map_cons, List.find?_cons, notSelf]
  cases after with
  | nil => rfl
  | cons next rest =>
      have less := (List.pairwise_cons.mp fromEntry).1 next (by simp)
      simp at less
      simp [less]

variable [LawfulEqCmp cmp]

theorem mem_of_firstKey {m : ExtTreeMap κ β cmp} {k : κ} (first : firstKey m = some k) : k ∈ m :=
  ExtTreeMap.mem_keys.mp (List.mem_of_head? first)

theorem mem_of_nextKey {m : ExtTreeMap κ β cmp} {k next : κ}
    (moves : nextKey m k = some next) :
    next ∈ m ∧ cmp k next = .lt := by
  have less := List.find?_some moves
  exact ⟨ExtTreeMap.mem_keys.mp (List.mem_of_find?_eq_some moves), by simpa using less⟩

/-- Inserting leaves the other entries. -/
theorem getElem?_insert_of_ne (m : ExtTreeMap κ β cmp) {k other : κ} (v : β) (apart : other ≠ k) :
    (m.insert k v)[other]? = m[other]? := by
  rw [ExtTreeMap.getElem?_insert, if_neg]
  intro same
  exact apart (LawfulEqCmp.eq_of_compare same).symm

/-- Inserting what is there changes nothing. -/
theorem insert_of_getElem?_eq_some {m : ExtTreeMap κ β cmp} {k : κ} {v : β}
    (present : m[k]? = some v) : m.insert k v = m := by
  refine ExtTreeMap.ext_getElem? ?_
  intro other
  rw [ExtTreeMap.getElem?_insert]
  split
  case isTrue same =>
    rw [← LawfulEqCmp.eq_of_compare same, present]
  case isFalse => rfl

theorem nodup_toList (m : ExtTreeMap κ β cmp) : m.toList.Nodup := by
  refine m.ordered_keys_toList.imp ?_
  intro a b less same
  subst same
  rw [@ReflCmp.compare_self _ cmp] at less
  cases less

/-- Erasing an entry leaves the others in their places. -/
theorem toList_erase_of_toList_eq {m : ExtTreeMap κ β cmp} {k : κ} {v : β}
    {before after : List (κ × β)} (entries : m.toList = before ++ (k, v) :: after) :
    (m.erase k).toList = before ++ after := by
  have distinct : (before ++ (k, v) :: after).Nodup := entries ▸ nodup_toList m
  have ordered := m.ordered_keys_toList
  rw [entries] at ordered
  have members : ∀ entry, entry ∈ (m.erase k).toList ↔ entry ∈ before ++ after := by
    rintro ⟨key, value⟩
    have fromMap : m[key]? = some value ↔ (key, value) ∈ before ++ (k, v) :: after := by
      rw [← entries, ExtTreeMap.mem_toList_iff_getElem?_eq_some]
    rw [ExtTreeMap.mem_toList_iff_getElem?_eq_some, ExtTreeMap.getElem?_erase]
    split
    case isTrue same =>
      obtain rfl := LawfulEqCmp.compare_eq_iff_eq.mp same
      refine iff_of_false (by simp) ?_
      intro member
      -- the key would stand twice
      rw [List.pairwise_append, List.pairwise_cons] at ordered
      rcases List.mem_append.mp member with member | member
      · have less := ordered.2.2 _ member (k, v) (by simp)
        simp [ReflCmp.compare_self] at less
      · have less := ordered.2.1.1 _ member
        simp [ReflCmp.compare_self] at less
    case isFalse different =>
      have apart : key ≠ k := fun same => different (by rw [same, @ReflCmp.compare_self _ cmp])
      rw [fromMap]
      simp [apart]
  have kept : (before ++ after).Pairwise fun a b => cmp a.1 b.1 = .lt :=
    ordered.sublist ((List.sublist_cons_self (k, v) after).append_left before)
  exact ((List.perm_ext_iff_of_nodup (nodup_toList _) (List.nodup_middle.mp distinct).of_cons).mpr
    members).eq_of_pairwise
      (fun a b _ _ less greater => by
        rw [OrientedCmp.gt_of_lt greater] at less
        cases less)
      (m.erase k).ordered_keys_toList kept

/-! ## Keyed updates -/

/-- Perform updates in order. -/
def insertAll (m : ExtTreeMap κ β cmp) (updates : List (κ × β)) : ExtTreeMap κ β cmp :=
  updates.foldl (fun table update => table.insert update.1 update.2) m

variable [DecidableEq κ]

/-- The updates of one key. -/
def updatesOf (k : κ) (updates : List (κ × β)) : List (κ × β) :=
  updates.filter fun update => update.1 = k

theorem getElem?_insertAll (m : ExtTreeMap κ β cmp) (updates : List (κ × β)) (k : κ) :
    (insertAll m updates)[k]? =
      ((updatesOf k updates).getLast?.map Prod.snd).or m[k]? := by
  induction updates using List.reverseRecOn with
  | nil => rfl
  | append_singleton front last ih =>
      unfold insertAll updatesOf at ih ⊢
      rw [List.foldl_append, List.filter_append]
      simp only [List.foldl_cons, List.foldl_nil, ExtTreeMap.getElem?_insert,
        LawfulEqCmp.compare_eq_iff_eq]
      by_cases same : last.1 = k
      · simp [same]
      · simp [same, ih]

/-- **Updates merged in different orders leave the same map**, when each key has
the same updates in the same order. -/
theorem insertAll_congr (m : ExtTreeMap κ β cmp) {first second : List (κ × β)}
    (same : ∀ k, updatesOf k first = updatesOf k second) :
    insertAll m first = insertAll m second := by
  apply ExtTreeMap.ext_getElem?
  intro k
  rw [getElem?_insertAll, getElem?_insertAll, same k]

/-! ## Counting entries -/

/-- The keys of a map, each of which has one entry. -/
structure HasKeys (m : ExtTreeMap κ β cmp) (keys : Finset κ) : Prop where
  mem_iff : ∀ k, k ∈ m ↔ k ∈ keys
  size_eq : m.size = keys.card

omit [LawfulEqCmp cmp] [DecidableEq κ] in
theorem hasKeys_empty : HasKeys (∅ : ExtTreeMap κ β cmp) ∅ where
  mem_iff k := iff_of_false ExtTreeMap.not_mem_empty (Finset.notMem_empty k)
  size_eq := by rw [ExtTreeMap.size_empty, Finset.card_empty]

/-- **Inserting counts a key once.** -/
theorem HasKeys.insert {m : ExtTreeMap κ β cmp} {keys : Finset κ} (hasKeys : HasKeys m keys)
    (k : κ) (v : β) : HasKeys (m.insert k v) (insert k keys) := by
  obtain ⟨mem_iff, size_eq⟩ := hasKeys
  refine ⟨?_, ?_⟩
  · intro other
    rw [ExtTreeMap.mem_insert, LawfulEqCmp.compare_eq_iff_eq, Finset.mem_insert, mem_iff other]
    exact or_congr_left eq_comm
  · rw [ExtTreeMap.size_insert]
    have contains : m.contains k = true ↔ k ∈ keys := ExtTreeMap.contains_iff_mem.trans (mem_iff k)
    by_cases known : k ∈ keys
    · rw [if_pos (contains.mpr known), Finset.insert_eq_of_mem known, size_eq]
    · rw [if_neg (mt contains.mp known), Finset.card_insert_of_notMem known, size_eq]

/-! ## How far an iterator still goes -/

section Remaining

variable (m : ExtTreeMap κ β cmp)

/-- The number of keys with a property. -/
def countKeys (p : κ → Bool) : ℕ := (m.keys.toFinset.filter fun k => p k).card

/-- The number of positions from an iterator to the end. -/
def remaining : Option κ → ℕ
  | none => 0
  | some k => countKeys m fun other => (cmp k other).isLE

/-- The number of positions behind a key. -/
def following (k : κ) : ℕ := countKeys m fun other => (cmp k other).isLT

variable {m}

omit [LawfulEqCmp cmp] in
theorem countKeys_le_size (p : κ → Bool) : countKeys m p ≤ m.size :=
  (Finset.card_filter_le _ _).trans (m.keys.toFinset_card_le.trans ExtTreeMap.length_keys.le)

theorem countKeys_insert_le (p : κ → Bool) (k : κ) (v : β) :
    countKeys (m.insert k v) p ≤ countKeys m p + 1 := by
  refine (Finset.card_le_card ?_).trans (Finset.card_insert_le k _)
  intro other member
  simp only [Finset.mem_filter, List.mem_toFinset, Finset.mem_insert, ExtTreeMap.mem_keys,
    ExtTreeMap.mem_insert, LawfulEqCmp.compare_eq_iff_eq] at member ⊢
  obtain ⟨same | present, has⟩ := member
  · exact Or.inl same.symm
  · exact Or.inr ⟨present, has⟩

theorem countKeys_erase_le (p : κ → Bool) (k : κ) : countKeys (m.erase k) p ≤ countKeys m p := by
  refine Finset.card_le_card (Finset.filter_subset_filter _ ?_)
  intro other member
  rw [List.mem_toFinset, ExtTreeMap.mem_keys] at member ⊢
  exact (ExtTreeMap.mem_erase.mp member).2

omit [LawfulEqCmp cmp] in
theorem countKeys_le_of_imp {p q : κ → Bool} (implies : ∀ k, p k = true → q k = true) :
    countKeys m p ≤ countKeys m q :=
  Finset.card_le_card (Finset.monotone_filter_right _ fun k _ => implies k)

omit [LawfulEqCmp cmp] in
theorem remaining_le_size (it : Option κ) : remaining m it ≤ m.size := by
  cases it with
  | none => exact Nat.zero_le _
  | some k => exact countKeys_le_size _

/-- An iterator has one position more before it than behind it. -/
theorem following_lt_remaining {k : κ} (present : k ∈ m) :
    following m k < remaining m (some k) := by
  unfold following remaining countKeys
  refine Finset.card_lt_card (Finset.ssubset_iff_of_subset ?_ |>.mpr ⟨k, ?_, ?_⟩)
  · exact Finset.monotone_filter_right _ fun other _ less =>
      Ordering.isLE_of_eq_lt (by simpa using less)
  · simp [ExtTreeMap.mem_keys, present, ReflCmp.compare_self]
  · simp [ReflCmp.compare_self]

theorem remaining_nextKey_le (k : κ) : remaining m (nextKey m k) ≤ following m k := by
  cases moves : nextKey m k with
  | none => exact Nat.zero_le _
  | some next =>
      have less := (mem_of_nextKey moves).2
      refine countKeys_le_of_imp ?_
      intro other behind
      simpa using TransCmp.lt_of_lt_of_isLE less behind

end Remaining

end KeyOrder
