import Mathlib.Data.Finset.Card
import Mathlib.Logic.Function.Basic

/-!
# Objects under a key

An operating system keeps objects that processes share, such as memory segments, apart from
the processes. A process asks for the object under a key and is given its identifier. An
object that is removed is no longer under its key, but stays while a process has it
attached; after that it is gone. Identifiers are not given out twice.

A `Registry` is the objects that have been created under one key. `Registry.WellFormed` is
what the operations keep: the object under the key has not been removed, all others have
been and are attached. `exists_iff` reads from it which objects there are. `Gone` says that
an identifier will not come under the key any more, which every operation keeps as well.
-/

set_option autoImplicit false

namespace KeyedObjects

variable {ι α : Type*}

/-! ## Objects -/

/-- An object, with the processes that have it attached. -/
structure Entry (ι α : Type*) where
  content : α
  attached : Finset ι := ∅
  removed : Bool := false

/-- What is left of an object: one that has been removed lasts while it is attached. -/
def Entry.kept (entry : Entry ι α) : Option (Entry ι α) :=
  if entry.removed = true ∧ entry.attached.card = 0 then none else some entry

theorem Entry.kept_eq_some {entry after : Entry ι α} :
    entry.kept = some after ↔
      after = entry ∧ (entry.removed = true → entry.attached ≠ ∅) := by
  simp only [kept, Option.ite_none_left_eq_some, Option.some.injEq, not_and, ne_eq,
    Finset.card_eq_zero, eq_comm (a := entry)]
  exact and_comm

/-- The objects created under one key, by their identifiers. -/
structure Registry (ι α : Type*) where
  objects : ℕ → Option (Entry ι α)
  current : Option ℕ
  created : ℕ

namespace Registry

/-- Nothing has been created. -/
def empty : Registry ι α := ⟨fun _ => none, none, 0⟩

/-- The identifier of the object under the key, which is created if need be. -/
def create (r : Registry ι α) (fresh : α) : ℕ × Registry ι α :=
  match r.current with
  | some id => (id, r)
  | none =>
      (r.created,
        { objects := Function.update r.objects r.created (some { content := fresh })
          current := some r.created
          created := r.created + 1 })

/-- Change an object, if there is one with the identifier. -/
def change (r : Registry ι α) (id : ℕ) (f : Entry ι α → Entry ι α) : Registry ι α :=
  { r with
    objects := Function.update r.objects id ((r.objects id).bind fun entry => (f entry).kept) }

/-- Remove an object. -/
def remove (r : Registry ι α) (id : ℕ) : Registry ι α :=
  { r.change id fun entry => { entry with removed := true } with
    current := if r.current = some id then none else r.current }

/-- Change the content of an object. -/
def store (r : Registry ι α) (id : ℕ) (f : α → α) : Registry ι α :=
  r.change id fun entry => { entry with content := f entry.content }

section

variable [DecidableEq ι]

/-- A process attaches an object. -/
def attach (r : Registry ι α) (process : ι) (id : ℕ) : Registry ι α :=
  r.change id fun entry => { entry with attached := insert process entry.attached }

/-- A process detaches an object. -/
def detach (r : Registry ι α) (process : ι) (id : ℕ) : Registry ι α :=
  r.change id fun entry => { entry with attached := entry.attached.erase process }

/-- A process ends, and with it what it has attached. -/
def release (r : Registry ι α) (process : ι) : Registry ι α :=
  { r with objects := fun id => (r.objects id).bind fun entry =>
      { entry with attached := entry.attached.erase process : Entry ι α }.kept }

end

/-! ## What there is -/

/-- The object under the key has not been removed; every other one has been, and is
attached. -/
structure WellFormed (r : Registry ι α) : Prop where
  current : ∀ id, r.current = some id → ∃ entry, r.objects id = some entry ∧ entry.removed = false
  others : ∀ id entry, r.objects id = some entry → r.current ≠ some id →
    entry.removed = true ∧ entry.attached ≠ ∅
  bounded : ∀ id entry, r.objects id = some entry → id < r.created

/-- An identifier that has been given out and is not under the key. -/
def Gone (r : Registry ι α) (id : ℕ) : Prop := id < r.created ∧ r.current ≠ some id

variable {r : Registry ι α}

/-- A process has an object attached. -/
def Holds (r : Registry ι α) (process : ι) (id : ℕ) : Prop :=
  ∃ entry, r.objects id = some entry ∧ process ∈ entry.attached

/-- **Which objects there are**: the one under the key, and what is attached. -/
theorem exists_iff (wellFormed : r.WellFormed) (id : ℕ) :
    (∃ entry, r.objects id = some entry) ↔
      r.current = some id ∨ ∃ process, r.Holds process id := by
  constructor
  · rintro ⟨entry, found⟩
    by_cases under : r.current = some id
    · exact Or.inl under
    · obtain ⟨process, member⟩ :=
        Finset.nonempty_iff_ne_empty.mpr (wellFormed.others id entry found under).2
      exact Or.inr ⟨process, entry, found, member⟩
  · rintro (under | ⟨process, entry, found, -⟩)
    · obtain ⟨entry, found, -⟩ := wellFormed.current id under
      exact ⟨entry, found⟩
    · exact ⟨entry, found⟩

theorem wellFormed_empty : (empty : Registry ι α).WellFormed where
  current := fun _ under => by cases under
  others := fun _ _ found => by cases found
  bounded := fun _ _ found => by cases found

/-! ## Creating -/

theorem create_of_current {id : ℕ} (under : r.current = some id) (fresh : α) :
    r.create fresh = (id, r) := by
  simp only [create, under]

theorem current_create (r : Registry ι α) (fresh : α) :
    (r.create fresh).2.current = some (r.create fresh).1 := by
  unfold create
  cases under : r.current with
  | some id => exact under
  | none => rfl

theorem holds_create (wellFormed : r.WellFormed) (fresh : α) {process : ι} {id : ℕ} :
    (r.create fresh).2.Holds process id ↔ r.Holds process id := by
  unfold create
  cases under : r.current with
  | some id => exact Iff.rfl
  | none =>
      by_cases same : id = r.created
      · subst same
        constructor
        · rintro ⟨entry, found, member⟩
          dsimp only at found
          rw [Function.update_self] at found
          cases found
          cases member
        · rintro ⟨entry, found, -⟩
          exact absurd (wellFormed.bounded _ entry found) (lt_irrefl _)
      · simp only [Holds, Function.update_of_ne same]

theorem WellFormed.create (wellFormed : r.WellFormed) (fresh : α) :
    (r.create fresh).2.WellFormed := by
  unfold Registry.create
  cases under : r.current with
  | some id => exact wellFormed
  | none =>
      refine ⟨?_, ?_, ?_⟩
      · rintro id ⟨rfl⟩
        exact ⟨_, Function.update_self .., rfl⟩
      · intro id entry found other
        have different : id ≠ r.created := fun same => other (same ▸ rfl)
        dsimp only at found
        rw [Function.update_of_ne different] at found
        exact wellFormed.others id entry found (by simp [under])
      · intro id entry found
        dsimp only at found ⊢
        by_cases same : id = r.created
        · exact same ▸ Nat.lt_succ_self _
        · rw [Function.update_of_ne same] at found
          exact (wellFormed.bounded id entry found).trans (Nat.lt_succ_self _)

/-- The content of the object under the key, or of the one that would be created. -/
def contentUnder (r : Registry ι α) (fresh : α) : α :=
  ((r.current.bind r.objects).map Entry.content).getD fresh

theorem exists_create (wellFormed : r.WellFormed) (fresh : α) :
    ∃ entry, (r.create fresh).2.objects (r.create fresh).1 = some entry ∧
      entry.content = r.contentUnder fresh := by
  cases under : r.current with
  | some id =>
      obtain ⟨entry, found, -⟩ := wellFormed.current id under
      rw [create_of_current under]
      exact ⟨entry, found, by simp [contentUnder, under, found]⟩
  | none =>
      simp only [create, contentUnder, under, Function.update_self]
      exact ⟨_, rfl, rfl⟩

theorem created_le_create (r : Registry ι α) (fresh : α) :
    r.created ≤ (r.create fresh).2.created := by
  unfold create
  cases under : r.current with
  | some id => exact le_rfl
  | none => exact Nat.le_succ _

theorem Gone.create {id : ℕ} (gone : r.Gone id) (fresh : α) : (r.create fresh).2.Gone id := by
  unfold Registry.create
  cases under : r.current with
  | some id => exact gone
  | none =>
      refine ⟨gone.1.trans (Nat.lt_succ_self _), ?_⟩
      rintro ⟨same⟩
      exact absurd gone.1 (lt_irrefl _)

/-- The identifier under the key has been given out. -/
theorem WellFormed.lt_created (wellFormed : r.WellFormed) {id : ℕ} (under : r.current = some id) :
    id < r.created := by
  obtain ⟨entry, found, -⟩ := wellFormed.current id under
  exact wellFormed.bounded id entry found

/-- What leaves the key alone does not bring an identifier back. -/
theorem Gone.congr {next : Registry ι α} {id : ℕ} (gone : r.Gone id)
    (current_eq : next.current = r.current) (created_eq : next.created = r.created) :
    next.Gone id :=
  ⟨created_eq ▸ gone.1, current_eq ▸ gone.2⟩

/-! ## Changing -/

theorem objects_change_self {id : ℕ} {f : Entry ι α → Entry ι α} {after : Entry ι α} :
    (r.change id f).objects id = some after ↔
      ∃ entry, r.objects id = some entry ∧ after = f entry ∧
        ((f entry).removed = true → (f entry).attached ≠ ∅) := by
  simp only [change, Function.update_self, Option.bind_eq_some_iff, Entry.kept_eq_some]

theorem objects_change_of_ne {id other : ℕ} (different : other ≠ id)
    (f : Entry ι α → Entry ι α) : (r.change id f).objects other = r.objects other :=
  Function.update_of_ne different _ _

/-- Changes that remove nothing keep the registry well formed. -/
theorem WellFormed.of_objects {next : Registry ι α} (wellFormed : r.WellFormed)
    (current_eq : next.current = r.current) (created_eq : next.created = r.created)
    (origin : ∀ id after, next.objects id = some after → ∃ entry, r.objects id = some entry ∧
      after.removed = entry.removed ∧ (after.removed = true → after.attached ≠ ∅))
    (stays : ∀ id entry, r.objects id = some entry → entry.removed = false →
      ∃ after, next.objects id = some after ∧ after.removed = false) : next.WellFormed where
  current := by
    intro id under
    rw [current_eq] at under
    obtain ⟨entry, found, notRemoved⟩ := wellFormed.current id under
    exact stays id entry found notRemoved
  others := by
    intro id after found other
    rw [current_eq] at other
    obtain ⟨entry, before, removed_eq, kept⟩ := origin id after found
    have removed := removed_eq.trans (wellFormed.others id entry before other).1
    exact ⟨removed, kept removed⟩
  bounded := by
    intro id after found
    obtain ⟨entry, before, -⟩ := origin id after found
    exact created_eq ▸ wellFormed.bounded id entry before

/-- What has been removed is attached. -/
theorem WellFormed.attached_ne_empty (wellFormed : r.WellFormed) {id : ℕ} {entry : Entry ι α}
    (found : r.objects id = some entry) (removed : entry.removed = true) : entry.attached ≠ ∅ := by
  refine (wellFormed.others id entry found ?_).2
  intro under
  obtain ⟨same, found', stays⟩ := wellFormed.current id under
  cases found.symm.trans found'
  rw [removed] at stays
  cases stays

theorem WellFormed.change (wellFormed : r.WellFormed) (id : ℕ) {f : Entry ι α → Entry ι α}
    (removed : ∀ entry, (f entry).removed = entry.removed) : (r.change id f).WellFormed := by
  refine wellFormed.of_objects rfl rfl ?_ ?_
  · intro other after found
    by_cases same : other = id
    · subst same
      obtain ⟨entry, before, rfl, kept⟩ := objects_change_self.mp found
      exact ⟨entry, before, removed entry, kept⟩
    · rw [objects_change_of_ne same] at found
      exact ⟨after, found, rfl, wellFormed.attached_ne_empty found⟩
  · intro other entry found stays
    by_cases same : other = id
    · subst same
      have stays' : (f entry).removed = false := (removed entry).trans stays
      exact ⟨f entry, objects_change_self.mpr ⟨entry, found, rfl, fun gone => by
        rw [stays'] at gone; cases gone⟩, stays'⟩
    · exact ⟨entry, (objects_change_of_ne same f).trans found, stays⟩

theorem holds_change_self {process : ι} {id : ℕ} {f : Entry ι α → Entry ι α} :
    (r.change id f).Holds process id ↔
      ∃ entry, r.objects id = some entry ∧ process ∈ (f entry).attached := by
  constructor
  · rintro ⟨after, found, member⟩
    obtain ⟨entry, before, rfl, -⟩ := objects_change_self.mp found
    exact ⟨entry, before, member⟩
  · rintro ⟨entry, before, member⟩
    exact ⟨f entry, objects_change_self.mpr ⟨entry, before, rfl, fun _ =>
      Finset.ne_empty_of_mem member⟩, member⟩

theorem holds_change_of_ne {process : ι} {id other : ℕ} (different : other ≠ id)
    (f : Entry ι α → Entry ι α) :
    (r.change id f).Holds process other ↔ r.Holds process other := by
  rw [Holds, objects_change_of_ne different, Holds]

/-- A change that is not about attaching. -/
theorem holds_change {process : ι} {id other : ℕ} {f : Entry ι α → Entry ι α}
    (attached : ∀ entry, (f entry).attached = entry.attached) :
    (r.change id f).Holds process other ↔ r.Holds process other := by
  by_cases same : other = id
  · subst same
    rw [holds_change_self]
    simp only [attached, Holds]
  · exact holds_change_of_ne same f

theorem holds_store {process : ι} {id other : ℕ} (f : α → α) :
    (r.store id f).Holds process other ↔ r.Holds process other :=
  holds_change fun _ => rfl

theorem holds_remove {process : ι} {id other : ℕ} :
    (r.remove id).Holds process other ↔ r.Holds process other :=
  holds_change fun _ => rfl

theorem objects_store (wellFormed : r.WellFormed) {id : ℕ} {entry : Entry ι α}
    (found : r.objects id = some entry) (f : α → α) :
    (r.store id f).objects id = some { entry with content := f entry.content } := by
  have kept : entry.removed = true → entry.attached ≠ ∅ := wellFormed.attached_ne_empty found
  exact objects_change_self.mpr ⟨entry, found, rfl, kept⟩

theorem WellFormed.store (wellFormed : r.WellFormed) (id : ℕ) (f : α → α) :
    (r.store id f).WellFormed :=
  wellFormed.change id fun _ => rfl

theorem WellFormed.remove (wellFormed : r.WellFormed) (id : ℕ) : (r.remove id).WellFormed where
  current := by
    intro other under
    obtain ⟨different, under⟩ : ¬ r.current = some id ∧ r.current = some other :=
      Option.ite_none_left_eq_some.mp under
    obtain ⟨entry, found, stays⟩ := wellFormed.current other under
    have apart : other ≠ id := fun same => different (same ▸ under)
    exact ⟨entry, (objects_change_of_ne apart _).trans found, stays⟩
  others := by
    intro other after found different
    by_cases same : other = id
    · subst same
      obtain ⟨entry, before, rfl, kept⟩ := objects_change_self.mp found
      exact ⟨rfl, kept rfl⟩
    · have before : r.objects other = some after := (objects_change_of_ne same _).symm.trans found
      refine wellFormed.others other after before ?_
      intro under
      have apart : r.current ≠ some id := fun here =>
        same (Option.some.inj (under.symm.trans here))
      refine different ?_
      change (if r.current = some id then none else r.current) = some other
      rw [if_neg apart, under]
  bounded := by
    intro other after found
    by_cases same : other = id
    · subst same
      obtain ⟨entry, before, -, -⟩ := objects_change_self.mp found
      exact wellFormed.bounded other entry before
    · exact wellFormed.bounded other after ((objects_change_of_ne same _).symm.trans found)

/-- **What is removed does not come under the key again.** -/
theorem gone_remove {id : ℕ} (given : id < r.created) : (r.remove id).Gone id := by
  refine ⟨given, ?_⟩
  change (if r.current = some id then none else r.current) ≠ some id
  split
  · exact nofun
  · assumption

theorem Gone.remove {id : ℕ} (gone : r.Gone id) (other : ℕ) : (r.remove other).Gone id := by
  refine ⟨gone.1, ?_⟩
  change (if r.current = some other then none else r.current) ≠ some id
  split
  · exact nofun
  · exact gone.2

section

variable [DecidableEq ι]

theorem WellFormed.attach (wellFormed : r.WellFormed) (process : ι) (id : ℕ) :
    (r.attach process id).WellFormed :=
  wellFormed.change id fun _ => rfl

theorem WellFormed.detach (wellFormed : r.WellFormed) (process : ι) (id : ℕ) :
    (r.detach process id).WellFormed :=
  wellFormed.change id fun _ => rfl

theorem objects_attach {process : ι} {id : ℕ} {entry : Entry ι α}
    (found : r.objects id = some entry) :
    (r.attach process id).objects id =
      some { entry with attached := insert process entry.attached } :=
  objects_change_self.mpr ⟨entry, found, rfl, fun _ => Finset.insert_ne_empty process _⟩

theorem holds_attach {process other : ι} {id otherId : ℕ} :
    (r.attach process id).Holds other otherId ↔
      r.Holds other otherId ∨
        (other = process ∧ otherId = id ∧ ∃ entry, r.objects id = some entry) := by
  by_cases same : otherId = id
  · subst same
    rw [attach, holds_change_self]
    simp only [Finset.mem_insert, Holds, true_and]
    constructor
    · rintro ⟨entry, found, own | member⟩
      · exact Or.inr ⟨own, entry, found⟩
      · exact Or.inl ⟨entry, found, member⟩
    · rintro (⟨entry, found, member⟩ | ⟨own, entry, found⟩)
      · exact ⟨entry, found, Or.inr member⟩
      · exact ⟨entry, found, Or.inl own⟩
  · rw [attach, holds_change_of_ne same]
    exact ⟨Or.inl, fun holds => holds.resolve_right fun attached => same attached.2.1⟩

theorem holds_detach {process other : ι} {id otherId : ℕ} :
    (r.detach process id).Holds other otherId ↔
      r.Holds other otherId ∧ ¬ (other = process ∧ otherId = id) := by
  by_cases same : otherId = id
  · subst same
    rw [detach, holds_change_self]
    simp only [Finset.mem_erase, Holds, and_true, ne_eq]
    constructor
    · rintro ⟨entry, found, different, member⟩
      exact ⟨⟨entry, found, member⟩, different⟩
    · rintro ⟨⟨entry, found, member⟩, different⟩
      exact ⟨entry, found, different, member⟩
  · rw [detach, holds_change_of_ne same]
    exact ⟨fun holds => ⟨holds, fun own => same own.2⟩, And.left⟩

theorem objects_release {process : ι} {id : ℕ} {after : Entry ι α} :
    (r.release process).objects id = some after ↔
      ∃ entry, r.objects id = some entry ∧
        after = { entry with attached := entry.attached.erase process } ∧
        (entry.removed = true → entry.attached.erase process ≠ ∅) := by
  simp only [release, Option.bind_eq_some_iff, Entry.kept_eq_some]

theorem WellFormed.release (wellFormed : r.WellFormed) (process : ι) :
    (r.release process).WellFormed := by
  refine wellFormed.of_objects rfl rfl ?_ ?_
  · intro id after found
    obtain ⟨entry, before, rfl, kept⟩ := objects_release.mp found
    exact ⟨entry, before, rfl, kept⟩
  · intro id entry found stays
    exact ⟨_, objects_release.mpr ⟨entry, found, rfl, fun gone => by
      rw [stays] at gone; cases gone⟩, stays⟩

theorem holds_release {process other : ι} {id : ℕ} :
    (r.release process).Holds other id ↔ r.Holds other id ∧ other ≠ process := by
  constructor
  · rintro ⟨after, found, member⟩
    obtain ⟨entry, before, rfl, -⟩ := objects_release.mp found
    obtain ⟨different, member⟩ := Finset.mem_erase.mp member
    exact ⟨⟨entry, before, member⟩, different⟩
  · rintro ⟨⟨entry, before, member⟩, different⟩
    have member := Finset.mem_erase.mpr ⟨different, member⟩
    exact ⟨_, objects_release.mpr ⟨entry, before, rfl, fun _ =>
      Finset.ne_empty_of_mem member⟩, member⟩

end

end Registry

end KeyedObjects
