import Mathlib.Data.Option.Basic
import Mathlib.Data.List.Basic

/-!
# Runs of a partial labelled step

A system is a state type, an action type and a step function that returns
`none` when the action is not enabled. A run performs a list of actions. An
interleaving of several parties is such a list: nothing restricts the order in
which the parties' actions stand in it.

* `Meets` says that every action of a run is taken in a state in which a given
  condition holds of it.
* `run_invariant_of_meets` is the induction of every safety result: what holds at the
  start and is preserved by each step that meets the condition holds after each run
  whose steps all meet it.
* `countP_le_of_meets` bounds how often a run does what lowers a measure, and
  `length_le_of_meets` its length when every step does. `exists_zero_of_countP` says that
  the measure is used up at some point of a run that does it often enough.
* `meets_congr_of_invariant` compares two such conditions along a run.
* `exists_run_of_simulation` turns the runs of one system into runs of another.
* `withHistory` records something about the past beside the state. It restricts no
  run (`run_withHistory`).
* `run_invariant_foldl` is the induction for what relates a state to a record that the
  actions alone determine.
* `run_invariant` and `run_foldl` are the two inductions for steps that meet no condition.
-/

set_option autoImplicit false

namespace Transition

variable {σ α : Type*}

/-- Perform the actions in order. -/
def run (step : σ → α → Option σ) : σ → List α → Option σ
  | s, [] => some s
  | s, action :: rest => (step s action).bind fun next => run step next rest

/-- Every action performed meets the condition in the state it is taken in. -/
def Meets (step : σ → α → Option σ) (condition : σ → α → Prop) : σ → List α → Prop
  | _, [] => True
  | s, action :: rest =>
      condition s action ∧ ∀ next ∈ step s action, Meets step condition next rest

instance Meets.decidable (step : σ → α → Option σ) (condition : σ → α → Prop)
    [∀ s action, Decidable (condition s action)] :
    ∀ (s : σ) (actions : List α), Decidable (Meets step condition s actions)
  | _, [] => inferInstanceAs (Decidable True)
  | s, action :: rest =>
      have : DecidablePred fun next => Meets step condition next rest :=
        fun next => Meets.decidable step condition next rest
      inferInstanceAs
        (Decidable (condition s action ∧ ∀ next ∈ step s action, Meets step condition next rest))

variable {step : σ → α → Option σ}

theorem run_cons_eq_some {s t : σ} {action : α} {rest : List α} :
    run step s (action :: rest) = some t ↔
      ∃ next, step s action = some next ∧ run step next rest = some t :=
  Option.bind_eq_some_iff

/-- A result that is computed to have a property is one that has it. -/
theorem exists_of_any {p : σ → Prop} [DecidablePred p] {result : Option σ}
    (computed : result.any (fun s => decide (p s)) = true) : ∃ s, result = some s ∧ p s := by
  obtain ⟨s, ended, holds⟩ := (Option.any_eq_true _ _).mp computed
  exact ⟨s, ended, of_decide_eq_true holds⟩

theorem run_append (s : σ) (first second : List α) :
    run step s (first ++ second) = (run step s first).bind fun next => run step next second := by
  induction first generalizing s with
  | nil => rfl
  | cons action rest ih =>
      rw [List.cons_append, run, run, Option.bind_assoc]
      exact Option.bind_congr fun next _ => ih next

theorem run_append_eq_some {s t : σ} {first second : List α} :
    run step s (first ++ second) = some t ↔
      ∃ next, run step s first = some next ∧ run step next second = some t := by
  rw [run_append]
  exact Option.bind_eq_some_iff

/-- A property kept by the steps that meet the condition holds after each run
whose steps all meet it. -/
theorem run_invariant_of_meets {condition : σ → α → Prop} (invariant : σ → Prop)
    (preserved : ∀ s action next, invariant s → condition s action →
      step s action = some next → invariant next)
    {s t : σ} {actions : List α} (initial : invariant s)
    (meets : Meets step condition s actions) (ran : run step s actions = some t) :
    invariant t := by
  induction actions generalizing s with
  | nil =>
      cases ran
      exact initial
  | cons action rest ih =>
      obtain ⟨next, stepped, later⟩ := run_cons_eq_some.mp ran
      exact ih (preserved s action next initial meets.1 stepped) (meets.2 next stepped) later

/-- A condition that holds of the actions in every state is met. -/
theorem meets_of_forall {condition : σ → α → Prop} {actions : List α}
    (holds : ∀ action ∈ actions, ∀ s, condition s action) (s : σ) :
    Meets step condition s actions := by
  induction actions generalizing s with
  | nil => trivial
  | cons action rest ih =>
      exact ⟨holds action List.mem_cons_self s, fun next _ =>
        ih (fun other member => holds other (List.mem_cons_of_mem _ member)) next⟩

/-- A property kept by every step holds after each run. -/
theorem run_invariant (invariant : σ → Prop)
    (preserved : ∀ s action next, invariant s → step s action = some next → invariant next)
    {s t : σ} {actions : List α} (initial : invariant s) (ran : run step s actions = some t) :
    invariant t := by
  have free : Meets step (fun _ _ => True) s actions := meets_of_forall (fun _ _ _ => trivial) s
  refine run_invariant_of_meets invariant ?_ initial free ran
  intro s action next kept _ stepped
  exact preserved s action next kept stepped

/-- **What lowers a measure happens no oftener than the measure says**, and what raises it
allows, as long as the steps meet the condition and keep an invariant. -/
theorem countP_le_of_meets {condition : σ → α → Prop} (counted raised : α → Bool) (gain : ℕ)
    (invariant : σ → Prop) (measure : σ → ℕ)
    (lowered : ∀ s action next, invariant s → condition s action → step s action = some next →
      invariant next ∧
        measure next + (counted action).toNat ≤ measure s + gain * (raised action).toNat)
    {s t : σ} {actions : List α} (initial : invariant s)
    (meets : Meets step condition s actions) (ran : run step s actions = some t) :
    actions.countP counted + measure t ≤ measure s + gain * actions.countP raised := by
  induction actions generalizing s with
  | nil =>
      cases ran
      simp
  | cons action rest ih =>
      obtain ⟨next, stepped, later⟩ := run_cons_eq_some.mp ran
      obtain ⟨kept, lower⟩ := lowered s action next initial meets.1 stepped
      have fewer := ih kept (meets.2 next stepped) later
      rw [List.countP_cons, List.countP_cons, Nat.mul_add]
      cases counts : counted action <;> cases raises : raised action <;>
        simp [counts, raises] at lower ⊢ <;> omega

/-- **A run whose steps lower a measure is no longer than the measure.** -/
theorem length_le_of_meets {condition : σ → α → Prop} (invariant : σ → Prop) (measure : σ → ℕ)
    (lowered : ∀ s action next, invariant s → condition s action → step s action = some next →
      invariant next ∧ measure next < measure s)
    {s t : σ} {actions : List α} (initial : invariant s)
    (meets : Meets step condition s actions) (ran : run step s actions = some t) :
    actions.length + measure t ≤ measure s := by
  have bound := countP_le_of_meets (fun _ => true) (fun _ => false) 0 invariant measure lowered
    initial meets ran
  rwa [List.countP_true, Nat.zero_mul] at bound

/-- **A measure that some actions lower is zero at some point of a run with enough of
them.** Once it is zero nothing is asked of it. -/
theorem exists_zero_of_countP {condition : σ → α → Prop} (counted : α → Bool)
    (invariant : σ → Prop) (measure : σ → ℕ)
    (lowered : ∀ s action next, invariant s → condition s action → step s action = some next →
      0 < measure s → invariant next ∧ measure next + (counted action).toNat ≤ measure s)
    {s t : σ} {actions : List α} (initial : invariant s)
    (meets : Meets step condition s actions) (ran : run step s actions = some t)
    (enough : measure s ≤ actions.countP counted) :
    ∃ before after middle, actions = before ++ after ∧ run step s before = some middle ∧
      invariant middle ∧ measure middle = 0 := by
  by_cases zero : measure s = 0
  · exact ⟨[], actions, s, rfl, rfl, initial, zero⟩
  · induction actions generalizing s with
    | nil => exact absurd (Nat.le_zero.mp enough) zero
    | cons action rest ih =>
        obtain ⟨next, stepped, later⟩ := run_cons_eq_some.mp ran
        obtain ⟨kept, lower⟩ :=
          lowered s action next initial meets.1 stepped (Nat.pos_of_ne_zero zero)
        by_cases there : measure next = 0
        · exact ⟨[action], rest, next, rfl, run_cons_eq_some.mpr ⟨next, stepped, rfl⟩, kept, there⟩
        · have enoughLater : measure next ≤ rest.countP counted := by
            cases counts : counted action <;> simp [counts] at lower enough <;> omega
          obtain ⟨before, after, middle, rfl, ranBefore, reached⟩ :=
            ih kept (meets.2 next stepped) later enoughLater there
          exact ⟨action :: before, after, middle, rfl,
            run_cons_eq_some.mpr ⟨next, stepped, ranBefore⟩, reached⟩

/-- Two conditions met along a run are met together. -/
theorem Meets.and {first second : σ → α → Prop} {s : σ} {actions : List α}
    (meetsFirst : Meets step first s actions) (meetsSecond : Meets step second s actions) :
    Meets step (fun state action => first state action ∧ second state action) s actions := by
  induction actions generalizing s with
  | nil => trivial
  | cons action rest ih =>
      exact ⟨⟨meetsFirst.1, meetsSecond.1⟩, fun next stepped =>
        ih (meetsFirst.2 next stepped) (meetsSecond.2 next stepped)⟩

/-- Two conditions that agree where an invariant holds are met by the same runs, when
the steps that meet the second keep the invariant. -/
theorem meets_congr_of_invariant {domain first second : σ → α → Prop} (invariant : σ → Prop)
    (agree : ∀ s action, invariant s → domain s action → (first s action ↔ second s action))
    (preserved : ∀ s action next, invariant s → domain s action → second s action →
      step s action = some next → invariant next)
    {s : σ} {actions : List α} (initial : invariant s) (within : Meets step domain s actions) :
    Meets step first s actions ↔ Meets step second s actions := by
  induction actions generalizing s with
  | nil => exact Iff.rfl
  | cons action rest ih =>
      obtain ⟨here, later⟩ := within
      have agreeHere := agree s action initial here
      have agreeLater : second s action → ∀ next ∈ step s action,
          (Meets step first next rest ↔ Meets step second next rest) := by
        intro holds next stepped
        exact ih (preserved s action next initial here holds stepped) (later next stepped)
      constructor
      · rintro ⟨holds, after⟩
        have holds := agreeHere.mp holds
        exact ⟨holds, fun next stepped => (agreeLater holds next stepped).mp (after next stepped)⟩
      · rintro ⟨holds, after⟩
        exact ⟨agreeHere.mpr holds, fun next stepped =>
          (agreeLater holds next stepped).mpr (after next stepped)⟩

/-! ## Simulation -/

/-- Two runs one after the other meet the condition when both do. -/
theorem meets_append {condition : σ → α → Prop} {s middle : σ} {first second : List α}
    (ran : run step s first = some middle) :
    Meets step condition s (first ++ second) ↔
      Meets step condition s first ∧ Meets step condition middle second := by
  induction first generalizing s with
  | nil =>
      cases ran
      exact ⟨fun meets => ⟨trivial, meets⟩, And.right⟩
  | cons action rest ih =>
      obtain ⟨reached, stepped, later⟩ := run_cons_eq_some.mp ran
      have only : ∀ next ∈ step s action, next = reached :=
        fun next member => Option.some.inj (member.symm.trans stepped)
      constructor
      · rintro ⟨here, after⟩
        obtain ⟨meetsFirst, meetsSecond⟩ := (ih later).mp (after reached stepped)
        exact ⟨⟨here, fun next member => only next member ▸ meetsFirst⟩, meetsSecond⟩
      · rintro ⟨⟨here, after⟩, meetsSecond⟩
        exact ⟨here, fun next member =>
          only next member ▸ (ih later).mpr ⟨after reached stepped, meetsSecond⟩⟩

/-- **A run of one system is a run of another**, when a relation between their states is
kept: each step that meets the condition is matched by a run that meets one of its own. -/
theorem exists_run_of_simulation {τ β : Type*} {abstract : τ → β → Option τ}
    {condition : σ → α → Prop} {allowed : τ → β → Prop} (relation : σ → τ → Prop)
    (matched : ∀ s t action next, relation s t → condition s action → step s action = some next →
      ∃ actions after, run abstract t actions = some after ∧ relation next after ∧
        Meets abstract allowed t actions)
    {s next : σ} {t : τ} {actions : List α} (initial : relation s t)
    (meets : Meets step condition s actions) (ran : run step s actions = some next) :
    ∃ matching after, run abstract t matching = some after ∧ relation next after ∧
      Meets abstract allowed t matching := by
  refine run_invariant_of_meets
    (fun s => ∃ matching after, run abstract t matching = some after ∧ relation s after ∧
      Meets abstract allowed t matching) ?_ ⟨[], t, rfl, initial, trivial⟩ meets ran
  rintro s action next ⟨before, middle, ranBefore, related, fine⟩ holds stepped
  obtain ⟨later, after, ranLater, relatedNext, fineLater⟩ :=
    matched s middle action next related holds stepped
  refine ⟨before ++ later, after, ?_, relatedNext,
    (meets_append ranBefore).mpr ⟨fine, fineLater⟩⟩
  rw [run_append, ranBefore]
  exact ranLater

/-! ## Recording the past -/

variable {γ : Type*}

/-- The system with a record beside its state, which each action updates. -/
def withHistory (step : σ → α → Option σ) (record : σ → γ → α → γ) (s : σ × γ) (action : α) :
    Option (σ × γ) :=
  (step s.1 action).map fun next => (next, record s.1 s.2 action)

theorem withHistory_eq_some {record : σ → γ → α → γ} {s t : σ × γ} {action : α} :
    withHistory step record s action = some t ↔
      step s.1 action = some t.1 ∧ t.2 = record s.1 s.2 action := by
  obtain ⟨next, recorded⟩ := t
  simp [withHistory, eq_comm]

/-- A run has its record. -/
theorem run_withHistory (record : σ → γ → α → γ) {s t : σ} {actions : List α}
    (ran : run step s actions = some t) (recorded : γ) :
    ∃ after, run (withHistory step record) (s, recorded) actions = some (t, after) := by
  induction actions generalizing s recorded with
  | nil =>
      cases ran
      exact ⟨recorded, rfl⟩
  | cons action rest ih =>
      obtain ⟨next, stepped, later⟩ := run_cons_eq_some.mp ran
      obtain ⟨after, ranRest⟩ := ih later (record s recorded action)
      exact ⟨after, run_cons_eq_some.mpr
        ⟨_, withHistory_eq_some.mpr ⟨stepped, rfl⟩, ranRest⟩⟩

/-- What the steps keep between the state and a record of the actions holds after each
run whose steps all meet the condition. -/
theorem run_invariant_foldl {condition : σ → α → Prop} (invariant : σ → γ → Prop)
    (record : γ → α → γ)
    (preserved : ∀ s recorded action next, invariant s recorded → condition s action →
      step s action = some next → invariant next (record recorded action))
    {s t : σ} {recorded : γ} {actions : List α} (initial : invariant s recorded)
    (meets : Meets step condition s actions) (ran : run step s actions = some t) :
    invariant t (actions.foldl record recorded) := by
  induction actions generalizing s recorded with
  | nil =>
      cases ran
      exact initial
  | cons action rest ih =>
      obtain ⟨next, stepped, later⟩ := run_cons_eq_some.mp ran
      have kept := preserved s recorded action next initial meets.1 stepped
      exact ih kept (meets.2 next stepped) later

/-- What every step keeps between the state and a record of the actions holds after each
run. -/
theorem run_foldl (invariant : σ → γ → Prop) (record : γ → α → γ)
    (preserved : ∀ s recorded action next, invariant s recorded → step s action = some next →
      invariant next (record recorded action))
    {s t : σ} {recorded : γ} {actions : List α} (initial : invariant s recorded)
    (ran : run step s actions = some t) : invariant t (actions.foldl record recorded) := by
  have free : Meets step (fun _ _ => True) s actions := meets_of_forall (fun _ _ _ => trivial) s
  refine run_invariant_foldl invariant record ?_ initial free ran
  intro s recorded action next kept _ stepped
  exact preserved s recorded action next kept stepped

end Transition
