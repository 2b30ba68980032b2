import Mathlib.Logic.Function.Basic
import VirtualAgent.Library.Transition

/-!
# A family of systems side by side

Each member of a family has a state of its own, and an action belongs to one member. The
others keep their states. `run_familyStep` projects a run of the whole family to the
runs of its members, so what holds after each run of one system holds of every member
after each run of the family, whatever the order in which the members act.
-/

set_option autoImplicit false

namespace Transition

variable {ι σ α : Type*} [DecidableEq ι]

/-- One member of the family takes a step. -/
def familyStep (step : σ → α → Option σ) (members : ι → σ) (action : ι × α) : Option (ι → σ) :=
  (step (members action.1) action.2).map (Function.update members action.1)

/-- The actions of one member, in order. -/
def actionsOf (member : ι) (actions : List (ι × α)) : List α :=
  actions.filterMap fun action => if action.1 = member then some action.2 else none

variable {step : σ → α → Option σ}

theorem familyStep_eq_some {members next : ι → σ} {action : ι × α} :
    familyStep step members action = some next ↔
      ∃ after, step (members action.1) action.2 = some after ∧
        next = Function.update members action.1 after := by
  simp only [familyStep, Option.map_eq_some_iff, eq_comm (a := next)]

/-- **A run of the family is a run of each member.** -/
theorem run_familyStep {members next : ι → σ} {actions : List (ι × α)}
    (ran : run (familyStep step) members actions = some next) (member : ι) :
    run step (members member) (actionsOf member actions) = some (next member) := by
  induction actions generalizing members with
  | nil =>
      cases ran
      rfl
  | cons action rest ih =>
      obtain ⟨middle, stepped, later⟩ := run_cons_eq_some.mp ran
      obtain ⟨after, moved, rfl⟩ := familyStep_eq_some.mp stepped
      have ranRest := ih later
      by_cases own : action.1 = member
      · subst own
        rw [Function.update_self] at ranRest
        have first : actionsOf action.1 (action :: rest) = action.2 :: actionsOf action.1 rest := by
          simp [actionsOf]
        rw [first]
        exact run_cons_eq_some.mpr ⟨after, moved, ranRest⟩
      · rw [Function.update_of_ne (Ne.symm own)] at ranRest
        have skipped : actionsOf member (action :: rest) = actionsOf member rest := by
          simp [actionsOf, own]
        rw [skipped]
        exact ranRest

end Transition
