import Mathlib.Data.List.Basic

/-!
# Computations that can fail

A computation that can fail, and the loop that performs a list of steps until one
fails. `bind_eq_ok` takes a successful sequence apart. `foldlM_invariant` is the
invariant rule of the loop for what holds when it succeeds, `foldlM_ok` the one for
its succeeding.
-/

set_option autoImplicit false

namespace Outcome

universe u

variable {ε : Type*} {α β : Type u}

@[simp] theorem ok_bind (a : α) (f : α → Except ε β) :
    (Except.ok a >>= f) = f a := rfl

@[simp] theorem error_bind (e : ε) (f : α → Except ε β) :
    (Except.error e >>= f) = .error e := rfl

theorem bind_eq_ok {x : Except ε α} {f : α → Except ε β} {b : β} :
    x >>= f = .ok b ↔ ∃ a, x = .ok a ∧ f a = .ok b := by
  cases x with
  | error e => simp
  | ok a => simp

theorem toOption_eq_some {x : Except ε α} {a : α} : x.toOption = some a ↔ x = .ok a := by
  cases x <;> simp [Except.toOption]

variable {σ τ γ : Type*}

/-- What every step keeps between the state and a record of the steps holds when the loop
succeeds. -/
theorem foldlM_invariant_foldl {f : σ → τ → Except ε σ} (invariant : σ → γ → Prop)
    (record : γ → τ → γ) {l : List τ}
    (preserved : ∀ s recorded a next, a ∈ l → invariant s recorded → f s a = .ok next →
      invariant next (record recorded a))
    (recorded : γ) {s t : σ} (initial : invariant s recorded) (done : l.foldlM f s = .ok t) :
    invariant t (l.foldl record recorded) := by
  induction l generalizing s recorded with
  | nil =>
      cases done
      exact initial
  | cons a rest ih =>
      rw [List.foldlM_cons] at done
      obtain ⟨next, stepped, later⟩ := bind_eq_ok.mp done
      have kept := preserved s recorded a next List.mem_cons_self initial stepped
      refine ih ?_ (record recorded a) kept later
      intro s recorded a next member
      exact preserved s recorded a next (List.mem_cons_of_mem _ member)

/-- What every step keeps holds when the loop succeeds. -/
theorem foldlM_invariant {f : σ → τ → Except ε σ} (invariant : σ → Prop) {l : List τ}
    (preserved : ∀ s a next, a ∈ l → invariant s → f s a = .ok next → invariant next)
    {s t : σ} (initial : invariant s) (done : l.foldlM f s = .ok t) : invariant t :=
  foldlM_invariant_foldl (fun s (_ : Unit) => invariant s) (fun _ _ => ())
    (fun s _ => preserved s) () initial done

/-- A loop succeeds when every step does and keeps what makes the next succeed. -/
theorem foldlM_ok {f : σ → τ → Except ε σ} {invariant : σ → Prop} {l : List τ}
    (succeeds : ∀ s a, a ∈ l → invariant s → ∃ next, f s a = .ok next ∧ invariant next)
    {s : σ} (initial : invariant s) : ∃ t, l.foldlM f s = .ok t ∧ invariant t := by
  induction l generalizing s with
  | nil => exact ⟨s, rfl, initial⟩
  | cons a rest ih =>
      obtain ⟨next, stepped, kept⟩ := succeeds s a List.mem_cons_self initial
      obtain ⟨t, done, holds⟩ :=
        ih (fun s a member => succeeds s a (List.mem_cons_of_mem _ member)) kept
      exact ⟨t, by rw [List.foldlM_cons, stepped, ok_bind, done], holds⟩

end Outcome
