import VirtualAgent.InterfaceConfigurator
import VirtualAgent.Library.Transition

/-!
# Shaping a device again

A device can come to a rate and a delay in two ways: it is replaced with them at once, by
eight commands, or it is replaced with others and then changed, by five. The lists are
written by hand and must stay in step: what the first creates, the second has to refresh.

They do (`reshaping_eq_replacing`). What a replacement makes of a device that is not shaped
(`Device.shaped`) is, after any number of changes, what a replacement with the last
parameters makes of it: classes, netem qdiscs and filters alike. No command fails on the
way, and the other devices stay as they are.
-/

set_option autoImplicit false

namespace VirtualAgent

open ExactFloat CText Transition

/-! ## Commands that succeed -/

/-- The step of a run of commands, which a failing command ends. -/
def tcStep (k : Kernel) (command : TcCommand) : Option Kernel :=
  (command.action.perform (k command.dev)).map (Function.update k command.dev)

/-- The same for actions on a device. -/
def actionStep (device : Option Device) (action : TcAction) : Option (Option Device) :=
  action.perform device

/-- The agent goes on when a command fails; where none does, it leaves what the run
leaves. -/
theorem performAll_of_run {k after : Kernel} {commands : List TcCommand}
    (ran : run tcStep k commands = some after) : k.performAll commands = after := by
  induction commands generalizing k with
  | nil =>
      cases ran
      rfl
  | cons command rest ih =>
      obtain ⟨next, stepped, later⟩ := run_cons_eq_some.mp ran
      obtain ⟨device, performed, rfl⟩ := Option.map_eq_some_iff.mp stepped
      have here : k.perform command = Function.update k command.dev device := by
        rw [Kernel.perform, performed, Option.getD_some]
      rw [Kernel.performAll, List.foldl_cons, here]
      exact ih later

/-- **Commands for a device** are a run of their actions on it. -/
theorem run_tcStep (k : Kernel) (dev : CString) {actions : List TcAction} {final : Option Device}
    (ran : run actionStep (k dev) actions = some final) :
    run tcStep k (actions.map (TcCommand.mk dev)) = some (Function.update k dev final) := by
  induction actions generalizing k with
  | nil =>
      cases ran
      rw [Function.update_eq_self]
      rfl
  | cons action rest ih =>
      obtain ⟨next, performed, later⟩ := run_cons_eq_some.mp ran
      have stepped : tcStep k ⟨dev, action⟩ = some (Function.update k dev next) :=
        Option.map_eq_some_iff.mpr ⟨next, performed, rfl⟩
      have rest_ran := ih (Function.update k dev next) (by rwa [Function.update_self])
      rw [Function.update_idem] at rest_ran
      exact run_cons_eq_some.mpr ⟨_, stepped, rest_ran⟩

/-! ## The device -/

/-- What a replacement makes of a device that is not shaped. -/
def Device.shaped (rate delay : ℤ) (tdf : LongDouble) : Device where
  defaultClass := 10
  classes minor :=
    if minor = 10 ∨ minor = 20 ∨ minor = 30 then some ⟨adjustedRate rate tdf, rate, rate⟩ else none
  netems handle :=
    if handle = 10 then some ⟨10, adjustedDelay delay tdf⟩
    else if handle = 20 then some ⟨20, adjustedDelay delay tdf⟩ else none
  filters source :=
    if source = ascii "192.168.0.0/16" then some 20
    else if source = ascii "172.16.0.0/16" then some 30 else none

/-- Writing the three classes in order. -/
theorem update_classes (classes : ℕ → Option HtbClass) (c : HtbClass) :
    Function.update (Function.update (Function.update classes 10 (some c)) 20 (some c)) 30
        (some c) =
      fun minor => if minor = 10 ∨ minor = 20 ∨ minor = 30 then some c else classes minor := by
  funext minor
  simp only [Function.update_apply]
  grind

/-- Writing two entries in order. -/
theorem update_two {κ β : Type} [DecidableEq κ] (f : κ → β) {first second : κ}
    (apart : first ≠ second) (x y : β) :
    Function.update (Function.update f first x) second y =
      fun k => if k = first then x else if k = second then y else f k := by
  funext k
  simp only [Function.update_apply]
  grind

/-- **Replacing shapes a device that is not shaped.** -/
theorem run_replaceActions (rate delay : ℤ) (tdf : LongDouble) :
    run actionStep none (replaceActions rate delay tdf) =
      some (some (.shaped rate delay tdf)) := by
  have made : run actionStep none (replaceActions rate delay tdf) = some (some
      { defaultClass := 10
        classes := Function.update (Function.update (Function.update (fun _ => none)
          10 (some ⟨adjustedRate rate tdf, rate, rate⟩))
          20 (some ⟨adjustedRate rate tdf, rate, rate⟩))
          30 (some ⟨adjustedRate rate tdf, rate, rate⟩)
        netems := Function.update (Function.update (fun _ => none)
          10 (some ⟨10, adjustedDelay delay tdf⟩)) 20 (some ⟨20, adjustedDelay delay tdf⟩)
        filters := Function.update (Function.update (fun _ => none)
          (ascii "192.168.0.0/16") (some 20)) (ascii "172.16.0.0/16") (some 30) }) := rfl
  rw [made, update_classes, update_two _ (by decide), update_two _ (by decide)]
  rfl

/-- **Changing a shaped device refreshes all that depends on the parameters.** -/
theorem run_changeActions (rate delay rate' delay' : ℤ) (tdf tdf' : LongDouble) :
    run actionStep (some (.shaped rate delay tdf)) (changeActions rate' delay' tdf') =
      some (some (.shaped rate' delay' tdf')) := by
  have made : run actionStep (some (.shaped rate delay tdf)) (changeActions rate' delay' tdf') =
      some (some
        { Device.shaped rate delay tdf with
          classes := Function.update (Function.update (Function.update
            (Device.shaped rate delay tdf).classes
            10 (some ⟨adjustedRate rate' tdf', rate', rate'⟩))
            20 (some ⟨adjustedRate rate' tdf', rate', rate'⟩))
            30 (some ⟨adjustedRate rate' tdf', rate', rate'⟩)
          netems := Function.update (Function.update (Device.shaped rate delay tdf).netems
            10 (some ⟨10, adjustedDelay delay' tdf'⟩))
            20 (some ⟨20, adjustedDelay delay' tdf'⟩) }) := rfl
  have classes : (fun minor => if minor = 10 ∨ minor = 20 ∨ minor = 30 then
        some (⟨adjustedRate rate' tdf', rate', rate'⟩ : HtbClass)
      else (Device.shaped rate delay tdf).classes minor) =
      (Device.shaped rate' delay' tdf').classes := by
    funext minor
    by_cases known : minor = 10 ∨ minor = 20 ∨ minor = 30
    · simp only [Device.shaped, if_pos known]
    · simp only [Device.shaped, if_neg known]
  have netems : (fun handle => if handle = 10 then some (⟨10, adjustedDelay delay' tdf'⟩ : Netem)
      else if handle = 20 then some ⟨20, adjustedDelay delay' tdf'⟩
      else (Device.shaped rate delay tdf).netems handle) =
      (Device.shaped rate' delay' tdf').netems := by
    funext handle
    by_cases first : handle = 10
    · simp only [Device.shaped, if_pos first]
    · by_cases second : handle = 20
      · simp only [Device.shaped, if_neg first, if_pos second]
      · simp only [Device.shaped, if_neg first, if_neg second]
  rw [made, update_classes, update_two _ (by decide), classes, netems]
  rfl

/-! ## The kernel -/

/-- The parameters of a changing or replacing call. -/
structure Shaping where
  rate : ℤ
  delay : ℤ
  tdf : LongDouble

/-- What becomes of a shaped device under a sequence of changes. -/
theorem run_changes (changes : List Shaping) (rate delay : ℤ) (tdf : LongDouble) :
    ∃ last : Shaping,
      run actionStep (some (.shaped rate delay tdf))
          (changes.flatMap fun c => changeActions c.rate c.delay c.tdf) =
        some (some (.shaped last.rate last.delay last.tdf)) := by
  induction changes generalizing rate delay tdf with
  | nil => exact ⟨⟨rate, delay, tdf⟩, rfl⟩
  | cons c rest ih =>
      obtain ⟨last, later⟩ := ih c.rate c.delay c.tdf
      refine ⟨last, ?_⟩
      rw [List.flatMap_cons, run_append, run_changeActions, Option.bind_some, later]

/-- **Changing a link and rebuilding it give the same shaping.** On a device that is not
shaped, a replacement followed by any changes and a last one is a run in which no command
fails, and leaves exactly what a replacement with the parameters of the last change leaves;
the other devices are as they were. -/
theorem reshaping_eq_replacing (k : Kernel) {dev : CString} (unshaped : k dev = none)
    (first last : Shaping) (changes : List Shaping) :
    ∃ after,
      run tcStep k
          (replaceInterfaceAttribute dev first.rate first.delay first.tdf ++
            (changes.flatMap fun c => changeInterfaceAttribute dev c.rate c.delay c.tdf) ++
            changeInterfaceAttribute dev last.rate last.delay last.tdf) = some after ∧
        run tcStep k (replaceInterfaceAttribute dev last.rate last.delay last.tdf) = some after ∧
        k.performAll (replaceInterfaceAttribute dev first.rate first.delay first.tdf ++
            (changes.flatMap fun c => changeInterfaceAttribute dev c.rate c.delay c.tdf) ++
            changeInterfaceAttribute dev last.rate last.delay last.tdf) =
          k.performAll (replaceInterfaceAttribute dev last.rate last.delay last.tdf) ∧
        ∀ other ≠ dev, after other = k other := by
  obtain ⟨between, changed⟩ := run_changes changes first.rate first.delay first.tdf
  have actions : run actionStep (k dev)
      (replaceActions first.rate first.delay first.tdf ++
        (changes.flatMap fun c => changeActions c.rate c.delay c.tdf) ++
        changeActions last.rate last.delay last.tdf) =
      some (some (.shaped last.rate last.delay last.tdf)) := by
    rw [unshaped, run_append, run_append, run_replaceActions, Option.bind_some, changed,
      Option.bind_some, run_changeActions]
  have replaced : run actionStep (k dev) (replaceActions last.rate last.delay last.tdf) =
      some (some (.shaped last.rate last.delay last.tdf)) := by
    rw [unshaped, run_replaceActions]
  have history := run_tcStep k dev actions
  rw [List.map_append, List.map_append, List.map_flatMap] at history
  have rebuilt := run_tcStep k dev replaced
  refine ⟨_, history, rebuilt, ?_, ?_⟩
  · exact (performAll_of_run history).trans (performAll_of_run rebuilt).symm
  · intro other apart
    exact Function.update_of_ne apart _ _

/-- A link is set up, changed twice, and changed once more under another factor. -/
theorem reshaping_eq_replacing_eth0 :
    ∃ after,
      run tcStep (fun _ => none)
          (replaceInterfaceAttribute (ascii "eth0") 1000 5 1 ++
            ([⟨2000, 5, 1⟩, ⟨2000, 0, 1⟩].flatMap fun c : Shaping =>
              changeInterfaceAttribute (ascii "eth0") c.rate c.delay c.tdf) ++
            changeInterfaceAttribute (ascii "eth0") 3000 7 (.ofInt 2)) = some after ∧
        run tcStep (fun _ => none)
          (replaceInterfaceAttribute (ascii "eth0") 3000 7 (.ofInt 2)) = some after ∧
        Kernel.performAll (fun _ => none)
            (replaceInterfaceAttribute (ascii "eth0") 1000 5 1 ++
              ([⟨2000, 5, 1⟩, ⟨2000, 0, 1⟩].flatMap fun c : Shaping =>
                changeInterfaceAttribute (ascii "eth0") c.rate c.delay c.tdf) ++
              changeInterfaceAttribute (ascii "eth0") 3000 7 (.ofInt 2)) =
          Kernel.performAll (fun _ => none)
            (replaceInterfaceAttribute (ascii "eth0") 3000 7 (.ofInt 2)) ∧
        ∀ other ≠ ascii "eth0", after other = none :=
  reshaping_eq_replacing (fun _ => none) rfl ⟨1000, 5, 1⟩ ⟨3000, 7, .ofInt 2⟩
    [⟨2000, 5, 1⟩, ⟨2000, 0, 1⟩]

end VirtualAgent
