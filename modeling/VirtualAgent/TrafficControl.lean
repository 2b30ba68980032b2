import VirtualAgent.Library.CText
import Mathlib.Logic.Function.Basic

/-!
# Traffic control of the kernel

The `tc` commands the agent issues, and what they do to the queueing state of a
device: an htb root with its classes, the netem qdiscs under them, and the
filters. A replacing command creates or overwrites, a changing one overwrites
what exists, and deleting the root removes all of the device. A command that
needs what does not exist fails, and nothing changes.

A command touches its own device only, so a list of commands for one device is
followed on that device alone (`performAll_same`, `performAll_other`).
-/

set_option autoImplicit false

namespace VirtualAgent

open CText

/-! ## Commands -/

/-- What a command asks of its device. Classes and the flows of filters are under
`1:`, by their minor numbers; netem qdiscs have handles. -/
inductive TcAction where
  /-- `qdisc replace … handle 1: root htb default 10` -/
  | replaceRoot
  /-- `class replace … parent 1: classid 1:minor htb` -/
  | replaceClass (minor : ℕ) (rate burst cburst : ℤ)
  /-- `qdisc replace … parent 1:parent handle handle: netem` -/
  | replaceNetem (parent handle : ℕ) (delay : ℤ)
  /-- `filter replace … parent 1: protocol ip prio 1 u32 match ip src` -/
  | replaceFilter (source : CString) (flowid : ℕ)
  /-- `class change … classid 1:minor htb` -/
  | changeClass (minor : ℕ) (rate burst cburst : ℤ)
  /-- `qdisc change … handle handle: netem` -/
  | changeNetem (handle : ℕ) (delay : ℤ)
  /-- `qdisc del … root` -/
  | deleteRoot
  deriving DecidableEq

/-- A command for a device. -/
structure TcCommand where
  dev : CString
  action : TcAction
  deriving DecidableEq

/-! ## The queueing state -/

structure HtbClass where
  rate : ℤ
  burst : ℤ
  cburst : ℤ
  deriving DecidableEq

structure Netem where
  parent : ℕ
  delay : ℤ
  deriving DecidableEq

/-- The queueing state of a shaped device. -/
structure Device where
  defaultClass : ℕ
  classes : ℕ → Option HtbClass
  netems : ℕ → Option Netem
  filters : CString → Option ℕ

/-- The devices; one that is not there is not shaped. -/
abbrev Kernel := CString → Option Device

/-- The action on a shaped device, unless it fails. -/
def Device.perform (d : Device) : TcAction → Option (Option Device)
  | .replaceRoot => some (some { d with defaultClass := 10 })
  | .replaceClass minor rate burst cburst =>
      some (some { d with classes := Function.update d.classes minor (some ⟨rate, burst, cburst⟩) })
  | .replaceNetem parent handle delay =>
      some (some { d with netems := Function.update d.netems handle (some ⟨parent, delay⟩) })
  | .replaceFilter source flowid =>
      some (some { d with filters := Function.update d.filters source (some flowid) })
  | .changeClass minor rate burst cburst =>
      (d.classes minor).map fun _ =>
        some { d with classes := Function.update d.classes minor (some ⟨rate, burst, cburst⟩) }
  | .changeNetem handle delay =>
      (d.netems handle).map fun netem =>
        some { d with netems := Function.update d.netems handle (some { netem with delay }) }
  | .deleteRoot => some none

/-- The action on a device, unless it fails: what is not shaped can get a root. -/
def TcAction.perform (action : TcAction) : Option Device → Option (Option Device)
  | some d => d.perform action
  | none =>
      match action with
      | .replaceRoot => some (some ⟨10, fun _ => none, fun _ => none, fun _ => none⟩)
      | _ => none

/-- Perform a command. The agent goes on when it fails. -/
def Kernel.perform (k : Kernel) (command : TcCommand) : Kernel :=
  Function.update k command.dev
    ((command.action.perform (k command.dev)).getD (k command.dev))

/-- Perform commands in order. -/
def Kernel.performAll (k : Kernel) (commands : List TcCommand) : Kernel :=
  commands.foldl Kernel.perform k

/-- The actions in order on one device. -/
def performActions (device : Option Device) (actions : List TcAction) : Option Device :=
  actions.foldl (fun device action => (action.perform device).getD device) device

theorem performAll_append (k : Kernel) (first second : List TcCommand) :
    k.performAll (first ++ second) = (k.performAll first).performAll second :=
  List.foldl_append

/-- **Commands for a device** do to it what their actions do. -/
theorem performAll_same (k : Kernel) (dev : CString) (actions : List TcAction) :
    k.performAll (actions.map (TcCommand.mk dev)) dev = performActions (k dev) actions := by
  induction actions generalizing k with
  | nil => rfl
  | cons action rest ih =>
      have moved := ih (k.perform ⟨dev, action⟩)
      simpa [Kernel.performAll, Kernel.perform, performActions] using moved

/-- **Commands for one device** leave every other as it is. -/
theorem performAll_other (k : Kernel) {dev other : CString} (different : other ≠ dev)
    (actions : List TcAction) : k.performAll (actions.map (TcCommand.mk dev)) other = k other := by
  induction actions generalizing k with
  | nil => rfl
  | cons action rest ih =>
      have moved := ih (k.perform ⟨dev, action⟩)
      simpa [Kernel.performAll, Kernel.perform, different] using moved

end VirtualAgent
