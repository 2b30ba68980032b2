import VirtualAgent.Library.ExactFloat

/-!
# The configuration

The settings of `Configuration.cpp` that messages assign and the agent's
threads read. The addresses and ports, the target delay of the simulators and
the declaration without a definition are left out: no message assigns them.
-/

set_option autoImplicit false

namespace VirtualAgent

open ExactFloat

/-- The static members of `Configuration`, with their initial values. A literal
with a fraction is a number of the 64-bit format. -/
structure Configuration where
  changeSlope : LongDouble := .ofInt 3
  nonlinearFactor : LongDouble := .ofInt 4
  alpha : LongDouble := .binary64 false 1 8
  targetLoad : LongDouble := .binary64 false 1 2
  packetHandlePeriod : ℕ := 10000
  tdfMin : LongDouble := .ofInt 1
  tdfMax : LongDouble := .ofInt 20
  tdfChangeThreshold : LongDouble := .binary64 false 1 10
  isVMSuspensionsEnabled : Bool := true
  isLoadMonitored : Bool := true
  monitorMode : ℤ := 0
  tdfSimGain : LongDouble := .binary64 false 1 20
  deriving DecidableEq

/-- An assignment to a member. -/
inductive Setting where
  | changeSlope (value : LongDouble)
  | nonlinearFactor (value : LongDouble)
  | alpha (value : LongDouble)
  | targetLoad (value : LongDouble)
  | packetHandlePeriod (value : ℤ)
  | tdfMin (value : LongDouble)
  | tdfMax (value : LongDouble)
  | tdfChangeThreshold (value : LongDouble)
  | isVMSuspensionsEnabled (value : Bool)
  | isLoadMonitored (value : Bool)
  | monitorMode (value : ℤ)
  | tdfSimGain (value : LongDouble)
  deriving DecidableEq

/-- Perform an assignment. The period is an `unsigned int`. -/
def Configuration.assign (c : Configuration) : Setting → Configuration
  | .changeSlope value => { c with changeSlope := value }
  | .nonlinearFactor value => { c with nonlinearFactor := value }
  | .alpha value => { c with alpha := value }
  | .targetLoad value => { c with targetLoad := value }
  | .packetHandlePeriod value => { c with packetHandlePeriod := (value % 2 ^ 32).toNat }
  | .tdfMin value => { c with tdfMin := value }
  | .tdfMax value => { c with tdfMax := value }
  | .tdfChangeThreshold value => { c with tdfChangeThreshold := value }
  | .isVMSuspensionsEnabled value => { c with isVMSuspensionsEnabled := value }
  | .isLoadMonitored value => { c with isLoadMonitored := value }
  | .monitorMode value => { c with monitorMode := value }
  | .tdfSimGain value => { c with tdfSimGain := value }

end VirtualAgent
