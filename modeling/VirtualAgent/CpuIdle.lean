import VirtualAgent.DelayAverage
import Mathlib.Analysis.Convex.Basic

/-!
# The idle ratio of the processors

`CpuMonitor::getMinXCpuIdleRatio` compares the counters of every processor with those of the
call before and takes the least ratio of the idle time. A counter of zero is replaced by
one, in the members as well as in the new sample. The quotient of two zero differences
is no number, and then the ratio is that of the counters themselves. The arithmetic is
that of the processor, in `double`.

The replacement moves an idle counter by one at most, and only one that is zero, so the
idle difference still does not exceed the total one (`counter_diff_le`), and rounding keeps
the order. With the loop over the processors read as the least of their ratios
(`getMinXCpuIdleRatio_spec`), this is `idle_ratio_stays_ratio`: over every run the result
of the function and the average of the results are ratios, and nothing but zero is divided
by zero, as long as a `double` holds the counters. From `2 ^ 53` on it does not hold all,
and two totals that differ may become one (`infinite_ratio_of_long_uptime`).
-/

set_option autoImplicit false

namespace VirtualAgent

open ExactFloat
open ExactFloat.LongDouble (HasValue hasValue_ofInt hasValue_one hasValue_toRat hasValue_ofRat)

/-! ## The samples -/

/-- The counters of the processors in `glibtop_cpu`, at the indices the loops go through. -/
structure GlibtopCpu (ncpu : ℕ) where
  xcpuTotal : Fin (ncpu + 1) → ℕ
  xcpuIdle : Fin (ncpu + 1) → ℕ

/-- A counter as the monitor takes it. -/
def counter (n : ℕ) : LongDouble := if n ≠ 0 then Format.double.round (.ofInt n) else 1

/-- The members `xcpu_total_` and `xcpu_idle_` of `CpuMonitor`. -/
structure XCpu (ncpu : ℕ) where
  xcpuTotal : Fin (ncpu + 1) → LongDouble
  xcpuIdle : Fin (ncpu + 1) → LongDouble

namespace XCpu

variable {ncpu : ℕ}

/-- `CpuMonitor::CpuMonitor`. -/
def new (cpu : GlibtopCpu ncpu) : XCpu ncpu where
  xcpuTotal i := counter (cpu.xcpuTotal i)
  xcpuIdle i := counter (cpu.xcpuIdle i)

def diffXCpuTotal (x : XCpu ncpu) (cpu : GlibtopCpu ncpu) (i : Fin (ncpu + 1)) : LongDouble :=
  Format.double.round (counter (cpu.xcpuTotal i) - x.xcpuTotal i)

def diffXCpuIdle (x : XCpu ncpu) (cpu : GlibtopCpu ncpu) (i : Fin (ncpu + 1)) : LongDouble :=
  Format.double.round (counter (cpu.xcpuIdle i) - x.xcpuIdle i)

/-- The idle ratio of a processor. -/
def xcpuIdleRatio (x : XCpu ncpu) (cpu : GlibtopCpu ncpu) (i : Fin (ncpu + 1)) : LongDouble :=
  let xcpuIdleRatio := Format.double.round (x.diffXCpuIdle cpu i / x.diffXCpuTotal cpu i)
  if xcpuIdleRatio = .nan then
    Format.double.round (counter (cpu.xcpuIdle i) / counter (cpu.xcpuTotal i))
  else xcpuIdleRatio

/-- The members with the new counters of a processor. -/
def store (x : XCpu ncpu) (cpu : GlibtopCpu ncpu) (i : Fin (ncpu + 1)) : XCpu ncpu where
  xcpuTotal := Function.update x.xcpuTotal i (counter (cpu.xcpuTotal i))
  xcpuIdle := Function.update x.xcpuIdle i (counter (cpu.xcpuIdle i))

/-- The body of the loop, on the members and the least ratio so far. -/
def step (cpu : GlibtopCpu ncpu) (s : XCpu ncpu × LongDouble) (i : Fin (ncpu + 1)) :
    XCpu ncpu × LongDouble :=
  let xcpuIdleRatio := s.1.xcpuIdleRatio cpu i
  (s.1.store cpu i,
    if i = 0 then xcpuIdleRatio
    else if xcpuIdleRatio < s.2 then xcpuIdleRatio else s.2)

/-- `CpuMonitor::getMinXCpuIdleRatio`, with the members it leaves. -/
def getMinXCpuIdleRatio (x : XCpu ncpu) (cpu : GlibtopCpu ncpu) : XCpu ncpu × LongDouble :=
  (List.finRange (ncpu + 1)).foldl (step cpu) (x, 1)

end XCpu

/-! ## The loop over the processors -/

section Loop

variable {ncpu : ℕ} {cpu : GlibtopCpu ncpu}

/-- The two agree on a processor. -/
def XCpu.Agree (x y : XCpu ncpu) (i : Fin (ncpu + 1)) : Prop :=
  x.xcpuTotal i = y.xcpuTotal i ∧ x.xcpuIdle i = y.xcpuIdle i

theorem XCpu.Agree.xcpuIdleRatio_eq {x y : XCpu ncpu} {i : Fin (ncpu + 1)} (agree : x.Agree y i) :
    x.xcpuIdleRatio cpu i = y.xcpuIdleRatio cpu i := by
  unfold xcpuIdleRatio diffXCpuIdle diffXCpuTotal
  rw [agree.1, agree.2]

theorem XCpu.agree_store_new (x : XCpu ncpu) (cpu : GlibtopCpu ncpu) (i : Fin (ncpu + 1)) :
    (x.store cpu i).Agree (new cpu) i :=
  ⟨Function.update_self .., Function.update_self ..⟩

theorem XCpu.agree_store (x : XCpu ncpu) (cpu : GlibtopCpu ncpu) {i j : Fin (ncpu + 1)}
    (other : j ≠ i) :
    (x.store cpu i).Agree x j :=
  ⟨Function.update_of_ne other .., Function.update_of_ne other ..⟩

/-- The processors the loop has been through have their new counters. -/
theorem XCpu.foldl_step_agree {indices : List (Fin (ncpu + 1))} {s : XCpu ncpu × LongDouble}
    {j : Fin (ncpu + 1)} (done : j ∈ indices ∨ s.1.Agree (new cpu) j) :
    (indices.foldl (step cpu) s).1.Agree (new cpu) j := by
  induction indices generalizing s with
  | nil => exact done.resolve_left List.not_mem_nil
  | cons i rest ih =>
      apply ih
      by_cases here : j = i
      · subst here
        exact Or.inr (agree_store_new s.1 cpu j)
      · rcases done with member | agree
        · exact Or.inl ((List.mem_cons.mp member).resolve_left here)
        · have kept := agree_store s.1 cpu here
          exact Or.inr ⟨kept.1.trans agree.1, kept.2.trans agree.2⟩

/-- **The loop takes the least ratio.** From the second processor on it compares the ratios
with the least one so far, each computed from the members before the loop. -/
theorem XCpu.foldl_step_least {x : XCpu ncpu} {ratios : Fin (ncpu + 1) → ℚ}
    {indices : List (Fin (ncpu + 1))} {s : XCpu ncpu × LongDouble} {least : ℚ}
    (later : 0 ∉ indices) (distinct : indices.Nodup)
    (untouched : ∀ i ∈ indices, s.1.Agree x i)
    (atRatios : ∀ i ∈ indices, (x.xcpuIdleRatio cpu i).HasValue (ratios i))
    (atLeast : s.2.HasValue least) :
    ∃ value, (indices.foldl (step cpu) s).2.HasValue value ∧
      (value = least ∨ ∃ i ∈ indices, value = ratios i) ∧ value ≤ least ∧
      ∀ i ∈ indices, value ≤ ratios i := by
  induction indices generalizing s least with
  | nil =>
      refine ⟨least, atLeast, Or.inl rfl, le_rfl, ?_⟩
      intro i member
      cases member
  | cons i rest ih =>
      obtain ⟨notFirst, laterRest⟩ := List.ne_and_not_mem_of_not_mem_cons later
      obtain ⟨notAgain, distinctRest⟩ := List.nodup_cons.mp distinct
      have atRatio := atRatios i List.mem_cons_self
      rw [← (untouched i List.mem_cons_self).xcpuIdleRatio_eq] at atRatio
      have atNext : (step cpu s i).2.HasValue (min (ratios i) least) := by
        rw [step, if_neg notFirst.symm]
        by_cases less : ratios i < least
        · rwa [if_pos ((atRatio.lt_iff atLeast).mpr less), min_eq_left less.le]
        · rwa [if_neg (mt (atRatio.lt_iff atLeast).mp less), min_eq_right (not_lt.mp less)]
      have untouchedRest : ∀ j ∈ rest, (step cpu s i).1.Agree x j := by
        intro j member
        have kept := agree_store s.1 cpu (ne_of_mem_of_not_mem member notAgain)
        have before := untouched j (List.mem_cons_of_mem i member)
        exact ⟨kept.1.trans before.1, kept.2.trans before.2⟩
      obtain ⟨value, atValue, found, below, others⟩ := ih laterRest distinctRest untouchedRest
        (fun j member => atRatios j (List.mem_cons_of_mem i member)) atNext
      refine ⟨value, atValue, ?_, below.trans (min_le_right _ _), ?_⟩
      · rcases found with rfl | ⟨j, member, found⟩
        · rcases min_choice (ratios i) least with same | same
          · exact Or.inr ⟨i, List.mem_cons_self, same⟩
          · exact Or.inl same
        · exact Or.inr ⟨j, List.mem_cons_of_mem i member, found⟩
      · exact List.forall_mem_cons.mpr ⟨below.trans (min_le_left _ _), others⟩

/-- **What a call leaves and returns**: the new counters, and the least of the ratios. -/
theorem XCpu.getMinXCpuIdleRatio_spec {x : XCpu ncpu} {ratios : Fin (ncpu + 1) → ℚ}
    (atRatios : ∀ i, (x.xcpuIdleRatio cpu i).HasValue (ratios i)) :
    (x.getMinXCpuIdleRatio cpu).1 = new cpu ∧
      ∃ least, (x.getMinXCpuIdleRatio cpu).2.HasValue least ∧
        IsLeast (Set.range ratios) least := by
  have agree : ∀ j, (x.getMinXCpuIdleRatio cpu).1.Agree (new cpu) j :=
    fun j => foldl_step_agree (Or.inl (List.mem_finRange j))
  refine ⟨?_, ?_⟩
  · have totals := funext fun j => (agree j).1
    have idles := funext fun j => (agree j).2
    cases same : (x.getMinXCpuIdleRatio cpu).1
    rw [same] at totals idles
    cases totals
    cases idles
    rfl
  · have distinct := List.nodup_finRange (ncpu + 1)
    have later : (0 : Fin (ncpu + 1)) ∉ (List.finRange ncpu).map Fin.succ := by
      simp [Fin.succ_ne_zero]
    rw [List.finRange_succ] at distinct
    obtain ⟨value, atValue, found, below, others⟩ := foldl_step_least (s := step cpu (x, 1) 0)
      later (List.nodup_cons.mp distinct).2
      (fun i member => agree_store x cpu (ne_of_mem_of_not_mem member later))
      (fun i _ => atRatios i) (atRatios 0)
    rw [getMinXCpuIdleRatio, List.finRange_succ]
    refine ⟨value, atValue, ?_, ?_⟩
    · rcases found with rfl | ⟨i, -, rfl⟩
      · exact ⟨0, rfl⟩
      · exact ⟨i, rfl⟩
    · rintro _ ⟨i, rfl⟩
      cases i using Fin.cases with
      | zero => exact below
      | succ i => exact others i.succ (List.mem_map_of_mem (List.mem_finRange i))

end Loop

/-! ## The counters -/

/-- A processor's counters: it was not idle for longer than it ran. -/
def GlibtopCpu.Valid {ncpu : ℕ} (cpu : GlibtopCpu ncpu) : Prop :=
  ∀ i, cpu.xcpuIdle i ≤ cpu.xcpuTotal i

/-- From one sample to the next the counters do not fall, and the idle one does not grow by
more than the total one. -/
structure GlibtopCpu.Advances {ncpu : ℕ} (before cpu : GlibtopCpu ncpu) : Prop where
  total : ∀ i, before.xcpuTotal i ≤ cpu.xcpuTotal i
  idle : ∀ i, before.xcpuIdle i ≤ cpu.xcpuIdle i
  growth : ∀ i, cpu.xcpuIdle i - before.xcpuIdle i ≤ cpu.xcpuTotal i - before.xcpuTotal i

/-- A `double` holds the counters as they are. -/
def GlibtopCpu.Held {ncpu : ℕ} (cpu : GlibtopCpu ncpu) : Prop :=
  ∀ i, (cpu.xcpuTotal i : ℚ) ∈ Format.double.numbers ∧ (cpu.xcpuIdle i : ℚ) ∈ Format.double.numbers

theorem one_mem_numbers : (1 : ℚ) ∈ Format.double.numbers := by
  exact_mod_cast Format.double.intCast_mem_numbers (n := 1) (by decide) (by decide)

theorem max_mem_numbers {n : ℕ} (held : (n : ℚ) ∈ Format.double.numbers) :
    ((max n 1 : ℕ) : ℚ) ∈ Format.double.numbers := by
  rcases max_choice n 1 with same | same
  · rwa [same]
  · rw [same, Nat.cast_one]
    exact one_mem_numbers

theorem hasValue_counter {n : ℕ} (held : (n : ℚ) ∈ Format.double.numbers) :
    (counter n).HasValue (max n 1 : ℕ) := by
  unfold counter
  split
  case isTrue nonzero =>
    rw [max_eq_left (Nat.one_le_iff_ne_zero.mpr nonzero)]
    exact Format.double.hasValue_round_of_mem (hasValue_ofInt n) held
  case isFalse zero =>
    rw [not_ne_iff.mp zero, Nat.zero_max, Nat.cast_one]
    exact hasValue_one

theorem counter_pos (n : ℕ) : (0 : ℚ) < (max n 1 : ℕ) := by
  have positive : 0 < max n 1 := lt_max_of_lt_right one_pos
  exact_mod_cast positive

/-- **Replacing zeros by ones does not make the idle difference exceed the total one.** -/
theorem counter_diff_le {idle total idle' total' : ℕ} (valid : idle ≤ total)
    (valid' : idle' ≤ total') (fell : total ≤ total') (growth : idle' - idle ≤ total' - total) :
    max idle' 1 - max idle 1 ≤ max total' 1 - max total 1 := by
  rcases Nat.eq_zero_or_pos idle with zero | positive
  · -- the idle difference is one less than without the replacement, or zero already
    rcases Nat.eq_zero_or_pos total with zero' | positive'
    · omega
    · omega
  · omega

/-- A quotient as `double` computes it. -/
def quotientOf (n d : ℚ) : ℚ := Format.double.rounded (n / d)

/-- The ratio of two differences of counters, and that of the counters where the first
has nothing to divide by. -/
def ratioOf (idle total idle' total' : ℕ) : ℚ :=
  if total' = total then quotientOf idle' total'
  else quotientOf (Format.double.rounded (idle' - idle : ℕ))
    (Format.double.rounded (total' - total : ℕ))

/-- **The quotient by a number that is not smaller is a ratio.** -/
theorem quotientOf_spec {x y : LongDouble} {n d : ℚ} (left : x.HasValue n) (right : y.HasValue d)
    (nonneg : 0 ≤ n) (le : n ≤ d) (positive : 0 < d) :
    (Format.double.round (x / y)).HasValue (quotientOf n d) ∧ quotientOf n d ∈ Set.Icc 0 1 :=
  Format.double.hasValue_round_of_mem_Icc (left.div right positive.ne') one_mem_numbers
    ⟨div_nonneg nonneg positive.le, (div_le_one positive).mpr le⟩

section Sample

variable {ncpu : ℕ} {before cpu : GlibtopCpu ncpu}

/-- The ratio of a processor between two samples. -/
def GlibtopCpu.ratio (before cpu : GlibtopCpu ncpu) (i : Fin (ncpu + 1)) : ℚ :=
  ratioOf (max (before.xcpuIdle i) 1) (max (before.xcpuTotal i) 1) (max (cpu.xcpuIdle i) 1)
    (max (cpu.xcpuTotal i) 1)

/-- What the monitor relies on from one sample to the next. -/
structure GlibtopCpu.Follows (before cpu : GlibtopCpu ncpu) : Prop where
  validBefore : before.Valid
  valid : cpu.Valid
  advances : before.Advances cpu
  heldBefore : before.Held
  held : cpu.Held

/-- The difference of two counters as `double` computes it. -/
theorem hasValue_counter_sub {n n' : ℕ} (le : n ≤ n') (held : (n : ℚ) ∈ Format.double.numbers)
    (held' : (n' : ℚ) ∈ Format.double.numbers) :
    (Format.double.round (counter n' - counter n)).HasValue
      (Format.double.rounded (max n' 1 - max n 1 : ℕ)) := by
  have difference := (hasValue_counter held').sub (hasValue_counter held)
  rw [← Nat.cast_sub (max_le_max_right 1 le)] at difference
  refine (Format.double.hasValue_round_of_mem_Icc difference (max_mem_numbers held')
    ⟨Nat.cast_nonneg _, ?_⟩).1
  exact_mod_cast Nat.sub_le _ _

/-- The differences that a call divides, as numbers. -/
theorem hasValue_diff (follows : before.Follows cpu) (i : Fin (ncpu + 1)) :
    ((XCpu.new before).diffXCpuTotal cpu i).HasValue
        (Format.double.rounded (max (cpu.xcpuTotal i) 1 - max (before.xcpuTotal i) 1 : ℕ)) ∧
      ((XCpu.new before).diffXCpuIdle cpu i).HasValue
        (Format.double.rounded (max (cpu.xcpuIdle i) 1 - max (before.xcpuIdle i) 1 : ℕ)) :=
  ⟨hasValue_counter_sub (follows.advances.total i) (follows.heldBefore i).1 (follows.held i).1,
    hasValue_counter_sub (follows.advances.idle i) (follows.heldBefore i).2 (follows.held i).2⟩

/-- The rounded differences are in order, and the total one vanishes with the counters'. -/
theorem rounded_diff_spec (follows : before.Follows cpu) (i : Fin (ncpu + 1)) :
    Format.double.rounded (max (cpu.xcpuIdle i) 1 - max (before.xcpuIdle i) 1 : ℕ) ≤
        Format.double.rounded (max (cpu.xcpuTotal i) 1 - max (before.xcpuTotal i) 1 : ℕ) ∧
      (Format.double.rounded (max (cpu.xcpuTotal i) 1 - max (before.xcpuTotal i) 1 : ℕ) = 0 ↔
        max (cpu.xcpuTotal i) 1 = max (before.xcpuTotal i) 1) := by
  have growth := counter_diff_le (follows.validBefore i) (follows.valid i)
    (follows.advances.total i) (follows.advances.growth i)
  refine ⟨Format.rounded_mono (by exact_mod_cast growth), ?_⟩
  rw [Nat.cast_sub (max_le_max_right 1 (follows.advances.total i)),
    Format.double.rounded_sub_eq_zero_iff (max_mem_numbers (follows.held i).1).1
      (max_mem_numbers (follows.heldBefore i).1).1, Nat.cast_inj]

/-- **Zero is divided by zero only, and then the counters divide.** -/
theorem zero_diff (follows : before.Follows cpu) {i : Fin (ncpu + 1)}
    (zero : ((XCpu.new before).diffXCpuTotal cpu i).isZero = true) :
    ((XCpu.new before).diffXCpuIdle cpu i).isZero = true ∧
      Format.double.round
        ((XCpu.new before).diffXCpuIdle cpu i / (XCpu.new before).diffXCpuTotal cpu i) = .nan ∧
      (counter (cpu.xcpuTotal i)).isZero = false := by
  obtain ⟨total, idle⟩ := hasValue_diff follows i
  have total_eq := total.isZero_iff.mp zero
  have idle_eq := le_antisymm ((rounded_diff_spec follows i).1.trans total_eq.le)
    (Format.rounded_nonneg (Nat.cast_nonneg _))
  refine ⟨idle.isZero_iff.mpr idle_eq, ?_, ?_⟩
  · rw [total_eq] at total
    rw [idle_eq] at idle
    rw [idle.zero_div_zero total, Format.round]
  · rw [Bool.eq_false_iff, ne_eq, (hasValue_counter (follows.held i).1).isZero_iff]
    exact (counter_pos (cpu.xcpuTotal i)).ne'

/-- **The ratio of a processor is one.** -/
theorem xcpuIdleRatio_spec (follows : before.Follows cpu) (i : Fin (ncpu + 1)) :
    ((XCpu.new before).xcpuIdleRatio cpu i).HasValue (before.ratio cpu i) ∧
      before.ratio cpu i ∈ Set.Icc 0 1 := by
  obtain ⟨total, idle⟩ := hasValue_diff follows i
  obtain ⟨le, zero_iff⟩ := rounded_diff_spec follows i
  unfold XCpu.xcpuIdleRatio GlibtopCpu.ratio ratioOf
  split
  case isTrue same =>
    have zero := total.isZero_iff.mpr (zero_iff.mpr same)
    rw [if_pos (zero_diff follows zero).2.1]
    refine quotientOf_spec (hasValue_counter (follows.held i).2)
      (hasValue_counter (follows.held i).1) (Nat.cast_nonneg _) ?_ (counter_pos _)
    exact_mod_cast max_le_max_right 1 (follows.valid i)
  case isFalse apart =>
    have nonneg := Format.rounded_nonneg (f := Format.double)
      (Nat.cast_nonneg (α := ℚ) (max (cpu.xcpuTotal i) 1 - max (before.xcpuTotal i) 1))
    have positive := lt_of_le_of_ne nonneg (Ne.symm (mt zero_iff.mp apart))
    obtain ⟨quotient, inside⟩ := quotientOf_spec idle total
      (Format.rounded_nonneg (Nat.cast_nonneg _)) le positive
    rw [if_neg quotient.ne_nan]
    exact ⟨quotient, inside⟩

end Sample

/-! ## Runs -/

section Run

variable {ncpu : ℕ} {snapshots : ℕ → GlibtopCpu ncpu}

/-- The members after the first calls. The first sample is the constructor's. -/
def XCpu.after (snapshots : ℕ → GlibtopCpu ncpu) : ℕ → XCpu ncpu
  | 0 => .new (snapshots 0)
  | n + 1 => ((XCpu.after snapshots n).getMinXCpuIdleRatio (snapshots (n + 1))).1

/-- The result of a call. -/
def minXCpuIdleRatio (snapshots : ℕ → GlibtopCpu ncpu) (n : ℕ) : LongDouble :=
  ((XCpu.after snapshots n).getMinXCpuIdleRatio (snapshots (n + 1))).2

/-- What the monitor relies on for the samples. -/
structure Samples (snapshots : ℕ → GlibtopCpu ncpu) : Prop where
  valid : ∀ n, (snapshots n).Valid
  advances : ∀ n, (snapshots n).Advances (snapshots (n + 1))

theorem Samples.follows (samples : Samples snapshots) {n : ℕ}
    (held : ∀ k ≤ n, (snapshots k).Held) {k : ℕ} (before : k < n) :
    (snapshots k).Follows (snapshots (k + 1)) :=
  ⟨samples.valid k, samples.valid (k + 1), samples.advances k, held k before.le,
    held (k + 1) before⟩

/-- The members hold the counters of the call before. -/
theorem XCpu.after_eq (samples : Samples snapshots) {n : ℕ}
    (held : ∀ k ≤ n, (snapshots k).Held) : XCpu.after snapshots n = .new (snapshots n) := by
  induction n with
  | zero => rfl
  | succ n ih =>
      have follows := samples.follows held (Nat.lt_succ_self n)
      rw [XCpu.after, ih fun k le => held k (le.trans (Nat.le_succ n))]
      exact (XCpu.getMinXCpuIdleRatio_spec fun i => (xcpuIdleRatio_spec follows i).1).1

/-- **Every result is the least of the ratios of the processors.** -/
theorem minXCpuIdleRatio_spec (samples : Samples snapshots) {n : ℕ}
    (held : ∀ k ≤ n + 1, (snapshots k).Held) :
    ∃ least, (minXCpuIdleRatio snapshots n).HasValue least ∧
      IsLeast (Set.range ((snapshots n).ratio (snapshots (n + 1)))) least := by
  have follows := samples.follows held (Nat.lt_succ_self n)
  rw [minXCpuIdleRatio, XCpu.after_eq samples fun k le => held k (le.trans (Nat.le_succ n))]
  exact (XCpu.getMinXCpuIdleRatio_spec fun i => (xcpuIdleRatio_spec follows i).1).2

/-- A call computes ratios, of which it returns the least, and divides nothing but zero by
zero. -/
structure TakesRatios (snapshots : ℕ → GlibtopCpu ncpu) (n : ℕ) : Prop where
  least : ∃ ratios : Fin (ncpu + 1) → ℚ,
    (∀ i, ((XCpu.after snapshots n).xcpuIdleRatio (snapshots (n + 1)) i).HasValue (ratios i) ∧
      ratios i ∈ Set.Icc 0 1) ∧
    ∃ value, (minXCpuIdleRatio snapshots n).HasValue value ∧ IsLeast (Set.range ratios) value
  divides : ∀ i, ((XCpu.after snapshots n).diffXCpuTotal (snapshots (n + 1)) i).isZero = true →
    ((XCpu.after snapshots n).diffXCpuIdle (snapshots (n + 1)) i).isZero = true ∧
      Format.double.round ((XCpu.after snapshots n).diffXCpuIdle (snapshots (n + 1)) i /
        (XCpu.after snapshots n).diffXCpuTotal (snapshots (n + 1)) i) = .nan ∧
      (counter ((snapshots (n + 1)).xcpuTotal i)).isZero = false

theorem takesRatios (samples : Samples snapshots) {n : ℕ}
    (held : ∀ k ≤ n + 1, (snapshots k).Held) : TakesRatios snapshots n := by
  have follows := samples.follows held (Nat.lt_succ_self n)
  have after_eq := XCpu.after_eq samples fun k le => held k (le.trans (Nat.le_succ n))
  refine ⟨⟨_, ?_, minXCpuIdleRatio_spec samples held⟩, ?_⟩
  · intro i
    rw [after_eq]
    exact xcpuIdleRatio_spec follows i
  · intro i zero
    rw [after_eq] at zero ⊢
    exact zero_diff follows zero

end Run

/-! ## The average -/

namespace CpuMonitor

variable {pow : LongDouble → LongDouble → LongDouble} {m : CpuMonitor} {alpha : ℚ}

/-- An iteration that moves `tdfLoad` updates the average, any other leaves it. -/
theorem iterate_average (pow : LongDouble → LongDouble → LongDouble) (m : CpuMonitor)
    (reading : MonitorReading) (a : Arithmetic) :
    (m.iterate pow reading a).avgMinXCpuIdleRatio =
      if m.movesLoad then m.getAvgMinXCpuIdleRatio reading a else m.avgMinXCpuIdleRatio := by
  have sim : ∀ loaded : CpuMonitor,
      (loaded.updateSim reading a).avgMinXCpuIdleRatio = loaded.avgMinXCpuIdleRatio := by
    intro loaded
    obtain ⟨avgSimStateOverheadDelay, tdfSim, changed⟩ := loaded.updateSim_eq reading a
    rw [changed]
  have loaded : (if m.movesLoad then m.updateLoad pow reading a else m).avgMinXCpuIdleRatio =
      if m.movesLoad then m.getAvgMinXCpuIdleRatio reading a else m.avgMinXCpuIdleRatio := by
    split
    · rfl
    · rfl
  unfold iterate
  cases moves : m.movesSim with
  | true => rw [if_pos rfl, sim, loaded]
  | false => exact loaded

/-- A weight and the rest beside it, as `double` computes it, exceed one by half of the last
digit at most. -/
theorem rounded_rest_le (weight : alpha ∈ Set.Icc 0 1) (isPoint : alpha ∈ Format.double.points) :
    Format.double.rounded (1 - alpha) + alpha ≤ 1 + 1 / 2 ^ 53 := by
  have error := Format.double.abs_rounded_add_sub_le one_mem_numbers.1
    (Format.double.neg_mem_points isPoint)
  rw [← sub_eq_add_neg, abs_of_nonneg (sub_nonneg.mpr weight.2)] at error
  have part : (1 - alpha) / (2 * 2 ^ 52) ≤ 1 / 2 ^ 53 := by
    rw [← pow_succ']
    exact div_le_div_of_nonneg_right (sub_le_self 1 weight.1) (by positivity)
  have above := (abs_le.mp error).2
  have digits : Format.double.digits = 52 := rfl
  rw [digits] at above
  linarith

/-- One and half of its last digit is rounded to one. -/
theorem rounded_one_add_half : Format.double.rounded (1 + 1 / 2 ^ 53) = 1 := by
  decide +kernel

theorem mem_numbers_of_mem_Icc {q : ℚ} (isPoint : q ∈ Format.double.points)
    (inside : q ∈ Set.Icc 0 1) : q ∈ Format.double.numbers := by
  refine ⟨isPoint, ?_⟩
  rw [abs_of_nonneg inside.1]
  exact inside.2.trans_lt (one_lt_pow₀ one_lt_two (Nat.succ_ne_zero _))

/-- A part of a ratio is rounded to one that is not greater. -/
theorem hasValue_part {x y : LongDouble} {p q : ℚ} (left : x.HasValue p) (right : y.HasValue q)
    (isPoint : p ∈ Format.double.points) (inside : p ∈ Set.Icc 0 1) (part : q ∈ Set.Icc 0 1) :
    (Format.double.round (x * y)).HasValue (Format.double.rounded (p * q)) ∧
      Format.double.rounded (p * q) ∈ Set.Icc 0 p :=
  Format.double.hasValue_round_of_mem_Icc (left.mul right) (mem_numbers_of_mem_Icc isPoint inside)
    ⟨mul_nonneg inside.1 part.1, mul_le_of_le_one_right inside.1 part.2⟩

/-- **The average of two ratios is one**, as `double` computes it. -/
theorem hasValue_weighted {atWeight average : LongDouble} {a ratio : ℚ}
    (weight : alpha ∈ Set.Icc 0 1) (isPoint : alpha ∈ Format.double.points)
    (hasWeight : atWeight.HasValue alpha) (hasAverage : average.HasValue a)
    (before : a ∈ Set.Icc 0 1) (current : ratio ∈ Set.Icc 0 1) :
    ∃ value ∈ Set.Icc (0 : ℚ) 1, (Format.double.round (
      Format.double.round (Format.double.round (1 - atWeight) * average) +
        Format.double.round (atWeight * .ofRat ratio))).HasValue value := by
  obtain ⟨hasRest, restInside⟩ := Format.double.hasValue_round_of_mem_Icc
    (hasValue_one.sub hasWeight) one_mem_numbers
    ⟨sub_nonneg.mpr weight.2, sub_le_self 1 weight.1⟩
  obtain ⟨hasKept, keptInside⟩ := hasValue_part hasRest hasAverage
    (Format.double.isNearest_rounded _).1 restInside before
  obtain ⟨hasAdded, addedInside⟩ := hasValue_part hasWeight (hasValue_ofRat ratio) isPoint weight
    current
  have sum_le := add_le_add keptInside.2 addedInside.2
  -- the weights exceed one by less than what rounding a number above it drops
  have le := Format.rounded_mono (f := Format.double)
    (sum_le.trans (rounded_rest_le weight isPoint))
  rw [rounded_one_add_half] at le
  have nonneg := Format.rounded_nonneg (f := Format.double)
    (add_nonneg keptInside.1 addedInside.1)
  refine ⟨_, ⟨nonneg, le⟩, Format.double.hasValue_round (hasKept.add hasAdded) ?_⟩
  rw [abs_of_nonneg nonneg]
  exact le.trans_lt (one_lt_pow₀ one_lt_two (Nat.succ_ne_zero _))

/-- The average stays a ratio while the readings are. -/
theorem average_mem {readings : ℕ → MonitorReading} (weight : alpha ∈ Set.Icc 0 1)
    (isPoint : alpha ∈ Format.double.points)
    (atAlpha : m.configuration.alpha.HasValue alpha) {average : ℚ}
    (atAverage : m.avgMinXCpuIdleRatio.HasValue average) (start : average ∈ Set.Icc 0 1) {n : ℕ}
    (ratios : ∀ k < n, (readings k).curMinXCpuIdleRatio ∈ Set.Icc 0 1) :
    ∃ value ∈ Set.Icc 0 1,
      (m.after pow readings n .machine).avgMinXCpuIdleRatio.HasValue value := by
  induction n with
  | zero => exact ⟨average, start, atAverage⟩
  | succ n ih =>
      obtain ⟨value, inside, atValue⟩ := ih fun k less => ratios k (less.trans (Nat.lt_succ_self n))
      rw [after, iterate_average]
      split
      · rw [getAvgMinXCpuIdleRatio, configuration_after]
        exact hasValue_weighted weight isPoint atAlpha atValue inside
          (ratios n (Nat.lt_succ_self n))
      · exact ⟨value, inside, atValue⟩

end CpuMonitor

/-- **The measured idle ratio stays a ratio** while a `double` holds the counters. For every
number of processors and every sequence of samples, each call returns the least of ratios of
the processors and divides nothing but zero by zero, and the average of the results is a
ratio after every iteration. -/
theorem idle_ratio_stays_ratio {ncpu : ℕ} {snapshots : ℕ → GlibtopCpu ncpu}
    (samples : Samples snapshots) (pow : LongDouble → LongDouble → LongDouble)
    {c : Configuration} {alpha : ℚ} (atAlpha : c.alpha.HasValue alpha)
    (weight : alpha ∈ Set.Icc 0 1) (isPoint : alpha ∈ Format.double.points)
    {readings : ℕ → MonitorReading}
    (sampled : ∀ n, (readings n).curMinXCpuIdleRatio = (minXCpuIdleRatio snapshots n).toRat)
    {n : ℕ} (held : ∀ k ≤ n + 1, (snapshots k).Held) :
    TakesRatios snapshots n ∧
      ∃ average ∈ Set.Icc 0 1, ((CpuMonitor.start c).after pow readings
        (n + 1) .machine).avgMinXCpuIdleRatio.HasValue average := by
  refine ⟨takesRatios samples held, ?_⟩
  have ratios : ∀ k < n + 1, (readings k).curMinXCpuIdleRatio ∈ Set.Icc 0 1 := by
    intro k before
    have heldThen : ∀ j ≤ k + 1, (snapshots j).Held := fun j le => held j (by omega)
    obtain ⟨least, atLeast, ⟨i, found⟩, -⟩ := minXCpuIdleRatio_spec samples heldThen
    rw [sampled, atLeast.2, ← found]
    exact (xcpuIdleRatio_spec (samples.follows held before) i).2
  exact CpuMonitor.average_mem weight isPoint atAlpha hasValue_one ⟨zero_le_one, le_rfl⟩ ratios

/-- Two processors that are idle half of the time, sampled from the start of the system. -/
def halfIdle (n : ℕ) : GlibtopCpu 1 := ⟨fun _ => 2 * n, fun _ => n⟩

theorem samples_halfIdle : Samples halfIdle where
  valid n _ := by
    change n ≤ 2 * n
    omega
  advances n := by
    refine ⟨fun _ => ?_, fun _ => ?_, fun _ => ?_⟩
    · change 2 * n ≤ 2 * (n + 1)
      omega
    · exact Nat.le_succ n
    · change n + 1 - n ≤ 2 * (n + 1) - 2 * n
      omega

/-- A `double` holds the integers up to `2 ^ 53`. -/
theorem natCast_mem_numbers {n : ℕ} (few : n ≤ 2 ^ 53) : (n : ℚ) ∈ Format.double.numbers := by
  have bounded : |(n : ℤ)| ≤ 2 ^ (Format.double.digits + 1) := by
    rw [Int.abs_eq_natAbs, Int.natAbs_natCast]
    exact_mod_cast few
  exact_mod_cast Format.double.intCast_mem_numbers bounded (by decide)

theorem held_halfIdle {k : ℕ} (early : k ≤ 4) : (halfIdle k).Held := by
  intro i
  refine ⟨natCast_mem_numbers ?_, natCast_mem_numbers ?_⟩
  · change 2 * k ≤ 2 ^ 53
    omega
  · change k ≤ 2 ^ 53
    omega

theorem hasValue_alpha : ({} : Configuration).alpha.HasValue (1 / 8) := by
  decide +kernel

theorem idle_ratio_stays_ratio_half_idle :
    TakesRatios halfIdle 3 ∧
      ∃ average ∈ Set.Icc 0 1, ((CpuMonitor.start {}).after integerPow
        (fun n => ⟨(minXCpuIdleRatio halfIdle n).toRat, 0, 0, 0⟩) (3 + 1)
          .machine).avgMinXCpuIdleRatio.HasValue average :=
  idle_ratio_stays_ratio samples_halfIdle integerPow hasValue_alpha
    ⟨by norm_num, by norm_num⟩ (Format.double.mem_points_of_rounded (by decide +kernel))
    (fun _ => rfl) fun _ early => held_halfIdle early

/-- A processor whose total is at `2 ^ 53`, and then counts one more, which is idle time. -/
def longUptime (n : ℕ) : GlibtopCpu 0 :=
  if n = 0 then ⟨fun _ => 2 ^ 53, fun _ => 5⟩ else ⟨fun _ => 2 ^ 53 + 1, fun _ => 6⟩

theorem samples_longUptime : Samples longUptime where
  valid n i := by
    unfold longUptime
    split
    · change 5 ≤ 2 ^ 53
      decide
    · change 6 ≤ 2 ^ 53 + 1
      decide
  advances n := by
    cases n with
    | zero =>
        refine ⟨fun _ => Nat.le_succ (2 ^ 53), fun _ => Nat.le_succ 5, fun _ => ?_⟩
        change 6 - 5 ≤ 2 ^ 53 + 1 - 2 ^ 53
        decide
    | succ n => exact ⟨fun _ => le_rfl, fun _ => le_rfl, fun _ => by simp [longUptime]⟩

/-- **Two totals that differ may be one `double`.** The idle difference is one, the total one
zero, and the result is infinite. -/
theorem infinite_ratio_of_long_uptime :
    Samples longUptime ∧ minXCpuIdleRatio longUptime 0 = .infinite false ∧
      ((XCpu.after longUptime 0).diffXCpuTotal (longUptime 1) 0).isZero = true ∧
      ((XCpu.after longUptime 0).diffXCpuIdle (longUptime 1) 0).isZero = false ∧
      ¬ TakesRatios longUptime 0 := by
  have zero : ((XCpu.after longUptime 0).diffXCpuTotal (longUptime 1) 0).isZero = true := by
    decide +kernel
  have nonzero : ((XCpu.after longUptime 0).diffXCpuIdle (longUptime 1) 0).isZero = false := by
    decide +kernel
  refine ⟨samples_longUptime, by decide +kernel, zero, nonzero, ?_⟩
  intro takes
  rw [(takes.divides 0 zero).1] at nonzero
  exact absurd nonzero.symm Bool.false_ne_true

end VirtualAgent
