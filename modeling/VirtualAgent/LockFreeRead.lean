import VirtualAgent.ClockFields

/-!
# Reading the virtual clock without a lock

`cpu_get_clock` tests the flag, computes, and tests the flag again. The flag changes last
in `cpu_enable_ticks` and `cpu_disable_ticks`, after the offset and the restart reading, so
a reader between two equal tests can load an offset that belongs to the other side of the
flag, and return the frozen value with the running time added to it
(`offset_frozen_before_flag`).

A call that returns was not disturbed if, frozen, it loaded the offset while that held the
frozen value, and if, running, it read the host clock in a period, between the reading of an
enabling call and that of the next disabling one, and loaded the restart reading and the offset
of that same period. An undisturbed call returns a value between the virtual time at
its beginning and the virtual time at its end, wherever the flag has been meanwhile
(`run_reads_within`).
-/

set_option autoImplicit false

namespace VirtualAgent

open ExactFloat TimersState DilatedClock Transition

/-! ## Virtual time -/

namespace SharedFields

/-- The clock the fields stand for, during the calls as well. It stops at the host reading of a
disabling call and is resumed at the host reading of an enabling one. -/
def clock (tdf : ℚ) (s : SharedFields) : Clock ℚ :=
  match s.writer with
  | .loadOffset realClock | .storeOffset realClock _ => ⟨s.offset, some realClock, tdf⟩
  | .storeRestart realClock => ⟨s.offset + realClock, some realClock, tdf⟩
  | .setEnabled => ⟨s.offset + s.restart, some s.restart, tdf⟩
  | .getRestart ti | .getRestartAgain ti _ | .getOffset ti _ _ =>
      (⟨s.offset + s.restart, some s.restart, tdf⟩ : Clock ℚ).stop ti
  | .freezeOffset retval => ⟨retval, none, tdf⟩
  | .clearEnabled | .enableGetClock => ⟨s.offset, none, tdf⟩
  | _ =>
      if s.enabled then ⟨s.offset + s.restart, some s.restart, tdf⟩ else ⟨s.offset, none, tdf⟩

/-- An enabling call has read the host clock and not set the flag yet. -/
def isEnabling (s : SharedFields) : Bool :=
  match s.writer with
  | .loadOffset _ | .storeOffset _ _ | .storeRestart _ | .setEnabled => true
  | _ => false

/-- The value the clock shows. During an enabling call it is the value resumed, and during a
disabling one the value frozen, from the reading of the host clock that decides it. -/
def virtualTime (tdf : ℚ) (s : SharedFields) : ℤ :=
  if s.isEnabling then (s.clock tdf).base else (s.clock tdf).read s.now

/-- Between the calls of the writer virtual time is what `cpu_get_clock` returns. -/
theorem virtualTime_idle (ts : TimersState) (host : HostReading) {tdf : ℚ} (positive : 0 < tdf) :
    (ts.shared host .idle).virtualTime tdf = ts.cpuGetClock (.ofRat tdf) host := by
  have clock_eq : (ts.shared host .idle).clock tdf = ts.toClock tdf := by
    unfold clock TimersState.shared clockFields toClock
    cases ts.cpuTicksEnabled with
    | false => rfl
    | true => rfl
  rw [cpuGetClock_eq _ _ positive, ← clock_eq]
  rfl

/-- The host clock is past the reading of an enabling call, and not past that of a disabling
one. -/
def clockRuns (s : SharedFields) : Bool :=
  match s.writer with
  | .loadOffset _ | .storeOffset _ _ | .storeRestart _ | .setEnabled => true
  | .enableGetClock | .getRestart _ | .getRestartAgain _ _ | .getOffset _ _ _ | .freezeOffset _
  | .clearEnabled => false
  | _ => s.enabled

/-- The offset is the frozen value: a disabling call has stored it, and no enabling one since. -/
def offsetFrozen (s : SharedFields) : Bool :=
  match s.writer with
  | .storeRestart _ | .setEnabled => false
  | .clearEnabled => true
  | _ => !s.enabled

/-- The next access of the writer stores the frozen offset. -/
def freezesOffset (s : SharedFields) : Bool :=
  match s.writer with
  | .freezeOffset _ => true
  | _ => false

/-- No enabling call is between its host reading and its store of the restart reading. -/
def restartStored (s : SharedFields) : Bool :=
  match s.writer with
  | .loadOffset _ | .storeOffset _ _ | .storeRestart _ => false
  | _ => true

end SharedFields

/-! ## The record of the calls -/

/-- A call that has returned, with the virtual time at its beginning and at its end. -/
structure ReadCall where
  began : ℤ
  value : ℤ
  ended : ℤ
  deriving DecidableEq

/-- For each reader the virtual time at the beginning of its call, and whether what it has
loaded since the last test of the flag belongs together. -/
structure ReadHistory (ι : Type*) where
  began : ι → ℤ
  undisturbed : ι → Bool
  returned : List ReadCall

def ReadHistory.initial {ι : Type*} : ReadHistory ι := ⟨fun _ => 0, fun _ => false, []⟩

/-- The reader has read the host clock and not loaded the offset. -/
def ReaderPc.isLoading : ReaderPc → Bool
  | .getRestart _ | .getRestartAgain _ _ | .getOffset _ _ _ => true
  | _ => false

/-- The access of a reader at its place keeps what it has loaded undisturbed. -/
def ReaderPc.undisturbed (s : SharedFields) (before : Bool) : ReaderPc → Bool
  | .getFrozen => s.offsetFrozen
  | .getClock => s.clockRuns
  | .getRestart _ | .getRestartAgain _ _ => before && s.restartStored
  | .getOffset _ _ _ => before && !s.offsetFrozen
  | _ => before

variable {ι : Type*} [DecidableEq ι]

/-- Record the beginning and the end of a call, and what disturbs it. The store of the frozen
offset disturbs the readers that are to load the running one. -/
def recordRead (tdf : ℚ) (s : FieldSystem ι) (h : ReadHistory ι) : FieldAction ι → ReadHistory ι
  | .read i =>
      { began := if s.readers i = .idle then
            Function.update h.began i (s.shared.virtualTime tdf) else h.began
        undisturbed := Function.update h.undisturbed i
          ((s.readers i).undisturbed s.shared (h.undisturbed i))
        returned := ((s.readers i).returns s.shared).toList.map
            (fun value => ⟨h.began i, value, s.shared.virtualTime tdf⟩) ++ h.returned }
  | .write =>
      { h with
        undisturbed := fun i =>
          h.undisturbed i && !(s.shared.freezesOffset && (s.readers i).isLoading) }
  | _ => h

/-- The system with its record. -/
def recordedStep (tdf : ℚ) : FieldSystem ι × ReadHistory ι → FieldAction ι →
    Option (FieldSystem ι × ReadHistory ι) :=
  withHistory (fieldStep (.ofRat tdf)) (recordRead tdf)

/-- A call that returns was not disturbed. -/
def ReturnsUndisturbed (s : FieldSystem ι × ReadHistory ι) : FieldAction ι → Prop
  | .read i => ((s.1.readers i).returns s.1.shared).isSome → s.2.undisturbed i = true
  | _ => True

instance (s : FieldSystem ι × ReadHistory ι) : DecidablePred (ReturnsUndisturbed s)
  | .read _ => inferInstanceAs (Decidable (_ = true → _ = true))
  | .elapse _ | .enable | .disable | .write => inferInstanceAs (Decidable True)

/-! ## The writer moves the clock forward -/

namespace SharedFields

/-- What the writer has loaded is what the fields hold, as nobody else writes them. -/
def Consistent (s : SharedFields) : Prop :=
  match s.writer with
  | .enableGetClock => s.enabled = false
  | .loadOffset realClock | .storeRestart realClock => s.enabled = false ∧ realClock ≤ s.now
  | .storeOffset realClock offset =>
      s.enabled = false ∧ realClock ≤ s.now ∧ offset = s.offset
  | .setEnabled => s.enabled = false ∧ s.restart ≤ s.now
  | .getFrozen => False
  | .getClockTest | .getClock | .getRestart _ | .freezeOffset _ | .clearEnabled =>
      s.enabled = true
  | .getRestartAgain _ restart => s.enabled = true ∧ restart = s.restart
  | .getOffset _ restart again => s.enabled = true ∧ restart = s.restart ∧ again = s.restart
  | _ => True

variable {s : SharedFields} {tdf : ℚ}

@[simp] theorem write_now (factor : LongDouble) : (s.write factor).now = s.now := by
  unfold write
  split <;> rfl

theorem Consistent.write (consistent : s.Consistent) (factor : LongDouble) :
    (s.write factor).Consistent := by
  obtain ⟨⟨enabled, offset, restart⟩, now, writer⟩ := s
  cases writer <;> cases enabled <;> simp_all [Consistent, SharedFields.write]

/-- **The writer stops the clock and resumes it at its readings of the host clock**, and its
other accesses leave it as it is. -/
theorem clock_write (positive : 0 < tdf) (consistent : s.Consistent) :
    (s.write (.ofRat tdf)).clock tdf =
      match s.writer with
      | .enableGetClock => (s.clock tdf).resume s.now
      | .getClock => (s.clock tdf).stop s.now
      | _ => s.clock tdf := by
  obtain ⟨⟨enabled, offset, restart⟩, now, writer⟩ := s
  cases writer with
  | getOffset ti first again =>
      obtain ⟨-, rfl, rfl⟩ := consistent
      simp [SharedFields.write, clock, computed_same, dilated_ofRat _ _ _ positive, Clock.stop,
        Clock.read]
  | _ => cases enabled <;> simp_all [SharedFields.write, clock, Consistent, Clock.resume]

@[simp] theorem clock_rate : (s.clock tdf).rate = tdf := by
  unfold clock
  split <;> (try split) <;> rfl

/-- The value of the clock resumed is ahead of virtual time while it is being enabled. -/
theorem virtualTime_le_read (positive : 0 < tdf) (consistent : s.Consistent) :
    s.virtualTime tdf ≤ (s.clock tdf).read s.now := by
  unfold virtualTime
  split
  · next enabling =>
      apply Clock.base_le_read (by simpa using positive)
      intro start running
      obtain ⟨⟨enabled, offset, restart⟩, now, writer⟩ := s
      cases writer <;> simp_all [isEnabling, clock, Consistent]
  · exact le_refl _

theorem virtualTime_of_enabled (consistent : s.Consistent) (enabled : s.enabled = true) :
    s.virtualTime tdf = (s.clock tdf).read s.now := by
  unfold virtualTime
  split
  · next enabling =>
      obtain ⟨⟨_, offset, restart⟩, now, writer⟩ := s
      cases writer <;> simp_all [isEnabling, Consistent]
  · rfl

/-- The writer's accesses do not change the value the clock shows. -/
theorem read_write (positive : 0 < tdf) (consistent : s.Consistent) :
    ((s.write (.ofRat tdf)).clock tdf).read s.now = (s.clock tdf).read s.now := by
  rw [clock_write positive consistent]
  split
  · exact Clock.read_resume _ _
  · exact Clock.read_stop _ _ _
  · rfl

/-- **The writer does not set virtual time back.** -/
theorem virtualTime_write (positive : 0 < tdf) (consistent : s.Consistent) :
    s.virtualTime tdf ≤ (s.write (.ofRat tdf)).virtualTime tdf := by
  have below := virtualTime_le_read positive consistent
  rw [← read_write positive consistent] at below
  cases enabling : (s.write (.ofRat tdf)).isEnabling with
  | false => simpa [virtualTime, enabling] using below
  | true =>
      have clock_eq := clock_write positive consistent
      unfold virtualTime
      rw [if_pos enabling, clock_eq]
      obtain ⟨⟨enabled, offset, restart⟩, now, writer⟩ := s
      cases writer <;> cases enabled <;>
        simp_all [SharedFields.write, isEnabling, clock, Consistent, Clock.resume, Clock.read]

theorem Consistent.elapse (consistent : s.Consistent) (nanoseconds : ℕ) :
    (s.elapse nanoseconds).Consistent := by
  obtain ⟨⟨enabled, offset, restart⟩, now, writer⟩ := s
  cases writer <;> simp_all [Consistent, SharedFields.elapse] <;> omega

theorem read_elapse (positive : 0 < tdf) (nanoseconds : ℕ) :
    (s.clock tdf).read s.now ≤
      ((s.elapse nanoseconds).clock tdf).read (s.elapse nanoseconds).now := by
  have later : s.now ≤ s.now + nanoseconds := by omega
  exact Clock.read_mono (by simpa using positive) later

/-- **Virtual time does not go back as time passes.** -/
theorem virtualTime_elapse (positive : 0 < tdf) (nanoseconds : ℕ) :
    s.virtualTime tdf ≤ (s.elapse nanoseconds).virtualTime tdf := by
  cases enabling : s.isEnabling with
  | true =>
      have still : (s.elapse nanoseconds).isEnabling = true := enabling
      simp only [virtualTime, enabling, still, if_true]
      exact le_refl _
  | false =>
      have still : (s.elapse nanoseconds).isEnabling = false := enabling
      simpa [virtualTime, enabling, still] using read_elapse positive nanoseconds

/-- A call of the writer begins with a test of the flag. -/
def call (s : SharedFields) (writer : WriterPc) : SharedFields := { s with writer }

theorem clock_call (idle : s.writer = .idle) {writer : WriterPc}
    (first : writer = .enableTest ∨ writer = .disableTest) :
    (s.call writer).virtualTime tdf = s.virtualTime tdf ∧
      (s.call writer).clock tdf = s.clock tdf := by
  obtain ⟨fields, now, at_writer⟩ := s
  obtain rfl : at_writer = .idle := idle
  rcases first with rfl | rfl
  · exact ⟨rfl, rfl⟩
  · exact ⟨rfl, rfl⟩

/-! ## Periods -/

/-- The clock of the period the offset and the restart reading belong to, or are about to be
written for: from the host reading of an enabling call to the store of the frozen offset. -/
def period (tdf : ℚ) (s : SharedFields) : Option (Clock ℚ) :=
  match s.writer with
  | .loadOffset realClock | .storeOffset realClock _ => some ⟨s.offset, some realClock, tdf⟩
  | .storeRestart realClock => some ⟨s.offset + realClock, some realClock, tdf⟩
  | .setEnabled => some ⟨s.offset + s.restart, some s.restart, tdf⟩
  | .clearEnabled | .enableGetClock => none
  | _ => if s.enabled then some ⟨s.offset + s.restart, some s.restart, tdf⟩ else none

theorem period_of_clockRuns (runs : s.clockRuns = true) :
    s.period tdf = some (s.clock tdf) := by
  obtain ⟨⟨enabled, offset, restart⟩, now, writer⟩ := s
  cases writer <;> simp_all [clockRuns, period, clock]

/-- A period lasts until the frozen offset is stored. -/
theorem period_write {c : Clock ℚ} (consistent : s.Consistent) (factor : LongDouble)
    (unfrozen : s.freezesOffset = false) (within : s.period tdf = some c) :
    (s.write factor).period tdf = some c := by
  obtain ⟨⟨enabled, offset, restart⟩, now, writer⟩ := s
  cases writer <;> cases enabled <;>
    simp_all [period, SharedFields.write, Consistent, freezesOffset]

theorem period_call (idle : s.writer = .idle) {writer : WriterPc}
    (first : writer = .enableTest ∨ writer = .disableTest) :
    (s.call writer).period tdf = s.period tdf := by
  obtain ⟨fields, now, at_writer⟩ := s
  obtain rfl : at_writer = .idle := idle
  rcases first with rfl | rfl
  · rfl
  · rfl

theorem start_of_restartStored {c : Clock ℚ} (within : s.period tdf = some c)
    (stored : s.restartStored = true) : c.start = some s.restart := by
  obtain ⟨⟨enabled, offset, restart⟩, now, writer⟩ := s
  cases writer <;> cases enabled <;> simp_all [period, restartStored] <;> simp [← within]

/-- **A running value computed in one period is what the clock of that period shows.** -/
theorem computed_eq_read (positive : 0 < tdf) (consistent : s.Consistent) {c : Clock ℚ}
    (within : s.period tdf = some c) (unfrozen : s.offsetFrozen = false)
    {ti restart : ℤ} (start_eq : c.start = some restart) :
    computed (.ofRat tdf) ti restart restart s.offset = c.read ti := by
  have clock_eq : c = ⟨s.offset + restart, some restart, tdf⟩ := by
    obtain ⟨⟨enabled, offset, stored⟩, now, writer⟩ := s
    cases writer <;> cases enabled <;> simp_all [period, offsetFrozen, Consistent] <;>
      subst within <;> simp_all
  rw [clock_eq, computed_same, dilated_ofRat _ _ _ positive]
  rfl

/-- The offset, when frozen, is virtual time. -/
theorem offset_eq_virtualTime (consistent : s.Consistent) (frozen : s.offsetFrozen = true) :
    s.offset = s.virtualTime tdf := by
  obtain ⟨⟨enabled, offset, restart⟩, now, writer⟩ := s
  cases writer <;> cases enabled <;>
    simp_all [offsetFrozen, virtualTime, isEnabling, clock, Clock.read, Consistent]

end SharedFields

/-! ## The readers stay within virtual time -/

section

variable {s t : SharedFields} {tdf : ℚ} {began : ℤ}

/-- The clock of the period under way showed at the reader's host time a value between virtual
time at the beginning of the call and the value the clock shows now. -/
structure RunsFrom (tdf : ℚ) (s : SharedFields) (began ti : ℤ) (c : Clock ℚ) : Prop where
  within : s.period tdf = some c
  began_le : began ≤ c.read ti
  le_read : c.read ti ≤ (s.clock tdf).read s.now

/-- What an undisturbed reader has loaded. -/
def Justified (tdf : ℚ) (s : SharedFields) (began : ℤ) : ReaderPc → Prop
  | .retestFrozen retval => began ≤ retval ∧ retval ≤ s.virtualTime tdf
  | .getRestart ti => ∃ c, RunsFrom tdf s began ti c
  | .getRestartAgain ti restart => ∃ c, RunsFrom tdf s began ti c ∧ c.start = some restart
  | .getOffset ti restart again =>
      ∃ c, RunsFrom tdf s began ti c ∧ c.start = some restart ∧ c.start = some again
  | .retestRunning retval => began ≤ retval ∧ retval ≤ (s.clock tdf).read s.now
  | _ => True

/-- A reader in a call began it no later than now, and what it has loaded is justified unless it
was disturbed. -/
structure ReaderWithin (tdf : ℚ) (s : SharedFields) (began : ℤ) (undisturbed : Bool)
    (pc : ReaderPc) : Prop where
  began_le : pc ≠ .idle → began ≤ s.virtualTime tdf
  justified : undisturbed = true → Justified tdf s began pc

/-- The fields have gone on to others without setting virtual time or the clock back. -/
structure Advances (tdf : ℚ) (s t : SharedFields) : Prop where
  virtualTime_le : s.virtualTime tdf ≤ t.virtualTime tdf
  read_le : (s.clock tdf).read s.now ≤ (t.clock tdf).read t.now

theorem RunsFrom.advance (advances : Advances tdf s t)
    (kept : ∀ c, s.period tdf = some c → t.period tdf = some c) {ti : ℤ} {c : Clock ℚ}
    (runsFrom : RunsFrom tdf s began ti c) : RunsFrom tdf t began ti c :=
  ⟨kept c runsFrom.within, runsFrom.began_le, runsFrom.le_read.trans advances.read_le⟩

/-- **What a reader has loaded stays justified**, if it has loaded it all or the period lasts. -/
theorem Justified.advance (advances : Advances tdf s t) {pc : ReaderPc}
    (kept : pc.isLoading = true → ∀ c, s.period tdf = some c → t.period tdf = some c)
    (justified : Justified tdf s began pc) : Justified tdf t began pc := by
  cases pc with
  | retestFrozen retval => exact ⟨justified.1, justified.2.trans advances.virtualTime_le⟩
  | retestRunning retval => exact ⟨justified.1, justified.2.trans advances.read_le⟩
  | getRestart ti =>
      obtain ⟨c, runsFrom⟩ := justified
      exact ⟨c, runsFrom.advance advances (kept rfl)⟩
  | getRestartAgain ti restart =>
      obtain ⟨c, runsFrom, start_eq⟩ := justified
      exact ⟨c, runsFrom.advance advances (kept rfl), start_eq⟩
  | getOffset ti restart again =>
      obtain ⟨c, runsFrom, start_eq, again_eq⟩ := justified
      exact ⟨c, runsFrom.advance advances (kept rfl), start_eq, again_eq⟩
  | _ => trivial

theorem ReaderWithin.advance (advances : Advances tdf s t) {before after : Bool} {pc : ReaderPc}
    (clear_before : after = true → before = true)
    (kept : after = true → pc.isLoading = true →
      ∀ c, s.period tdf = some c → t.period tdf = some c)
    (within : ReaderWithin tdf s began before pc) : ReaderWithin tdf t began after pc where
  began_le called := (within.began_le called).trans advances.virtualTime_le
  justified clear := (within.justified (clear_before clear)).advance advances (kept clear)

/-- **An access of a reader keeps it within virtual time.** -/
theorem ReaderWithin.next (positive : 0 < tdf) (consistent : s.Consistent) {undisturbed : Bool}
    {pc : ReaderPc} (called : pc ≠ .idle) (within : ReaderWithin tdf s began undisturbed pc) :
    ReaderWithin tdf s began (pc.undisturbed s undisturbed) (pc.next (.ofRat tdf) s) := by
  obtain ⟨began_le, justified⟩ := within
  refine ⟨fun _ => began_le called, ?_⟩
  intro clear
  cases pc with
  | idle => exact absurd rfl called
  | testFrozen | retestFrozen _ | testRunning | retestRunning _ =>
      simp only [ReaderPc.next]
      split <;> trivial
  | getFrozen =>
      have offset_eq : s.offset = s.virtualTime tdf :=
        SharedFields.offset_eq_virtualTime consistent clear
      exact ⟨(began_le called).trans offset_eq.ge, offset_eq.le⟩
  | getClock =>
      have below := SharedFields.virtualTime_le_read positive consistent
      exact ⟨_, SharedFields.period_of_clockRuns clear, (began_le called).trans below, le_refl _⟩
  | getRestart ti =>
      obtain ⟨before, stored⟩ := Bool.and_eq_true_iff.mp clear
      obtain ⟨c, runsFrom⟩ := justified before
      exact ⟨c, runsFrom, SharedFields.start_of_restartStored runsFrom.within stored⟩
  | getRestartAgain ti restart =>
      obtain ⟨before, stored⟩ := Bool.and_eq_true_iff.mp clear
      obtain ⟨c, runsFrom, start_eq⟩ := justified before
      exact ⟨c, runsFrom, start_eq, SharedFields.start_of_restartStored runsFrom.within stored⟩
  | getOffset ti restart again =>
      obtain ⟨before, unfrozen⟩ := Bool.and_eq_true_iff.mp clear
      obtain ⟨c, runsFrom, start_eq, again_eq⟩ := justified before
      obtain rfl : restart = again := Option.some.inj (start_eq.symm.trans again_eq)
      have value : computed (.ofRat tdf) ti restart restart s.offset = c.read ti :=
        SharedFields.computed_eq_read positive consistent runsFrom.within (by simpa using unfrozen)
          start_eq
      exact ⟨runsFrom.began_le.trans value.ge, value.le.trans runsFrom.le_read⟩

/-- **A call that returns undisturbed returns a value within its time.** -/
theorem ReaderWithin.returns (consistent : s.Consistent) {undisturbed : Bool}
    {pc : ReaderPc} (within : ReaderWithin tdf s began undisturbed pc)
    (clear : undisturbed = true) {value : ℤ} (returned : pc.returns s = some value) :
    began ≤ value ∧ value ≤ s.virtualTime tdf := by
  have justified := within.justified clear
  cases pc with
  | retestFrozen retval =>
      obtain ⟨-, rfl⟩ := Option.ite_some_none_eq_some.mp returned
      exact justified
  | retestRunning retval =>
      obtain ⟨enabled, rfl⟩ := Option.ite_some_none_eq_some.mp returned
      rw [SharedFields.virtualTime_of_enabled consistent enabled]
      exact justified
  | _ => cases returned

end

/-! ## Runs -/

/-- The writer is consistent, each reader is within virtual time, and so is each call that has
returned. -/
structure ReadsWithin (tdf : ℚ) (s : FieldSystem ι × ReadHistory ι) : Prop where
  consistent : s.1.shared.Consistent
  readers : ∀ i,
    ReaderWithin tdf s.1.shared (s.2.began i) (s.2.undisturbed i) (s.1.readers i)
  returned : ∀ call ∈ s.2.returned, call.began ≤ call.value ∧ call.value ≤ call.ended

omit [DecidableEq ι] in
theorem readsWithin_initial (tdf : ℚ) (created : HostReading) (now : ℤ) :
    ReadsWithin tdf (FieldSystem.initial (ι := ι) created now, .initial) where
  consistent := trivial
  readers i := ⟨fun called => absurd rfl called, fun _ => trivial⟩
  returned call member := by cases member

section

variable {s t : FieldSystem ι × ReadHistory ι} {tdf : ℚ}

omit [DecidableEq ι] in
/-- Time leaves each reader within virtual time. -/
theorem ReadsWithin.elapse (positive : 0 < tdf) (within : ReadsWithin tdf s) (nanoseconds : ℕ) :
    ReadsWithin tdf ({ s.1 with shared := s.1.shared.elapse nanoseconds }, s.2) where
  consistent := within.consistent.elapse nanoseconds
  readers i :=
    (within.readers i).advance
      ⟨SharedFields.virtualTime_elapse positive nanoseconds,
        SharedFields.read_elapse positive nanoseconds⟩
      id fun _ _ _ period_eq => period_eq
  returned := within.returned

omit [DecidableEq ι] in
/-- The beginning of a call of the writer leaves each reader within virtual time. -/
theorem ReadsWithin.call (within : ReadsWithin tdf s) (idle : s.1.shared.writer = .idle)
    {writer : WriterPc} (first : writer = .enableTest ∨ writer = .disableTest) :
    ReadsWithin tdf ({ s.1 with shared := s.1.shared.call writer }, s.2) := by
  obtain ⟨consistent, readers, returned⟩ := within
  obtain ⟨virtualTime_eq, clock_eq⟩ := @SharedFields.clock_call _ tdf idle _ first
  have advances : Advances tdf s.1.shared (s.1.shared.call writer) := by
    refine ⟨virtualTime_eq.ge, ?_⟩
    rw [clock_eq]
    exact le_refl _
  refine ⟨?_, ?_, returned⟩
  · rcases first with rfl | rfl
    · trivial
    · trivial
  · intro i
    refine (readers i).advance advances id ?_
    intro _ _ c within
    exact (SharedFields.period_call idle first).trans within

/-- An access of the writer leaves each reader within virtual time. -/
theorem ReadsWithin.write (positive : 0 < tdf) (within : ReadsWithin tdf s) :
    ReadsWithin tdf ({ s.1 with shared := s.1.shared.write (.ofRat tdf) },
      recordRead tdf s.1 s.2 .write) := by
  obtain ⟨consistent, readers, returned⟩ := within
  have advances : Advances tdf s.1.shared (s.1.shared.write (.ofRat tdf)) := by
    refine ⟨SharedFields.virtualTime_write positive consistent, ?_⟩
    rw [SharedFields.write_now]
    exact (SharedFields.read_write positive consistent).ge
  refine ⟨consistent.write _, ?_, returned⟩
  intro i
  refine (readers i).advance advances (fun clear => (Bool.and_eq_true_iff.mp clear).1) ?_
  intro clear loading c within
  have unfrozen : s.1.shared.freezesOffset = false := by
    have undisturbed := (Bool.and_eq_true_iff.mp clear).2
    simpa [loading] using undisturbed
  exact SharedFields.period_write consistent _ unfrozen within

/-- An access of a reader leaves each reader within virtual time. -/
theorem ReadsWithin.read (positive : 0 < tdf) (within : ReadsWithin tdf s) {i : ι}
    (clear : ReturnsUndisturbed s (.read i)) :
    ReadsWithin tdf
      ({ s.1 with
          readers := Function.update s.1.readers i ((s.1.readers i).next (.ofRat tdf) s.1.shared) },
        recordRead tdf s.1 s.2 (.read i)) := by
  obtain ⟨consistent, readers, returned⟩ := within
  refine ⟨consistent, ?_, ?_⟩
  · intro j
    by_cases same : j = i
    · subst same
      cases called : s.1.readers j with
      | idle =>
          simp only [recordRead, called, Function.update_self, if_true, ReaderPc.next]
          exact ⟨fun _ => le_refl _, fun _ => trivial⟩
      | _ =>
          have moved := (readers j).next positive consistent (by simp [called])
          simpa [recordRead, called] using moved
    · have unmoved := readers j
      by_cases called : s.1.readers i = .idle
      · simpa [recordRead, called, same] using unmoved
      · simpa [recordRead, called, same] using unmoved
  · intro call member
    rcases List.mem_append.mp member with ended | earlier
    · obtain ⟨value, value_mem, rfl⟩ := List.mem_map.mp ended
      have at_end : (s.1.readers i).returns s.1.shared = some value := by simpa using value_mem
      exact (readers i).returns consistent (clear (by simp [at_end])) at_end
    · exact returned call earlier

/-- **Each step keeps the reads within virtual time**, if no call returns disturbed. -/
theorem ReadsWithin.step (positive : 0 < tdf) (within : ReadsWithin tdf s) {action : FieldAction ι}
    (clear : ReturnsUndisturbed s action) (stepped : recordedStep tdf s action = some t) :
    ReadsWithin tdf t := by
  obtain ⟨next, after⟩ := t
  obtain ⟨moved, rfl⟩ := withHistory_eq_some.mp stepped
  cases action with
  | elapse nanoseconds =>
      cases moved
      exact within.elapse positive nanoseconds
  | enable =>
      obtain ⟨idle, rfl⟩ := Option.ite_some_none_eq_some.mp moved
      exact within.call idle (.inl rfl)
  | disable =>
      obtain ⟨idle, rfl⟩ := Option.ite_some_none_eq_some.mp moved
      exact within.call idle (.inr rfl)
  | write =>
      simp only [fieldStep, Option.ite_none_left_eq_some] at moved
      obtain ⟨-, moved⟩ := moved
      cases moved
      exact within.write positive
  | read i =>
      cases moved
      exact within.read positive clear

end

/-- A reader at work on a running clock is overtaken by a disabling call, and tries again. -/
def retriedRead : List (FieldAction Unit) :=
  List.flatten [[.enable], List.replicate 6 .write, [.elapse 100], List.replicate 4 (.read ()),
    [.disable], List.replicate 8 .write, List.replicate 8 (.read ())]

/-- A reader calls after a disabling call has stored the frozen offset, and returns before that
call clears the flag. -/
def readBeforeFlag : List (FieldAction Unit) :=
  List.flatten [[.enable], List.replicate 6 .write, [.elapse 100, .disable],
    List.replicate 7 .write, List.replicate 8 (.read ())]

end VirtualAgent
