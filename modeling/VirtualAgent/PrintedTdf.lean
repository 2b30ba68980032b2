import VirtualAgent.ClusterAgreement
import VirtualAgent.Library.DecimalText

/-!
# The printed factor

`CpuMonitor.cpp` prints the factor it broadcasts with `ss << rTdf`, which gives six digits,
and a peer reads a `double` from the text. `printed_tdf_read_back` says what is lost on the
way. Between two numbers that have no more than six digits and that a `double` holds, the
text is short and has no bars, the number read back is between the two again and within
six millionths of the printed one, and greater factors are not read back as smaller ones.

So a cluster whose hosts print their factors like this is regular (`regular_printed`), and
its agents follow the greatest factor that a host needs but for these millionths and the
threshold (`cluster_tracks_greatest`).
-/

set_option autoImplicit false

namespace VirtualAgent

open ExactFloat CText Outcome Transition Rounding
open ExactFloat.LongDouble (HasValue hasValue_ofRat)
open Std (ExtTreeMap)

/-! ## Printing and reading back -/

/-- `ss << rTdf`, on a stream with the precision it has at first. -/
def tdfText (rTdf : LongDouble) : CString := formatFloat 5 rTdf

/-- A number that is printed and read back as it is. -/
structure PrintsExactly (q : ℚ) : Prop where
  digits : q ∈ digitGrid 10 5 Set.univ
  format : q ∈ binary64Grid

/-- Two numbers that are printed and read back as they are, away from the ends of the range
of a `double`. -/
structure PrintRange (low high : ℚ) : Prop where
  atLow : PrintsExactly low
  atHigh : PrintsExactly high
  normal : (2 : ℚ) ^ (-1022 : ℤ) ≤ low
  small : high ≤ 2 ^ 1023

/-- The number read back from the text of a number. -/
def readTdf (q : ℚ) : ℚ := (atof (tdfText (.ofRat q))).toRat

/-- A positive number has one form. -/
theorem eq_ofRat_of_positive {x : LongDouble} {q : ℚ} (value : x.HasValue q) (positive : 0 < q) :
    x = .ofRat q := by
  obtain ⟨negative, magnitude, rfl, rfl⟩ := value.exists_finite
  cases negative with
  | true =>
      have nonneg : (0 : ℚ) ≤ magnitude := magnitude.2
      simp only [LongDouble.signed, if_true] at positive
      linarith
  | false =>
      have same : Rat.nnabs (LongDouble.signed false magnitude) = magnitude := by
        apply NNRat.ext
        simp [LongDouble.signed]
      rw [LongDouble.ofRat, same, decide_eq_false (not_lt.mpr positive.le)]

/-- A text of numeral characters is a C string without bars. -/
theorem tdfText_plain {text : CString} (numeral : ∀ c ∈ text, isNumeralChar c = true) :
    upToNul text = text ∧ 124 ∉ text := by
  constructor
  · refine List.takeWhile_eq_self_iff.mpr ?_
    intro c member
    rw [bne_iff_ne]
    rintro rfl
    exact absurd (numeral 0 member) (by decide)
  · intro bar
    exact absurd (numeral 124 bar) (by decide)

namespace PrintRange

variable {low high q q' : ℚ}

theorem positive (range : PrintRange low high) (least : low ≤ q) : 0 < q :=
  (zpow_pos two_pos _).trans_le (range.normal.trans least)

/-- The exponents in the range have three digits. -/
theorem natAbs_exponent_lt (range : PrintRange low high) {digits : ℕ × ℤ}
    (atLeast : 10 ^ 5 ≤ digits.1) (below : digits.1 < 10 ^ 6)
    (inside : significantValue 10 5 digits ∈ Set.Icc low high) : digits.2.natAbs < 10 ^ 3 := by
  have unit : (0 : ℚ) < (10 : ℚ) ^ (digits.2 - 5) := zpow_pos (by norm_num) _
  have atLeast' : (10 : ℚ) ^ 5 ≤ digits.1 := by exact_mod_cast atLeast
  have below' : (digits.1 : ℚ) < 10 ^ 6 := by exact_mod_cast below
  have lower : (10 : ℚ) ^ digits.2 ≤ significantValue 10 5 digits := by
    calc (10 : ℚ) ^ digits.2 = 10 ^ 5 * 10 ^ (digits.2 - 5) := by
          rw [← zpow_natCast, ← zpow_add₀ (by norm_num)]
          congr 1
          push_cast
          ring
      _ ≤ significantValue 10 5 digits := mul_le_mul_of_nonneg_right atLeast' unit.le
  have upper : significantValue 10 5 digits < (10 : ℚ) ^ (digits.2 + 1) := by
    calc significantValue 10 5 digits < 10 ^ 6 * 10 ^ (digits.2 - 5) :=
          mul_lt_mul_of_pos_right below' unit
      _ = (10 : ℚ) ^ (digits.2 + 1) := by
          rw [← zpow_natCast, ← zpow_add₀ (by norm_num)]
          congr 1
          push_cast
          ring
  -- powers of two are compared with those of eight, and these with those of ten
  have eighth : ∀ k : ℕ, (2 : ℚ) ^ (3 * k) ≤ 10 ^ k := by
    intro k
    rw [pow_mul]
    exact pow_le_pow_left₀ (by norm_num) (by norm_num) k
  have notLarge : digits.2 < 341 + 1 := by
    refine (zpow_lt_zpow_iff_right₀ (a := (10 : ℚ)) (by norm_num)).mp ?_
    calc (10 : ℚ) ^ digits.2 ≤ 2 ^ 1023 := lower.trans (inside.2.trans range.small)
      _ ≤ 10 ^ 341 := eighth 341
      _ < (10 : ℚ) ^ ((341 : ℤ) + 1) := by
          rw [zpow_add_one₀ (by norm_num), ← zpow_natCast]
          exact lt_mul_of_one_lt_right (zpow_pos (by norm_num) _) (by norm_num)
  have notSmall : -341 < digits.2 + 1 := by
    refine (zpow_lt_zpow_iff_right₀ (a := (10 : ℚ)) (by norm_num)).mp ?_
    calc (10 : ℚ) ^ (-341 : ℤ) ≤ 2 ^ (-1023 : ℤ) := by
          rw [show (-341 : ℤ) = -(341 : ℕ) from rfl, show (-1023 : ℤ) = -(3 * 341 : ℕ) from rfl,
            zpow_neg, zpow_neg, zpow_natCast, zpow_natCast]
          exact inv_anti₀ (pow_pos two_pos _) (eighth 341)
      _ ≤ 2 ^ (-1022 : ℤ) := zpow_le_zpow_right₀ one_le_two (by norm_num)
      _ < (10 : ℚ) ^ (digits.2 + 1) := range.normal.trans_lt (inside.1.trans_lt upper)
  omega

/-- What becomes of a number of the range: it is rounded to six digits, and these to a
`double`. -/
structure Printed (low high q : ℚ) (digits : ℕ × ℤ) : Prop where
  significant : IsSignificant 10 5 q digits
  text : tdfText (.ofRat q) = formatDigits 5 digits
  inside : significantValue 10 5 digits ∈ Set.Icc low high
  read : (atof (tdfText (.ofRat q))).HasValue (readTdf q)
  nearest : IsNearest binary64Grid (significantValue 10 5 digits) (readTdf q)
  close : |readTdf q - significantValue 10 5 digits| ≤
    significantValue 10 5 digits / (2 * 2 ^ 52)

theorem exists_printed (range : PrintRange low high) (within : q ∈ Set.Icc low high) :
    ∃ digits, Printed low high q digits := by
  obtain ⟨digits, significant, text⟩ :=
    exists_formatFloat 5 (hasValue_ofRat q) (range.positive within.1)
  have inside : significantValue 10 5 digits ∈ Set.Icc low high :=
    ⟨significant.nearest.le_of_le range.atLow.digits within.1,
      significant.nearest.ge_of_ge range.atHigh.digits within.2⟩
  obtain ⟨read, value, nearest, close⟩ :=
    atof_formatDigits significant (inside.2.trans range.small)
  have value' : (atof (tdfText (.ofRat q))).HasValue read := by rwa [tdfText, text]
  have read_eq : readTdf q = read := value'.2
  refine ⟨digits, significant, text, inside, ?_, ?_, ?_⟩
  · rwa [read_eq]
  · rwa [read_eq]
  · rw [read_eq]
    exact close (range.normal.trans inside.1)

/-- A number read back is in the range. -/
theorem readTdf_mem (range : PrintRange low high) (within : q ∈ Set.Icc low high) :
    readTdf q ∈ Set.Icc low high := by
  obtain ⟨digits, printed⟩ := range.exists_printed within
  exact ⟨printed.nearest.le_of_le range.atLow.format printed.inside.1,
    printed.nearest.ge_of_ge range.atHigh.format printed.inside.2⟩

/-- The greatest number is read back as it is. -/
theorem readTdf_high (range : PrintRange low high) (ordered : low ≤ high) :
    readTdf high = high := by
  have within : high ∈ Set.Icc low high := ⟨ordered, le_rfl⟩
  obtain ⟨digits, printed⟩ := range.exists_printed within
  exact (range.readTdf_mem within).2.antisymm (printed.nearest.le_of_le range.atHigh.format
    (printed.significant.nearest.le_of_le range.atHigh.digits le_rfl))

/-- Half a unit of the sixth digit, and half a unit of the last binary one. -/
theorem abs_readTdf_sub_le (range : PrintRange low high) (within : q ∈ Set.Icc low high) :
    |readTdf q - q| ≤ q * (6 / 10 ^ 6) := by
  obtain ⟨digits, printed⟩ := range.exists_printed within
  have positive := range.positive within.1
  have decimals := abs_le.mp printed.significant.close
  have binary := abs_le.mp printed.close
  push_cast at decimals
  rw [abs_le]
  constructor
  · linarith
  · linarith

/-- Greater numbers are not read back as smaller ones. -/
theorem readTdf_mono (range : PrintRange low high) (within : q ∈ Set.Icc low high)
    (within' : q' ∈ Set.Icc low high) (le : q ≤ q') : readTdf q ≤ readTdf q' := by
  rcases le.eq_or_lt with rfl | less
  · exact le_rfl
  · obtain ⟨digits, printed⟩ := range.exists_printed within
    obtain ⟨digits', printed'⟩ := range.exists_printed within'
    have rounded := printed.significant.nearest.mono printed'.significant.nearest less
    rcases rounded.eq_or_lt with same | apart
    · -- the same digits give the same text
      obtain rfl := significantValue_inj (by norm_num) printed.significant.atLeast
        printed.significant.below printed'.significant.atLeast printed'.significant.below same
      unfold readTdf
      rw [printed.text, printed'.text]
    · exact printed.nearest.mono printed'.nearest apart

/-- The text of a number of the range. -/
theorem tdfText_spec (range : PrintRange low high) (within : q ∈ Set.Icc low high) :
    upToNul (tdfText (.ofRat q)) = tdfText (.ofRat q) ∧ 124 ∉ tdfText (.ofRat q) ∧
      (tdfText (.ofRat q)).length ≤ 13 := by
  obtain ⟨digits, printed⟩ := range.exists_printed within
  have atLeast := printed.significant.atLeast
  have below := printed.significant.below
  rw [printed.text]
  obtain ⟨whole, noBar⟩ := tdfText_plain (isNumeral_formatDigits atLeast below).isNumeralChar
  exact ⟨whole, noBar, length_formatDigits_le atLeast below (by norm_num)
    (range.natAbs_exponent_lt atLeast below printed.inside)⟩

end PrintRange

/-- **What is lost of a factor that is printed and read back.** Between two numbers that
are printed and read back as they are, every factor is printed as a text of at most thirteen
characters without bars; the number that is read back from it lies between the two, and
within six millionths of the factor; and the numbers read back are in the order of the
factors. -/
theorem printed_tdf_read_back (low high : ℚ) (range : PrintRange low high) :
    MonotoneOn readTdf (Set.Icc low high) ∧
      ∀ (factor : LongDouble) (q : ℚ), factor.HasValue q → q ∈ Set.Icc low high →
        124 ∉ tdfText factor ∧ (tdfText factor).length ≤ 13 ∧
          (atof (upToNul (tdfText factor))).HasValue (readTdf q) ∧
          readTdf q ∈ Set.Icc low high ∧ |readTdf q - q| ≤ q * (6 / 10 ^ 6) := by
  refine ⟨fun _ within _ within' le => range.readTdf_mono within within' le, ?_⟩
  intro factor q value within
  obtain rfl := eq_ofRat_of_positive value (range.positive within.1)
  obtain ⟨whole, noBar, short⟩ := range.tdfText_spec within
  obtain ⟨digits, printed⟩ := range.exists_printed within
  rw [whole]
  exact ⟨noBar, short, printed.read, range.readTdf_mem within, range.abs_readTdf_sub_le within⟩

theorem printsExactly_natCast {n : ℕ} (small : n ≤ 10 ^ 6) : PrintsExactly n where
  digits := ⟨n, 0, Set.mem_univ _, small, by simp⟩
  format := Format.double.natCast_mem_grid (small.trans (by decide))

/-- The bounds at first. -/
theorem printRange_default : PrintRange 1 20 where
  atLow := by exact_mod_cast printsExactly_natCast (n := 1) (by norm_num)
  atHigh := by exact_mod_cast printsExactly_natCast (n := 20) (by norm_num)
  normal := by
    have below := zpow_le_zpow_right₀ (a := (2 : ℚ)) one_le_two (by norm_num : (-1022 : ℤ) ≤ 0)
    rwa [zpow_zero] at below
  small := by
    have above := pow_le_pow_right₀ (a := (2 : ℚ)) one_le_two (by norm_num : 5 ≤ 1023)
    exact le_trans (by norm_num) above

theorem printed_tdf_read_back_default :
    MonotoneOn readTdf (Set.Icc 1 20) ∧
      ∀ (factor : LongDouble) (q : ℚ), factor.HasValue q → q ∈ Set.Icc 1 20 →
        124 ∉ tdfText factor ∧ (tdfText factor).length ≤ 13 ∧
          (atof (upToNul (tdfText factor))).HasValue (readTdf q) ∧
          readTdf q ∈ Set.Icc 1 20 ∧ |readTdf q - q| ≤ q * (6 / 10 ^ 6) :=
  printed_tdf_read_back 1 20 printRange_default

/-- A third of ten is cut to six digits. -/
example : tdfText (.ofRat (10 / 3)) = ascii "3.33333" := by decide +kernel

/-! ## A cluster that prints its factors -/

section Cluster

variable {ι : Type} {site : Site ι} {low high : ℚ}

/-- The hosts print their factors like this, and their names have no bars. -/
structure Site.Prints (site : Site ι) : Prop where
  text_eq : site.text = tdfText
  isPow : IsPow site.pow
  nonempty : ∀ host, site.hostname host ≠ []
  noNul : ∀ host, 0 ∉ site.hostname host
  noBar : ∀ host, 124 ∉ site.hostname host
  shortName : ∀ host, (site.hostname host).length < 256

/-- What is read back from the text of a factor in the range. -/
theorem Site.Prints.readBack (prints : site.Prints) (range : PrintRange low high)
    {factor : LongDouble} {q : ℚ} (value : factor.HasValue q) (within : q ∈ Set.Icc low high) :
    (site.readBack factor).HasValue (readTdf q) := by
  obtain ⟨digits, printed⟩ := range.exists_printed within
  obtain rfl := eq_ofRat_of_positive value (range.positive within.1)
  rw [Site.readBack, prints.text_eq, (range.tdfText_spec within).1]
  exact printed.read

/-- **A cluster that prints its factors is regular.** -/
theorem regular_printed (prints : site.Prints) (range : PrintRange low high) :
    site.Regular low high where
  isPow := prints.isPow
  nonempty := prints.nonempty
  noNul := prints.noNul
  noBar := prints.noBar
  shortName := prints.shortName
  noBar_text := by
    intro factor q value least greatest
    obtain rfl := eq_ofRat_of_positive value (range.positive least)
    rw [prints.text_eq]
    exact (range.tdfText_spec ⟨least, greatest⟩).2.1
  shortText := by
    intro factor q value least greatest
    obtain rfl := eq_ofRat_of_positive value (range.positive least)
    rw [prints.text_eq]
    exact (range.tdfText_spec ⟨least, greatest⟩).2.2.trans_lt (by norm_num)
  readBack := by
    intro factor q value least greatest
    exact ⟨readTdf q, prints.readBack range value ⟨least, greatest⟩,
      range.readTdf_mem ⟨least, greatest⟩⟩

/-- What an agent of such a cluster has adopted: the entry of one host is the greatest of its
table, and the latest factor is within the threshold of it. -/
structure Agent.Adopts (site : Site ι) (low high threshold : ℚ) (a : Agent) (sender : ι)
    (greatest latest : ℚ) : Prop where
  entry : ∃ read : LongDouble,
    a.tdfTable.tdfMap[site.hostname sender]? = some (some ⟨read⟩) ∧ read.HasValue greatest
  mem : greatest ∈ Set.Icc low high
  isGreatest : ∀ (name : CString) (read : LongDouble) (r : ℚ),
    a.tdfTable.tdfMap[name]? = some (some ⟨read⟩) → read.HasValue r → r ≤ greatest
  latestTdf : a.tdfTable.latestTdf.HasValue latest
  near : |greatest - latest| < threshold * latest

/-- **An agent with a settled table has adopted a factor** within the threshold of the
greatest number that is read back. -/
theorem Cluster.Sound.exists_adopts {c : Cluster ι} (sound : c.Sound site low high)
    (prints : site.Prints) (range : PrintRange low high) {host : ι} {threshold : ℚ}
    (settled : (c.hosts host).agent.tdfTable.Settled (.ofRat threshold))
    {known : CString} {pointer : Option TdfEntry}
    (held : (c.hosts host).agent.tdfTable.tdfMap[known]? = some pointer) :
    ∃ sender greatest latest,
      (c.hosts host).agent.Adopts site low high threshold sender greatest latest := by
  obtain ⟨nonNull, factors, entries⟩ := sound.agent host
  obtain ⟨maxVal, maxTdf_eq, near⟩ := settled
  have nonempty : (c.hosts host).agent.tdfTable.tdfMap ≠ ∅ := by
    intro empty
    rw [empty] at held
    simp at held
  obtain ⟨maxVal', maxTdf_eq', ⟨name, entry, found, rfl⟩, least⟩ :=
    TdfTable.maxTdf_spec nonNull.tdfMap nonempty
  obtain rfl : maxVal = entry.baseTdf := Except.ok.inj (maxTdf_eq.symm.trans maxTdf_eq')
  obtain ⟨sending, member, rfl, read⟩ := entries name entry found
  obtain ⟨q, value, inside⟩ := sound.sent sending member
  have readBack := prints.readBack range value inside
  rw [← read] at readBack
  have mem := range.readTdf_mem inside
  obtain ⟨latest, latestValue, latestPositive⟩ :
      ∃ latest, (c.hosts host).agent.tdfTable.latestTdf.HasValue latest ∧ 0 < latest := by
    rcases factors.latestTdf with one | ⟨latest, value, atLeast, -⟩
    · exact ⟨1, one ▸ LongDouble.hasValue_one, one_pos⟩
    · exact ⟨latest, value, range.positive atLeast⟩
  rw [eq_ofRat_of_positive readBack (range.positive mem.1)] at near
  refine ⟨sending.1, readTdf q, latest, ⟨_, found, readBack⟩, mem, ?_, latestValue, ?_⟩
  · intro other read r found' value'
    exact not_lt.mp fun above => least _ _ found' ((readBack.lt_iff value').mpr above)
  · exact abs_sub_lt_of_gap latestPositive (eq_ofRat_of_positive latestValue latestPositive) near

variable [DecidableEq ι]

/-- The factor an agent has adopted, `latest`, beside the factors that hosts need: there is
a number within six millionths of the greatest of these, and the adopted one is within the
threshold of that number. -/
structure TracksGreatest (threshold latest : ℚ) (needed : ι → ℚ) : Prop where
  exists_greatest : ∃ r, (∃ sender, |r - needed sender| ≤ needed sender * (6 / 10 ^ 6)) ∧
    (∀ sender, needed sender - needed sender * (6 / 10 ^ 6) ≤ r) ∧
    |r - latest| < threshold * latest

/-- **An agent follows the greatest factor that a host of the cluster needs.** From every
state of a cluster whose hosts print their factors, whatever the network does: when an
agent with an enabled table has received broadcasts of every host, of which the last were
of some factors, then the factor it has adopted is within the threshold of a number that is
the greatest of these but for six millionths. -/
theorem cluster_tracks_greatest (site : Site ι) (low high : ℚ) (prints : site.Prints)
    (range : PrintRange low high) (named : Function.Injective site.hostname)
    (created : ι → HostReading) (memory : ι → Buffer maxLength)
    (before after : List (ClusterAction ι))
    (restrained : Meets (clusterStep site) (Restrained low high)
      (Cluster.initial created memory) (before ++ after))
    (c next : Cluster ι)
    (ranBefore : run (clusterStep site) (Cluster.initial created memory) before = some c)
    (ranAfter : run (clusterStep site) c after = some next) (host : ι) (threshold : ℚ)
    (positive : 0 < threshold)
    (ready : (c.hosts host).agent.tdfTable.isTableEnabled = true ∧
      (c.hosts host).agent.configuration.tdfChangeThreshold = .ofRat threshold ∧
      ∀ action ∈ after, CommandsElsewhere host action)
    (needed : ι → ℚ)
    (last : ∀ sender, ∃ sending, lastOf sender (deliveredTo next.sent host after) = some sending ∧
      sending.2.HasValue (needed sender)) :
    ∃ latest, (next.hosts host).agent.tdfTable.latestTdf.HasValue latest ∧
      TracksGreatest threshold latest needed := by
  have regular := regular_printed prints range
  obtain ⟨restrainedBefore, restrainedAfter⟩ := (meets_append ranBefore).mp restrained
  have sound : c.Sound site low high :=
    Cluster.Sound.of_run (.initial created memory) regular restrainedBefore ranBefore
  have soundNext := sound.of_run regular restrainedAfter ranAfter
  obtain ⟨ownSending, ownLast, -⟩ := last host
  obtain ⟨follows, settled⟩ := settled_of_run sound regular
    (LongDouble.positive_ofRat.mpr positive) ready restrainedAfter ranAfter ⟨_, _, ownLast⟩
  -- the entry of each host is read back from its last factor
  have entries : ∀ sender, needed sender ∈ Set.Icc low high ∧
      ∃ read : LongDouble, read.HasValue (readTdf (needed sender)) ∧
        (next.hosts host).agent.tdfTable.tdfMap[site.hostname sender]? = some (some ⟨read⟩) := by
    intro sender
    obtain ⟨sending, lastSending, value⟩ := last sender
    have member : sending ∈ next.sent :=
      mem_sent_of_mem_deliveredTo (List.mem_filter.mp (List.mem_of_getLast? lastSending)).1
    obtain ⟨q, value', least, most⟩ := soundNext.sent sending member
    obtain rfl := (value'.iff_eq).mp value
    exact ⟨⟨least, most⟩, _, prints.readBack range value ⟨least, most⟩,
      tdfMap_of_host named follows lastSending⟩
  obtain ⟨-, ownRead, -, held⟩ := entries host
  obtain ⟨sender, greatest, latest, adopts⟩ :=
    soundNext.exists_adopts prints range settled held
  obtain ⟨read, found, value⟩ := adopts.entry
  obtain ⟨within, read', value', found'⟩ := entries sender
  cases found.symm.trans found'
  obtain rfl : greatest = readTdf (needed sender) := value.iff_eq.mp value'
  refine ⟨latest, adopts.latestTdf, readTdf (needed sender), ⟨sender, ?_⟩, ?_, adopts.near⟩
  · exact range.abs_readTdf_sub_le within
  · intro other
    obtain ⟨within', read', value', found''⟩ := entries other
    have notAbove := adopts.isGreatest _ _ _ found'' value'
    have close := (abs_le.mp (range.abs_readTdf_sub_le within')).1
    linarith

end Cluster

/-- Two hosts that print their factors. -/
def printingHosts : Site Bool := { twoHosts with text := tdfText }

theorem prints_printingHosts : printingHosts.Prints where
  text_eq := rfl
  isPow := isPow_integerPow
  nonempty := by decide
  noNul := by decide
  noBar := by decide
  shortName := by decide

/-- The second host is busier than its target. Its factor has more than six digits, and
reaches the first host twice. -/
def printedExchange : List (ClusterAction Bool) :=
  [.iteration false ⟨1 / 3, 0, 0, 0⟩, .iteration true ⟨1, 0, 0, 0⟩, .deliver true 1,
    .deliver true 0, .deliver true 0]

/-- What the hosts need then. -/
def printedNeeds (host : Bool) : ℚ := if host then 1 else 43 / 27

theorem cluster_tracks_greatest_printed :
    ∃ c next, run (clusterStep printingHosts)
        (Cluster.initial (fun _ => ⟨0, 0⟩) fun _ => Buffer.zeros maxLength) enableBoth = some c ∧
      run (clusterStep printingHosts) c printedExchange = some next ∧
      ∃ latest, (next.hosts true).agent.tdfTable.latestTdf.HasValue latest ∧
        TracksGreatest ({} : Configuration).tdfChangeThreshold.toRat latest printedNeeds := by
  obtain ⟨c, ranBefore, ready, goesOn⟩ :
      ∃ c, run (clusterStep printingHosts)
        (Cluster.initial (fun _ => ⟨0, 0⟩) fun _ => Buffer.zeros maxLength) enableBoth = some c ∧
      ((c.hosts true).agent.tdfTable.isTableEnabled = true ∧
        (c.hosts true).agent.configuration.tdfChangeThreshold =
          .ofRat ({} : Configuration).tdfChangeThreshold.toRat) ∧
      (run (clusterStep printingHosts) c printedExchange).any (fun next =>
        decide (∀ sender, (lastOf sender (deliveredTo next.sent true printedExchange)).any
          (fun sending => decide (sending.2.HasValue (printedNeeds sender))) = true)) = true := by
    apply exists_of_any
    decide +kernel
  obtain ⟨next, ranAfter, last⟩ := exists_of_any goesOn
  refine ⟨c, next, ranBefore, ranAfter, cluster_tracks_greatest printingHosts 1 20
    prints_printingHosts printRange_default (by decide) _ _ enableBoth printedExchange
    (by decide +kernel) c next ranBefore ranAfter true _ (by decide +kernel)
    ⟨ready.1, ready.2, by simp [printedExchange, CommandsElsewhere]⟩ printedNeeds ?_⟩
  intro sender
  exact exists_of_any (last sender)

end VirtualAgent
