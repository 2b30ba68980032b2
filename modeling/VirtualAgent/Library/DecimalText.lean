import VirtualAgent.Library.CText
import VirtualAgent.Library.FloatFormat

/-!
# Numbers printed with a precision

`formatFloat` prints a floating-point number with its first `p + 1` digits, as the
conversion `%g` of C and the output of C++ streams do: with a point where the exponent is
small, and with an exponent of ten otherwise, and without zeros at the end behind the
point.

The printed digits of a positive number are those of the nearest number that has no more
(`exists_formatFloat`). Their text is a numeral, which has no other characters
(`IsNumeral.isNumeralChar`), and the number of the digits is read from it, rounded to the
64-bit format (`IsNumeral.strtod_eq`, `atof_formatDigits`).
-/

set_option autoImplicit false

namespace CText

open ExactFloat Rounding

/-! ## Printing -/

/-- What is printed behind the point, of digits with a point behind the first `k`. -/
def fractionOf (k : ℕ) (digits : CString) : CString := (digits.drop k).rdropWhile (· == 48)

/-- Digits with a point behind the first `k`, if any is left behind it. -/
def pointed (k : ℕ) (digits : CString) : CString :=
  digits.take k ++ if fractionOf k digits = [] then [] else 46 :: fractionOf k digits

/-- An exponent of ten, with its sign and at least two digits. -/
def exponentText (e : ℤ) : CString :=
  101 :: (if e < 0 then 45 else 43) ::
    if e.natAbs < 10 then 48 :: decimal e.natAbs else decimal e.natAbs

/-- The text of digits and the exponent of the first of them. -/
def formatDigits (p : ℕ) (digits : ℕ × ℤ) : CString :=
  if digits.2 < -4 ∨ p < digits.2 then pointed 1 (decimal digits.1) ++ exponentText digits.2
  else if 0 ≤ digits.2 then pointed (digits.2.toNat + 1) (decimal digits.1)
  else pointed 1 (List.replicate (-digits.2).toNat 48 ++ decimal digits.1)

/-- A sign, where it is negative. -/
def signText (negative : Bool) : CString := if negative then [45] else []

/-- The conversion `%g` with the precision `p + 1`. -/
def formatFloat (p : ℕ) : LongDouble → CString
  | .nan => ascii "nan"
  | .infinite negative => signText negative ++ ascii "inf"
  | .finite negative magnitude =>
      signText negative ++
        if magnitude = 0 then [48]
        else formatDigits p (significant 10 p magnitude.num magnitude.den)

/-! ## Values of digits -/

theorem digitsValue_append (base : ℕ) (first second : CString) :
    digitsValue base (first ++ second) =
      digitsValue base first * base ^ second.length + digitsValue base second := by
  have step : ∀ (text : CString) (value : ℕ),
      text.foldl (fun value c => value * base + digitValue c) value =
        value * base ^ text.length + digitsValue base text := by
    intro text
    induction text with
    | nil =>
        intro value
        simp [digitsValue]
    | cons c text ih =>
        intro value
        rw [digitsValue, List.foldl_cons, List.foldl_cons, ih, ih (0 * base + digitValue c),
          List.length_cons, pow_succ]
        ring
  rw [digitsValue, List.foldl_append]
  exact step second _

theorem digitsValue_zeros (base : ℕ) {zeros : CString} (all : ∀ c ∈ zeros, c = 48) :
    digitsValue base zeros = 0 := by
  induction zeros with
  | nil => rfl
  | cons c zeros ih =>
      rw [List.forall_mem_cons] at all
      rw [← List.singleton_append, digitsValue_append, ih all.2, all.1]
      simp [digitsValue, digitValue, isDigit]

theorem length_decimal {n p : ℕ} (atLeast : 10 ^ p ≤ n) (below : n < 10 ^ (p + 1)) :
    (decimal n).length = p + 1 := by
  have short := (length_decimal_le p.succ_pos).mpr below
  have nonempty := List.length_pos_of_ne_nil (decimal_ne_nil n)
  rcases Nat.eq_zero_or_pos p with rfl | positive
  · omega
  · have long := mt (length_decimal_le positive).mp (not_lt.mpr atLeast)
    omega

/-- The zeros that are not printed stand for a power of ten. -/
theorem digitsValue_fraction (k : ℕ) (digits : CString) :
    (digitsValue 10 (digits.take k ++ fractionOf k digits) : ℚ) /
        10 ^ (fractionOf k digits).length =
      digitsValue 10 digits / 10 ^ (digits.length - k) := by
  let zeros := (digits.drop k).rtakeWhile (· == 48)
  have behind : fractionOf k digits ++ zeros = digits.drop k := List.rdropWhile_append_rtakeWhile
  have length_eq : (fractionOf k digits).length + zeros.length = digits.length - k := by
    rw [← List.length_append, behind, List.length_drop]
  have zero : digitsValue 10 zeros = 0 :=
    digitsValue_zeros 10 fun c member => by simpa using List.mem_rtakeWhile_imp member
  have whole : digitsValue 10 digits =
      digitsValue 10 (digits.take k ++ fractionOf k digits) * 10 ^ zeros.length := by
    conv_lhs => rw [← List.take_append_drop k digits, ← behind, ← List.append_assoc,
      digitsValue_append, zero, add_zero]
  rw [whole, ← length_eq, pow_add]
  push_cast
  rw [mul_div_mul_right _ _ (by positivity)]

/-! ## Reading a text of digits -/

/-- Scanning a mantissa stops where it ends. -/
theorem takeMantissa_pointed {k : ℕ} {digits rest : CString}
    (decimals : ∀ c ∈ digits, isDigit c = true)
    (ended : ∀ c ∈ rest.head?, isDigit c = false ∧ c ≠ 46) :
    takeMantissa isDigit (pointed k digits ++ rest) =
      (digits.take k, fractionOf k digits, rest) := by
  have wholes : ∀ c ∈ digits.take k, isDigit c = true :=
    fun c member => decimals c (List.mem_of_mem_take member)
  have fractions : ∀ c ∈ fractionOf k digits, isDigit c = true := fun c member =>
    decimals c (List.mem_of_mem_drop ((List.rdropWhile_prefix _ _).subset member))
  have ended' : ∀ c ∈ rest.head?, isDigit c = false := fun c found => (ended c found).1
  unfold pointed takeMantissa
  by_cases none : fractionOf k digits = []
  · obtain ⟨taken, dropped⟩ := scan_digits wholes ended'
    rw [if_pos none, List.append_nil, taken, dropped, none]
    cases rest with
    | nil => rfl
    | cons c rest =>
        have notPoint := (ended c rfl).2
        dsimp only
        split
        · rename_i same
          cases same
          exact absurd rfl notPoint
        · rfl
  · have atPoint : ∀ c ∈ (46 :: (fractionOf k digits ++ rest)).head?, isDigit c = false := by
      intro c found
      cases found
      decide
    obtain ⟨taken, dropped⟩ := scan_digits wholes atPoint
    obtain ⟨taken', dropped'⟩ := scan_digits fractions ended'
    rw [if_neg none, List.append_assoc, List.cons_append, taken, dropped]
    change (_, (fractionOf k digits ++ rest).takeWhile isDigit, _) = _
    rw [taken', dropped']

/-- **The exponent is read back.** -/
theorem takeExponent_exponentText (e : ℤ) : takeExponent 101 (exponentText e) = e := by
  let digits := if e.natAbs < 10 then 48 :: decimal e.natAbs else decimal e.natAbs
  have value : digitsValue 10 (digits.takeWhile isDigit) = e.natAbs := by
    have decimals : ∀ c ∈ digits, isDigit c = true := by
      have own : ∀ c ∈ decimal e.natAbs, isDigit c = true := fun _ => isDigit_of_mem_decimal
      intro c member
      by_cases short : e.natAbs < 10
      · rw [show digits = 48 :: decimal e.natAbs from if_pos short, List.mem_cons] at member
        rcases member with rfl | member
        · decide
        · exact own c member
      · rw [show digits = decimal e.natAbs from if_neg short] at member
        exact own c member
    rw [List.takeWhile_eq_self_iff.mpr decimals]
    by_cases short : e.natAbs < 10
    · rw [show digits = [48] ++ decimal e.natAbs from if_pos short, digitsValue_append,
        digitsValue_decimal]
      simp [digitsValue, digitValue, isDigit]
    · rw [show digits = decimal e.natAbs from if_neg short, digitsValue_decimal]
  have mark : (toLower 101 == 101) = true := by decide
  unfold exponentText takeExponent
  dsimp only
  rw [if_pos mark]
  by_cases below : e < 0
  · rw [if_pos below]
    change -(digitsValue 10 (digits.takeWhile isDigit) : ℤ) = e
    omega
  · rw [if_neg below]
    change (digitsValue 10 (digits.takeWhile isDigit) : ℤ) = e
    omega

/-! ## The layouts -/

/-- A text of digits with a point and perhaps an exponent, and the number it stands for. -/
structure IsNumeral (text : CString) (value : ℚ) : Prop where
  exists_layout : ∃ (k : ℕ) (digits rest : CString), text = pointed k digits ++ rest ∧ 0 < k ∧
    digits ≠ [] ∧ (∀ c ∈ digits, isDigit c = true) ∧ (rest = [] ∨ ∃ e, rest = exponentText e) ∧
    value = (digitsValue 10 digits : ℚ) / 10 ^ (digits.length - k) *
      10 ^ takeExponent 101 rest

/-- **What is printed for digits stands for their number.** -/
theorem isNumeral_formatDigits {p : ℕ} {digits : ℕ × ℤ} (atLeast : 10 ^ p ≤ digits.1)
    (below : digits.1 < 10 ^ (p + 1)) :
    IsNumeral (formatDigits p digits) (significantValue 10 p digits) := by
  have decimals : ∀ c ∈ decimal digits.1, isDigit c = true := fun _ => isDigit_of_mem_decimal
  have nonempty := decimal_ne_nil digits.1
  have length_eq := length_decimal atLeast below
  have value := digitsValue_decimal digits.1
  have shifted : ∀ k e : ℤ, k + e = digits.2 - p →
      significantValue 10 p digits = (digits.1 : ℚ) * 10 ^ k * 10 ^ e := by
    intro k e total
    rw [mul_assoc, ← zpow_add₀ (by norm_num), total]
    rfl
  have quotient : ∀ n k : ℕ, (n : ℚ) / 10 ^ k = n * 10 ^ (-(k : ℤ)) := by
    intro n k
    rw [zpow_neg, zpow_natCast, div_eq_mul_inv]
  unfold formatDigits
  split
  case isTrue =>
    refine ⟨1, decimal digits.1, exponentText digits.2, rfl, one_pos, nonempty, decimals,
      Or.inr ⟨_, rfl⟩, ?_⟩
    rw [takeExponent_exponentText, length_eq, value, quotient]
    exact shifted _ _ (by omega)
  case isFalse moderate =>
    rw [not_or, not_lt, not_lt] at moderate
    split
    case isTrue nonneg =>
      refine ⟨digits.2.toNat + 1, decimal digits.1, [], (List.append_nil _).symm, Nat.succ_pos _,
        nonempty, decimals, Or.inl rfl, ?_⟩
      rw [length_eq, value, quotient]
      exact shifted _ 0 (by omega)
    case isFalse negative =>
      refine ⟨1, _, [], (List.append_nil _).symm, one_pos, ?_, ?_, Or.inl rfl, ?_⟩
      · exact List.append_ne_nil_of_right_ne_nil _ nonempty
      · intro c member
        rcases List.mem_append.mp member with zero | digit
        · rw [List.eq_of_mem_replicate zero]
          decide
        · exact decimals c digit
      · rw [digitsValue_append, digitsValue_zeros 10 fun c => List.eq_of_mem_replicate,
          zero_mul, zero_add, List.length_append, List.length_replicate, length_eq, value, quotient]
        exact shifted _ 0 (by omega)

/-! ## Numerals -/

/-- A character of a numeral. -/
def isNumeralChar (c : UInt8) : Bool := isDigit c || c == 46 || c == 101 || c == 43 || c == 45

theorem isNumeralChar_of_isDigit {c : UInt8} (digit : isDigit c = true) :
    isNumeralChar c = true := by
  simp [isNumeralChar, digit]

/-- A numeral has no capital letters. -/
theorem toLower_of_isNumeralChar {c : UInt8} (numeral : isNumeralChar c = true) :
    toLower c = c := by
  unfold toLower
  refine if_neg ?_
  simp only [isNumeralChar, isDigit, Bool.or_eq_true, Bool.and_eq_true, decide_eq_true_eq,
    beq_iff_eq, UInt8.le_iff_toNat_le, ← UInt8.toNat_inj, UInt8.reduceToNat] at numeral ⊢
  omega

theorem isNumeralChar_exponentText (e : ℤ) : ∀ c ∈ exponentText e, isNumeralChar c = true := by
  have decimals : ∀ c ∈ decimal e.natAbs, isNumeralChar c = true :=
    fun _ member => isNumeralChar_of_isDigit (isDigit_of_mem_decimal member)
  unfold exponentText
  rw [List.forall_mem_cons, List.forall_mem_cons]
  refine ⟨by decide, ?_, ?_⟩
  · split
    · decide
    · decide
  · split
    · rw [List.forall_mem_cons]
      exact ⟨by decide, decimals⟩
    · exact decimals

theorem isNumeralChar_pointed {k : ℕ} {digits : CString}
    (decimals : ∀ c ∈ digits, isDigit c = true) :
    ∀ c ∈ pointed k digits, isNumeralChar c = true := by
  intro c member
  rcases List.mem_append.mp member with whole | behind
  · exact isNumeralChar_of_isDigit (decimals c (List.mem_of_mem_take whole))
  · split at behind
    · cases behind
    · rcases List.mem_cons.mp behind with rfl | fraction
      · decide
      · exact isNumeralChar_of_isDigit
          (decimals c (List.mem_of_mem_drop ((List.rdropWhile_prefix _ _).subset fraction)))

namespace IsNumeral

variable {text : CString} {value : ℚ}

theorem isNumeralChar (numeral : IsNumeral text value) :
    ∀ c ∈ text, isNumeralChar c = true := by
  obtain ⟨k, digits, rest, rfl, -, -, decimals, tail, -⟩ := numeral.exists_layout
  intro c member
  rcases List.mem_append.mp member with mantissa | exponent
  · exact isNumeralChar_pointed decimals c mantissa
  · rcases tail with rfl | ⟨e, rfl⟩
    · cases exponent
    · exact isNumeralChar_exponentText e c exponent

/-- A numeral begins with a digit. -/
theorem exists_cons (numeral : IsNumeral text value) :
    ∃ c rest, text = c :: rest ∧ isDigit c = true := by
  obtain ⟨k, digits, rest, rfl, positive, nonempty, decimals, -, -⟩ := numeral.exists_layout
  obtain ⟨c, digits, rfl⟩ := List.exists_cons_of_ne_nil nonempty
  obtain ⟨k, rfl⟩ := Nat.exists_eq_add_of_lt positive
  exact ⟨c, _, rfl, decimals c List.mem_cons_self⟩

/-- A numeral does not begin with a word that has another character. -/
theorem startsWith_eq_false (numeral : IsNumeral text value) {word : String}
    (letter : ∃ c, c ∈ ascii word ∧ CText.isNumeralChar c = false) :
    startsWith word text = false := by
  obtain ⟨c, member, other⟩ := letter
  by_contra starts
  rw [Bool.not_eq_false, startsWith, List.isPrefixOf_iff_prefix] at starts
  obtain ⟨d, inside, rfl⟩ := List.mem_map.mp (starts.subset member)
  have allowed := numeral.isNumeralChar d inside
  rw [toLower_of_isNumeralChar allowed, allowed] at other
  cases other

/-- **A numeral is read as the number it stands for**, rounded to the 64-bit format. -/
theorem strtod_eq (numeral : IsNumeral text value) (negative : Bool) :
    ∃ n d : ℕ, 0 < d ∧ value = (n : ℚ) / d ∧
      strtod (signText negative ++ text) = LongDouble.binary64 negative n d := by
  obtain ⟨first, others, begins, digit⟩ := numeral.exists_cons
  have blank : (signText negative ++ text).dropWhile isSpace = signText negative ++ text := by
    cases negative with
    | true => rfl
    | false =>
        rw [begins]
        exact List.dropWhile_cons_of_neg (by rw [isSpace_eq_false_of_isDigit digit]; decide)
  have signed : takeSign (signText negative ++ text) = (negative, text) := by
    cases negative with
    | true => rfl
    | false =>
        have notMinus : ¬ first = 45 := by
          rintro rfl
          exact absurd digit (by decide)
        have notPlus : ¬ first = 43 := by
          rintro rfl
          exact absurd digit (by decide)
        simp only [signText, Bool.false_eq_true, if_false, List.nil_append, begins, takeSign,
          beq_iff_eq, if_neg notMinus, if_neg notPlus]
  have noInf : startsWith "inf" text = false := numeral.startsWith_eq_false ⟨105, by decide⟩
  have noNan : startsWith "nan" text = false := numeral.startsWith_eq_false ⟨110, by decide⟩
  have noHex : startsWith "0x" text = false := numeral.startsWith_eq_false ⟨120, by decide⟩
  obtain ⟨k, digits, rest, rfl, positive, nonempty, decimals, tail, value_eq⟩ :=
    numeral.exists_layout
  have ended : ∀ c ∈ rest.head?, isDigit c = false ∧ c ≠ 46 := by
    rcases tail with rfl | ⟨e, rfl⟩
    · intro c found
      cases found
    · intro c found
      cases found
      decide
  have wholes : digits.take k ≠ [] := by
    rw [ne_eq, List.take_eq_nil_iff, not_or]
    exact ⟨positive.ne', nonempty⟩
  have filled : (digits.take k ++ fractionOf k digits).isEmpty = false := by
    rw [List.isEmpty_eq_false_iff]
    exact List.append_ne_nil_of_left_ne_nil wholes _
  let exponent := takeExponent 101 rest
  refine ⟨digitsValue 10 (digits.take k ++ fractionOf k digits) * 10 ^ exponent.toNat,
    10 ^ (fractionOf k digits).length * 10 ^ (-exponent).toNat, by positivity, ?_, ?_⟩
  · have turned := div_zpow_eq (by norm_num : 0 < 10)
      (digitsValue 10 (digits.take k ++ fractionOf k digits)) (10 ^ (fractionOf k digits).length)
      (-exponent)
    rw [neg_neg] at turned
    rw [turned, value_eq, ← digitsValue_fraction, zpow_neg, div_inv_eq_mul]
    push_cast
    rfl
  · unfold strtod
    rw [blank, signed]
    dsimp only
    rw [noInf, noNan, noHex, takeMantissa_pointed decimals ended]
    simp only [Bool.false_and, Bool.false_eq_true, if_false, filled]
    rfl

end IsNumeral

/-! ## Positive numbers -/

theorem length_pointed_le (k : ℕ) (digits : CString) :
    (pointed k digits).length ≤ digits.length + 1 := by
  have shorter : (fractionOf k digits).length ≤ digits.length - k := by
    rw [← List.length_drop]
    exact (List.rdropWhile_prefix _ _).length_le
  unfold pointed
  rw [List.length_append, List.length_take]
  split
  · rw [List.length_nil]
    omega
  · rename_i behind
    have some := List.length_pos_of_ne_nil behind
    rw [List.length_cons]
    omega

/-- The text of digits is short when the exponent is. -/
theorem length_formatDigits_le {p width : ℕ} {digits : ℕ × ℤ} (atLeast : 10 ^ p ≤ digits.1)
    (below : digits.1 < 10 ^ (p + 1)) (positive : 0 < width)
    (small : digits.2.natAbs < 10 ^ width) : (formatDigits p digits).length ≤ p + width + 5 := by
  have length_eq := length_decimal atLeast below
  have exponent := (length_decimal_le positive).mpr small
  have mantissa : ∀ k, (pointed k (decimal digits.1)).length ≤ p + 2 := by
    intro k
    have bounded := length_pointed_le k (decimal digits.1)
    omega
  unfold formatDigits
  split
  · have tail : (exponentText digits.2).length ≤ width + 3 := by
      unfold exponentText
      rw [List.length_cons, List.length_cons]
      split
      · rw [List.length_cons]
        omega
      · omega
    have front := mantissa 1
    rw [List.length_append]
    omega
  · rename_i moderate
    split
    · have front := mantissa (digits.2.toNat + 1)
      omega
    · have front := length_pointed_le 1 (List.replicate (-digits.2).toNat 48 ++ decimal digits.1)
      rw [List.length_append, List.length_replicate] at front
      omega

/-- **A positive number is printed as the nearest one that has no more digits.** -/
theorem exists_formatFloat (p : ℕ) {x : LongDouble} {q : ℚ} (value : x.HasValue q)
    (positive : 0 < q) :
    ∃ digits, IsSignificant 10 p q digits ∧ formatFloat p x = formatDigits p digits := by
  obtain ⟨negative, magnitude, rfl, rfl⟩ := value.exists_finite
  cases negative with
  | true =>
      have nonneg : (0 : ℚ) ≤ magnitude := magnitude.2
      simp only [LongDouble.signed, if_true] at positive
      linarith
  | false =>
      have positive' : (0 : ℚ) < magnitude := positive
      have nonzero : magnitude ≠ 0 := by
        rintro rfl
        simp at positive'
      have quotient : LongDouble.signed false magnitude = (magnitude.num : ℚ) / magnitude.den := by
        calc (magnitude : ℚ) = ((magnitude.num / magnitude.den : ℚ≥0) : ℚ) := by
              rw [NNRat.num_div_den]
          _ = (magnitude.num : ℚ) / magnitude.den := by
              rw [NNRat.cast_div, NNRat.cast_natCast, NNRat.cast_natCast]
      refine ⟨significant 10 p magnitude.num magnitude.den, ?_, ?_⟩
      · rw [quotient]
        exact significant_spec p (by norm_num) (NNRat.num_pos.mpr (pos_iff_ne_zero.mpr nonzero))
          magnitude.den_pos
      · rw [formatFloat, if_neg nonzero]
        rfl

/-- **What is printed for digits is read as their number**, rounded to the 64-bit format. -/
theorem atof_formatDigits {p : ℕ} {q : ℚ} {digits : ℕ × ℤ}
    (significant : IsSignificant 10 p q digits)
    (small : significantValue 10 p digits ≤ 2 ^ 1023) :
    ∃ read, (atof (formatDigits p digits)).HasValue read ∧
      IsNearest binary64Grid (significantValue 10 p digits) read ∧
      ((2 : ℚ) ^ (-1022 : ℤ) ≤ significantValue 10 p digits →
        |read - significantValue 10 p digits| ≤ significantValue 10 p digits / (2 * 2 ^ 52)) := by
  have numeral := isNumeral_formatDigits significant.atLeast significant.below
  obtain ⟨n, d, positive', value_eq, read_eq⟩ := numeral.strtod_eq false
  have positive : (0 : ℚ) < significantValue 10 p digits := by
    have some : (0 : ℚ) < digits.1 := by
      exact_mod_cast (Nat.pow_pos (by norm_num)).trans_le significant.atLeast
    exact mul_pos some (zpow_pos (by norm_num) _)
  have numerator : 0 < n := by
    rcases Nat.eq_zero_or_pos n with rfl | positive
    · rw [value_eq] at positive
      simp at positive
    · exact positive
  rw [value_eq] at small
  obtain ⟨magnitude, read, nearest, close⟩ := binary64_spec false numerator positive' small
  rw [value_eq]
  refine ⟨magnitude, ?_, nearest, close⟩
  rw [atof, show formatDigits p digits = signText false ++ formatDigits p digits from rfl, read_eq,
    read]
  exact ⟨rfl, rfl⟩

end CText
