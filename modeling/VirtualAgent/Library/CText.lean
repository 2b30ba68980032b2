import VirtualAgent.Library.ExactFloat
import Mathlib.Data.List.TakeWhile
import Mathlib.Data.List.DropRight
import Mathlib.Data.UInt

/-!
# Byte strings and the C conversions

A string is a list of bytes. `strtol`, `atoi`, `atoll` and `atof` read a number
from the longest prefix that has the form of one, after leading blanks, and
return zero when there is none: there is no error to observe. `strtol` saturates
at the bounds of 64 bits, `atoi` keeps the low 32 bits of its result.

`formatLong` writes a number in decimal with blanks before it. What it writes is read
back as the number (`digitsValue_decimal`, `strtol_of_digits`).

`splitCompress` divides a string at the maximal runs of separators. A run at
either end leaves an empty field there, so the result is never empty
(`splitCompress_ne_nil`). No field has a separator in it (`eq_false_of_mem_splitCompress`),
and what words without one are joined to is divided into the words again
(`splitCompress_joined`). `trim` removes the blanks at both ends.
-/

set_option autoImplicit false

namespace CText

open ExactFloat

/-- A string, as its bytes. -/
abbrev CString := List UInt8

/-- The bytes of an ASCII text. -/
def ascii (text : String) : CString := text.toList.map fun c => c.toNat.toUInt8

/-! ## Characters -/

def isSpace (c : UInt8) : Bool := c == 32 || (9 ≤ c && c ≤ 13)

def isDigit (c : UInt8) : Bool := 48 ≤ c && c ≤ 57

def toLower (c : UInt8) : UInt8 := if 65 ≤ c && c ≤ 90 then c + 32 else c

def isHexDigit (c : UInt8) : Bool := isDigit c || (97 ≤ toLower c && toLower c ≤ 102)

/-- The value of a decimal or hexadecimal digit. -/
def digitValue (c : UInt8) : ℕ :=
  if isDigit c then c.toNat - 48 else (toLower c).toNat - 87

/-- The value of a list of digits. -/
def digitsValue (base : ℕ) (digits : CString) : ℕ :=
  digits.foldl (fun value c => value * base + digitValue c) 0

/-- An optional sign and what follows it. -/
def takeSign : CString → Bool × CString
  | c :: rest =>
      if c == 45 then (true, rest) else if c == 43 then (false, rest) else (false, c :: rest)
  | [] => (false, [])

/-! ## Integers -/

/-- The long integer a text starts with, saturated at the bounds of 64 bits. -/
def strtol (text : CString) : ℤ :=
  let (negative, rest) := takeSign (text.dropWhile isSpace)
  let magnitude : ℤ := digitsValue 10 (rest.takeWhile isDigit)
  if negative then max (-2 ^ 63) (-magnitude) else min (2 ^ 63 - 1) magnitude

/-- The long result cut to an `int`. -/
def atoi (text : CString) : ℤ := (strtol text).bmod (2 ^ 32)

/-- The conversion to `long long`. -/
def atoll (text : CString) : ℤ := strtol text

/-! ## Decimal output -/

/-- The decimal digits of a number. -/
def decimal (n : ℕ) : CString := (Nat.toDigits 10 n).map fun c => c.toNat.toUInt8

/-- The decimal digits, with blanks before them up to a width. -/
def formatLong (width n : ℕ) : CString :=
  List.replicate (width - (decimal n).length) 32 ++ decimal n

theorem isDigit_iff {c : UInt8} : isDigit c = true ↔ 48 ≤ c.toNat ∧ c.toNat ≤ 57 := by
  simp [isDigit, UInt8.le_iff_toNat_le]

/-- A digit character and its byte. -/
theorem toNat_of_isDigit {c : Char} (digit : c.isDigit = true) :
    48 ≤ c.toNat ∧ c.toNat ≤ 57 ∧ c.toNat.toUInt8.toNat = c.toNat := by
  have range : 48 ≤ c.toNat ∧ c.toNat ≤ 57 := by
    simpa [Char.isDigit, UInt32.le_iff_toNat_le] using digit
  refine ⟨range.1, range.2, ?_⟩
  rw [Nat.toUInt8_eq, UInt8.toNat_ofNat']
  omega

theorem isDigit_of_mem_decimal {n : ℕ} {c : UInt8} (member : c ∈ decimal n) :
    isDigit c = true := by
  obtain ⟨digit, inside, rfl⟩ := List.mem_map.mp member
  obtain ⟨low, high, same⟩ :=
    toNat_of_isDigit (Nat.isDigit_of_mem_toDigits (by decide) (by decide) inside)
  rw [isDigit_iff, same]
  exact ⟨low, high⟩

theorem decimal_ne_nil (n : ℕ) : decimal n ≠ [] := by
  unfold decimal
  rw [ne_eq, List.map_eq_nil_iff]
  exact Nat.toDigits_ne_nil

theorem length_decimal_le {n width : ℕ} (positive : 0 < width) :
    (decimal n).length ≤ width ↔ n < 10 ^ width := by
  unfold decimal
  rw [List.length_map]
  exact Nat.length_toDigits_le_iff (by decide) positive

theorem length_formatLong {width n : ℕ} (positive : 0 < width) (fits : n < 10 ^ width) :
    (formatLong width n).length = width := by
  have short := (length_decimal_le positive).mpr fits
  unfold formatLong
  rw [List.length_append, List.length_replicate]
  omega

/-- **The digits written for a number denote it.** -/
theorem digitsValue_decimal (n : ℕ) : digitsValue 10 (decimal n) = n := by
  have digits : ∀ c ∈ Nat.toDigits 10 n, c.isDigit = true :=
    fun c member => Nat.isDigit_of_mem_toDigits (by decide) (by decide) member
  have step : ∀ (text : List Char) (value : ℕ), (∀ c ∈ text, c.isDigit = true) →
      (text.map fun c => c.toNat.toUInt8).foldl (fun value c => value * 10 + digitValue c) value =
        Nat.ofDigitChars 10 text value := by
    intro text
    induction text with
    | nil => intro value _; rfl
    | cons c text ih =>
        intro value allDigits
        obtain ⟨low, high, same⟩ := toNat_of_isDigit (allDigits c List.mem_cons_self)
        have isDigitByte : isDigit c.toNat.toUInt8 = true := by
          rw [isDigit_iff, same]
          exact ⟨low, high⟩
        rw [List.map_cons, List.foldl_cons,
          ih _ fun other member => allDigits other (List.mem_cons_of_mem _ member),
          Nat.ofDigitChars_cons]
        congr 1
        rw [digitValue, if_pos isDigitByte, same, Nat.mul_comm]
        rfl
  calc digitsValue 10 (decimal n)
      = Nat.ofDigitChars 10 (Nat.toDigits 10 n) 0 := step _ 0 digits
    _ = n := Nat.ofDigitChars_ten_toDigits

/-! ## Reading a number back -/

theorem isSpace_eq_false_of_isDigit {c : UInt8} (digit : isDigit c = true) :
    isSpace c = false := by
  obtain ⟨low, high⟩ := isDigit_iff.mp digit
  simp only [isSpace, Bool.or_eq_false_iff, Bool.and_eq_false_iff, beq_eq_false_iff_ne, ne_eq,
    decide_eq_false_iff_not, UInt8.le_iff_toNat_le, ← UInt8.toNat_inj, UInt8.reduceToNat]
  omega

theorem isDigit_eq_false_of_isSpace {c : UInt8} (blank : isSpace c = true) :
    isDigit c = false := by
  by_contra digit
  rw [isSpace_eq_false_of_isDigit (Bool.not_eq_false _ ▸ digit)] at blank
  cases blank

/-- Scanning stops behind the digits. -/
theorem scan_digits {digits trailing : CString} (decimals : ∀ c ∈ digits, isDigit c = true)
    (ended : ∀ c ∈ trailing.head?, isDigit c = false) :
    (digits ++ trailing).takeWhile isDigit = digits ∧
      (digits ++ trailing).dropWhile isDigit = trailing := by
  rw [List.takeWhile_append_of_pos decimals, List.dropWhile_append_of_pos decimals]
  cases trailing with
  | nil => exact ⟨List.append_nil _, rfl⟩
  | cons next _ =>
      rw [List.takeWhile_cons, List.dropWhile_cons, ended next rfl]
      exact ⟨List.append_nil _, rfl⟩

/-- **A number between blanks is read as its digits say.** -/
theorem strtol_of_digits {leading digits trailing : CString}
    (blank : ∀ c ∈ leading, isSpace c = true) (nonempty : digits ≠ [])
    (decimals : ∀ c ∈ digits, isDigit c = true)
    (ended : ∀ c ∈ trailing.head?, isDigit c = false) :
    strtol (leading ++ (digits ++ trailing)) = min (2 ^ 63 - 1) (digitsValue 10 digits : ℤ) := by
  obtain ⟨c, rest, rfl⟩ := List.exists_cons_of_ne_nil nonempty
  have digit := decimals c List.mem_cons_self
  have stripped : (leading ++ (c :: rest ++ trailing)).dropWhile isSpace =
      c :: rest ++ trailing := by
    rw [List.dropWhile_append_of_pos blank, List.cons_append, List.dropWhile_cons,
      isSpace_eq_false_of_isDigit digit]
    rfl
  have unsigned : takeSign (c :: rest ++ trailing) = (false, c :: rest ++ trailing) := by
    have notMinus : ¬ c = 45 := by
      rintro rfl
      exact absurd digit (by decide)
    have notPlus : ¬ c = 43 := by
      rintro rfl
      exact absurd digit (by decide)
    simp only [List.cons_append, takeSign, beq_iff_eq, if_neg notMinus, if_neg notPlus]
  unfold strtol
  rw [stripped, unsigned]
  simp only [(scan_digits decimals ended).1]
  rfl

/-- What is written for a number is read back as the number. -/
theorem strtol_formatLong {width n : ℕ} (small : n < 2 ^ 63) :
    strtol (formatLong width n) = n := by
  have blank : ∀ c ∈ List.replicate (width - (decimal n).length) (32 : UInt8),
      isSpace c = true := by
    intro c member
    rw [List.eq_of_mem_replicate member]
    decide
  have read := strtol_of_digits blank (decimal_ne_nil n) (fun _ => isDigit_of_mem_decimal)
    (show ∀ c ∈ ([] : CString).head?, isDigit c = false from fun _ found => nomatch found)
  rw [List.append_nil, digitsValue_decimal] at read
  unfold formatLong
  rw [read]
  omega

theorem strtol_bounds (text : CString) : -2 ^ 63 ≤ strtol text ∧ strtol text < 2 ^ 63 := by
  unfold strtol
  generalize takeSign (text.dropWhile isSpace) = signed
  obtain ⟨negative, rest⟩ := signed
  cases negative with
  | false =>
      simp only [Bool.false_eq_true, if_false]
      omega
  | true =>
      simp only [if_true]
      omega

theorem atoi_bounds (text : CString) : -2 ^ 31 ≤ atoi text ∧ atoi text < 2 ^ 31 := by
  have low := @Int.le_bmod (strtol text) (2 ^ 32) (by decide)
  have high := @Int.bmod_lt (strtol text) (2 ^ 32) (by decide)
  unfold atoi
  omega

/-- The cut to an `int` loses nothing of a number that fits. -/
theorem atoi_of_strtol {text : CString} {n : ℕ} (small : n < 2 ^ 31) (read : strtol text = n) :
    atoi text = n := by
  unfold atoi
  rw [read]
  exact Int.bmod_eq_of_le (by omega) (by omega)

/-! ## Floating-point numbers -/

/-- The exponent a text starts with, zero when it does not start with the
exponent mark and at least one digit. -/
def takeExponent (mark : UInt8) : CString → ℤ
  | [] => 0
  | c :: rest =>
      if toLower c == mark then
        let (negative, digits) := takeSign rest
        let magnitude : ℤ := digitsValue 10 (digits.takeWhile isDigit)
        if negative then -magnitude else magnitude
      else 0

/-- The digits of a mantissa before the point, those after it, and the rest. -/
def takeMantissa (isBaseDigit : UInt8 → Bool) (text : CString) : CString × CString × CString :=
  let whole := text.takeWhile isBaseDigit
  match text.dropWhile isBaseDigit with
  | 46 :: rest => (whole, rest.takeWhile isBaseDigit, rest.dropWhile isBaseDigit)
  | rest => (whole, [], rest)

/-- The number with the given mantissa and a power of `scale` for the exponent,
rounded to the 64-bit format. -/
def scaled (negative : Bool) (base scale : ℕ) (mantissa : CString × CString × CString)
    (mark : UInt8) : LongDouble :=
  let (whole, fraction, rest) := mantissa
  let digits := digitsValue base (whole ++ fraction)
  let exponent := takeExponent mark rest
  LongDouble.binary64 negative (digits * scale ^ exponent.toNat)
    (base ^ fraction.length * scale ^ (-exponent).toNat)

/-- The text starts with the given word, in either case of the letters. -/
def startsWith (word : String) (text : CString) : Bool :=
  (ascii word).isPrefixOf (text.map toLower)

/-- The floating-point number a text starts with. -/
def strtod (text : CString) : LongDouble :=
  let (negative, rest) := takeSign (text.dropWhile isSpace)
  let hexadecimal := takeMantissa isHexDigit (rest.drop 2)
  let decimal := takeMantissa isDigit rest
  if startsWith "inf" rest then .infinite negative
  else if startsWith "nan" rest then .nan
  else if startsWith "0x" rest && !(hexadecimal.1 ++ hexadecimal.2.1).isEmpty then
    scaled negative 16 2 hexadecimal 112
  else if (decimal.1 ++ decimal.2.1).isEmpty then .finite false 0
  else scaled negative 10 10 decimal 101

/-- The conversion to `double`, here as the `long double` it is assigned to. -/
def atof (text : CString) : LongDouble := strtod text

/-! ## Fields of a string -/

/-- Divide a string at the maximal runs of separators. -/
def splitCompress (isSeparator : UInt8 → Bool) : CString → List CString
  | [] => [[]]
  | c :: rest =>
      if isSeparator c then
        -- a separator before another one belongs to the run that follows
        match rest with
        | next :: _ => if isSeparator next then splitCompress isSeparator rest
            else [] :: splitCompress isSeparator rest
        | [] => [] :: splitCompress isSeparator rest
      else
        match splitCompress isSeparator rest with
        | field :: fields => (c :: field) :: fields
        | [] => [[c]]

theorem splitCompress_ne_nil (isSeparator : UInt8 → Bool) (text : CString) :
    splitCompress isSeparator text ≠ [] := by
  induction text with
  | nil => simp [splitCompress]
  | cons c rest ih =>
      unfold splitCompress
      repeat' split
      all_goals first | exact ih | simp

/-! ### Words joined and divided again -/

section Division

variable {isSeparator : UInt8 → Bool}

/-- **No field has a separator in it.** -/
theorem eq_false_of_mem_splitCompress {text field : CString}
    (member : field ∈ splitCompress isSeparator text) :
    ∀ c ∈ field, isSeparator c = false := by
  induction text generalizing field with
  | nil =>
      obtain rfl := List.mem_singleton.mp member
      intro c inside
      cases inside
  | cons c rest ih =>
      have emptyFirst : field ∈ [] :: splitCompress isSeparator rest →
          ∀ c ∈ field, isSeparator c = false := by
        intro member
        rcases List.mem_cons.mp member with rfl | later
        · intro c inside
          cases inside
        · exact ih later
      unfold splitCompress at member
      split at member
      case isTrue =>
        split at member
        · split at member
          · exact ih member
          · exact emptyFirst member
        · exact emptyFirst member
      case isFalse plain =>
        split at member
        case h_1 first fields divided =>
          rcases List.mem_cons.mp member with rfl | later
          · rw [List.forall_mem_cons]
            exact ⟨Bool.eq_false_iff.mpr plain, ih (divided ▸ List.mem_cons_self)⟩
          · exact ih (divided ▸ List.mem_cons_of_mem _ later)
        case h_2 nothing => exact absurd nothing (splitCompress_ne_nil isSeparator rest)

/-- Characters before the first separator belong to the first field. -/
theorem splitCompress_cons_of_free {c : UInt8} {text first : CString} {fields : List CString}
    (free : isSeparator c = false) (divided : splitCompress isSeparator text = first :: fields) :
    splitCompress isSeparator (c :: text) = (c :: first) :: fields := by
  unfold splitCompress
  rw [if_neg (by rw [free]; exact Bool.false_ne_true), divided]

/-- A word without a separator is its only field. -/
theorem splitCompress_of_free {word : CString} (free : ∀ c ∈ word, isSeparator c = false) :
    splitCompress isSeparator word = [word] := by
  induction word with
  | nil => rfl
  | cons c rest ih =>
      rw [List.forall_mem_cons] at free
      exact splitCompress_cons_of_free free.1 (ih free.2)

/-- **A word before a single separator is the first field.** -/
theorem splitCompress_append {word rest : CString} {s : UInt8} (separates : isSeparator s = true)
    (free : ∀ c ∈ word, isSeparator c = false)
    (starts : ∀ c ∈ rest.head?, isSeparator c = false) :
    splitCompress isSeparator (word ++ s :: rest) = word :: splitCompress isSeparator rest := by
  induction word with
  | nil =>
      conv_lhs => rw [List.nil_append, splitCompress.eq_def]
      cases rest with
      | nil => simp only [separates, if_true]
      | cons next after =>
          have plain := starts next rfl
          simp only [separates, plain, Bool.false_eq_true, if_true, if_false]
  | cons c word ih =>
      rw [List.forall_mem_cons] at free
      exact splitCompress_cons_of_free free.1 (ih free.2)

/-- Words with a separator between each two of them. -/
def joined (s : UInt8) : List CString → CString
  | [] => []
  | [word] => word
  | word :: next :: rest => word ++ s :: joined s (next :: rest)

/-- Words that a division can give back. -/
def AreWords (isSeparator : UInt8 → Bool) (words : List CString) : Prop :=
  ∀ word ∈ words, word ≠ [] ∧ ∀ c ∈ word, isSeparator c = false

instance (isSeparator : UInt8 → Bool) (words : List CString) :
    Decidable (AreWords isSeparator words) :=
  inferInstanceAs (Decidable (∀ word ∈ words, word ≠ [] ∧ ∀ c ∈ word, isSeparator c = false))

theorem head?_joined_of_areWords {s : UInt8} {word : CString} {words : List CString}
    (areWords : AreWords isSeparator (word :: words)) :
    ∀ c ∈ (joined s (word :: words)).head?, isSeparator c = false := by
  obtain ⟨nonempty, free⟩ := areWords word List.mem_cons_self
  obtain ⟨first, rest, rfl⟩ := List.exists_cons_of_ne_nil nonempty
  intro c found
  have same : c = first := by
    cases words with
    | nil => exact (Option.some.inj found).symm
    | cons next words => exact (Option.some.inj found).symm
  rw [same]
  exact free first List.mem_cons_self

/-- **Joined words are divided into the words again.** -/
theorem splitCompress_joined {s : UInt8} {words : List CString} (separates : isSeparator s = true)
    (nonempty : words ≠ []) (areWords : AreWords isSeparator words) :
    splitCompress isSeparator (joined s words) = words := by
  induction words with
  | nil => exact absurd rfl nonempty
  | cons word words ih =>
      obtain ⟨-, free⟩ := areWords word List.mem_cons_self
      cases words with
      | nil => exact splitCompress_of_free free
      | cons next rest =>
          have later : AreWords isSeparator (next :: rest) :=
            fun other member => areWords other (List.mem_cons_of_mem word member)
          rw [joined, splitCompress_append separates free (head?_joined_of_areWords later),
            ih (List.cons_ne_nil _ _) later]

/-- Joined words end in the last one. -/
theorem mem_getLast?_of_joined {s : UInt8} {words : List CString}
    (nonempty : ∀ word ∈ words, word ≠ []) :
    ∀ c ∈ (joined s words).getLast?, ∃ word ∈ words.getLast?, c ∈ word := by
  induction words with
  | nil =>
      intro c found
      cases found
  | cons word words ih =>
      intro c found
      cases words with
      | nil => exact ⟨word, rfl, List.mem_of_getLast? found⟩
      | cons next rest =>
          obtain ⟨first, others, next_eq⟩ := List.exists_cons_of_ne_nil
            (nonempty next (List.mem_cons_of_mem word List.mem_cons_self))
          have filled : joined s (next :: rest) ≠ [] := by
            cases rest <;> simp [joined, next_eq]
          rw [joined, List.getLast?_append_of_ne_nil _ (List.cons_ne_nil _ _),
            List.getLast?_cons_of_ne_nil filled] at found
          rw [List.getLast?_cons_cons]
          exact ih (fun other member => nonempty other (List.mem_cons_of_mem word member)) c found

end Division

/-! ## Blanks at the ends -/

/-- Remove the blanks at both ends. -/
def trim (text : CString) : CString := (text.dropWhile isSpace).rdropWhile isSpace

/-- Blanks before a text that begins and ends with other characters are removed. -/
theorem trim_append {leading text : CString} (blank : ∀ c ∈ leading, isSpace c = true)
    (starts : ∀ c ∈ text.head?, isSpace c = false)
    (ends : ∀ c ∈ text.getLast?, isSpace c = false) : trim (leading ++ text) = text := by
  have front : (leading ++ text).dropWhile isSpace = text := by
    rw [List.dropWhile_append_of_pos blank]
    cases text with
    | nil => rfl
    | cons c rest => rw [List.dropWhile_cons, starts c rfl, if_neg Bool.false_ne_true]
  unfold trim
  rw [front, List.rdropWhile_eq_self_iff]
  intro nonempty space
  rw [ends _ (List.getLast?_eq_getLast_of_ne_nil nonempty)] at space
  cases space

end CText
