import VirtualAgent.Library.Truncation
import Mathlib.Algebra.Field.Rat
import Mathlib.Algebra.Order.Ring.Rat
import Mathlib.Data.NNRat.Defs
import Mathlib.Data.Rat.Floor
import Mathlib.Tactic.Linarith

/-!
# Floating-point numbers with exact arithmetic

A number is finite, with a sign and a rational magnitude, or infinite, or no
number at all. The two zeros differ, since a quotient by them does. The
operations and comparisons follow the rules of the floating-point formats for
the special values; on finite values they are exact, nothing is rounded and
nothing overflows.

On the rationals the operations are the rational ones (`ofRat_sub`,
`ofRat_div`, `ofRat_lt`), and so are their values on finite numbers, where the
zeros differ (`HasValue`). An operation of a format is the exact one with its
result rounded to the format (`Format.round`). `binary64` is the number of the
64-bit format nearest to a quotient, as the text conversions return it.
-/

set_option autoImplicit false

namespace ExactFloat

open Truncation

/-- A floating-point number of unbounded precision and range. -/
inductive LongDouble where
  | finite (negative : Bool) (magnitude : ℚ≥0)
  | infinite (negative : Bool)
  | nan
  deriving DecidableEq

namespace LongDouble

/-- The value of a sign and a magnitude. -/
def signed (negative : Bool) (magnitude : ℚ≥0) : ℚ :=
  if negative then -(magnitude : ℚ) else magnitude

/-- A rational number, with the positive zero for zero. -/
def ofRat (q : ℚ) : LongDouble := .finite (decide (q < 0)) (Rat.nnabs q)

/-- The conversion of an integer. -/
def ofInt (n : ℤ) : LongDouble := ofRat n

instance : One LongDouble := ⟨ofRat 1⟩

/-! ## Operations -/

/-- The opposite number. -/
def neg : LongDouble → LongDouble
  | .finite negative magnitude => .finite (!negative) magnitude
  | .infinite negative => .infinite (!negative)
  | .nan => .nan

/-- A sum of zeros is the negative zero only when both are. -/
def add : LongDouble → LongDouble → LongDouble
  | .nan, _ => .nan
  | _, .nan => .nan
  | .infinite s, .infinite t => if s = t then .infinite s else .nan
  | .infinite s, .finite _ _ => .infinite s
  | .finite _ _, .infinite t => .infinite t
  | .finite s a, .finite t b =>
      if signed s a + signed t b = 0 then .finite (s && t) 0
      else ofRat (signed s a + signed t b)

/-- The product; zero times infinity is no number. -/
def mul : LongDouble → LongDouble → LongDouble
  | .nan, _ => .nan
  | _, .nan => .nan
  | .infinite s, .infinite t => .infinite (s ^^ t)
  | .infinite s, .finite t b => if b = 0 then .nan else .infinite (s ^^ t)
  | .finite s a, .infinite t => if a = 0 then .nan else .infinite (s ^^ t)
  | .finite s a, .finite t b => .finite (s ^^ t) (a * b)

/-- The quotient; by a zero it is infinite, and no number when the dividend is
zero as well. -/
def div : LongDouble → LongDouble → LongDouble
  | .nan, _ => .nan
  | _, .nan => .nan
  | .infinite _, .infinite _ => .nan
  | .infinite s, .finite t _ => .infinite (s ^^ t)
  | .finite s _, .infinite t => .finite (s ^^ t) 0
  | .finite s a, .finite t b =>
      if b = 0 then (if a = 0 then .nan else .infinite (s ^^ t)) else .finite (s ^^ t) (a / b)

/-- The absolute value. -/
def fabs : LongDouble → LongDouble
  | .finite _ magnitude => .finite false magnitude
  | .infinite _ => .infinite false
  | .nan => .nan

instance : Neg LongDouble := ⟨neg⟩
instance : Add LongDouble := ⟨add⟩
instance : Sub LongDouble := ⟨fun x y => add x (neg y)⟩
instance : Mul LongDouble := ⟨mul⟩
instance : Div LongDouble := ⟨div⟩

/-! ## Comparisons -/

/-- No comparison with `nan` holds; the two zeros are equal. -/
def lt : LongDouble → LongDouble → Prop
  | .nan, _ => False
  | _, .nan => False
  | .infinite s, .infinite t => s = true ∧ t = false
  | .infinite s, .finite _ _ => s = true
  | .finite _ _, .infinite t => t = false
  | .finite s a, .finite t b => signed s a < signed t b

/-- The weak comparison, which also fails on `nan`. -/
def le : LongDouble → LongDouble → Prop
  | .nan, _ => False
  | _, .nan => False
  | .infinite s, .infinite t => s = true ∨ t = false
  | .infinite s, .finite _ _ => s = true
  | .finite _ _, .infinite t => t = false
  | .finite s a, .finite t b => signed s a ≤ signed t b

instance : LT LongDouble := ⟨lt⟩
instance : LE LongDouble := ⟨le⟩

instance : DecidableRel (α := LongDouble) (· < ·)
  | .nan, _ | .infinite _, .nan | .finite _ _, .nan => inferInstanceAs (Decidable False)
  | .infinite _, .infinite _ => inferInstanceAs (Decidable (_ = true ∧ _ = false))
  | .infinite _, .finite _ _ => inferInstanceAs (Decidable (_ = true))
  | .finite _ _, .infinite _ => inferInstanceAs (Decidable (_ = false))
  | .finite s a, .finite t b => inferInstanceAs (Decidable (signed s a < signed t b))

instance : DecidableRel (α := LongDouble) (· ≤ ·)
  | .nan, _ | .infinite _, .nan | .finite _ _, .nan => inferInstanceAs (Decidable False)
  | .infinite _, .infinite _ => inferInstanceAs (Decidable (_ = true ∨ _ = false))
  | .infinite _, .finite _ _ => inferInstanceAs (Decidable (_ = true))
  | .finite _ _, .infinite _ => inferInstanceAs (Decidable (_ = false))
  | .finite s a, .finite t b => inferInstanceAs (Decidable (signed s a ≤ signed t b))

/-- Above zero; infinity is, `nan` and the zeros are not. -/
def Positive (x : LongDouble) : Prop := ofRat 0 < x

instance (x : LongDouble) : Decidable x.Positive :=
  inferInstanceAs (Decidable (ofRat 0 < x))

/-- Neither infinite nor no number. -/
def isFinite : LongDouble → Bool
  | .finite _ _ => true
  | _ => false

/-- Equal to zero, of either sign. -/
def isZero : LongDouble → Bool
  | .finite _ magnitude => magnitude = 0
  | _ => false

/-! ## Conversions -/

/-- The conversion to a 64-bit integer drops the fraction. What has no integer
value becomes the least integer, as the processor's conversion gives it. -/
def toInt : LongDouble → ℤ
  | .finite negative magnitude => truncate (signed negative magnitude)
  | .infinite _ => -2 ^ 63
  | .nan => -2 ^ 63

/-- The same where what is out of the range of the integers has no integer value
either. -/
def toInt64 (x : LongDouble) : ℤ :=
  if -2 ^ 63 ≤ x.toInt ∧ x.toInt < 2 ^ 63 then x.toInt else -2 ^ 63

/-! ## Rounding -/

/-- The integer nearest to a quotient, the even one of two equally near. -/
def roundQuotient (n d : ℕ) : ℕ :=
  if 2 * (n % d) < d then n / d
  else if d < 2 * (n % d) then n / d + 1
  else n / d + n / d % 2

/-- The exponent of the greatest power of two up to a positive quotient. -/
def floorLog2 (n d : ℕ) : ℤ :=
  let guess : ℤ := (n.log2 : ℤ) - d.log2
  if d * 2 ^ guess.toNat ≤ n * 2 ^ (-guess).toNat then guess else guess - 1

end LongDouble

/-- A binary format with signed zeros and infinities: the number of digits after the
first one, the exponent of its least unit, and its greatest exponent. It has the
integers that have no more digits. -/
structure Format where
  digits : ℕ
  least : ℤ
  top : ℕ
  least_nonpos : least ≤ 0

namespace Format

/-- `double`. -/
def double : Format := ⟨52, -1074, 1023, by decide⟩

/-- `long double`, with 64 digits. -/
def extended : Format := ⟨63, -16445, 16383, by decide⟩

/-- The magnitude nearest to a quotient, were the exponents not bounded above. -/
def magnitude (f : Format) (n d : ℕ) : ℚ≥0 :=
  if n = 0 then 0
  else
    let exponent := max (LongDouble.floorLog2 n d - f.digits) f.least
    let digits := LongDouble.roundQuotient (n * 2 ^ (-exponent).toNat) (d * 2 ^ exponent.toNat)
    (digits * 2 ^ exponent.toNat : ℕ) / (2 ^ (-exponent).toNat : ℕ)

/-- The number of the format nearest to a quotient, and infinity from the first power of
two out of range. -/
def nearest (f : Format) (negative : Bool) (n d : ℕ) : LongDouble :=
  if (2 ^ (f.top + 1) : ℕ) ≤ f.magnitude n d then .infinite negative
  else .finite negative (f.magnitude n d)

/-- Round to the nearest number of the format, of two the one with an even last digit. -/
def round (f : Format) : LongDouble → LongDouble
  | .finite negative magnitude => f.nearest negative magnitude.num magnitude.den
  | .infinite negative => .infinite negative
  | .nan => .nan

end Format

namespace LongDouble

/-- The number of the 64-bit format nearest to a quotient. -/
def binary64 (negative : Bool) (n d : ℕ) : LongDouble := Format.double.nearest negative n d

/-! ## The operations on rational numbers -/

@[simp] theorem signed_nnabs (q : ℚ) : signed (decide (q < 0)) (Rat.nnabs q) = q := by
  by_cases negative : q < 0
  · simp [signed, negative, abs_of_neg]
  · simp [signed, negative, abs_of_nonneg (not_lt.mp negative)]

theorem signed_not (negative : Bool) (magnitude : ℚ≥0) :
    signed (!negative) magnitude = -signed negative magnitude := by
  cases negative <;> simp [signed]

@[simp] theorem ofRat_zero : ofRat 0 = .finite false 0 := by
  have magnitude : Rat.nnabs 0 = 0 := by
    rw [← NNRat.coe_eq_zero]
    simp
  simp [ofRat, magnitude]

theorem ofRat_lt {p q : ℚ} : ofRat p < ofRat q ↔ p < q := by
  change signed _ _ < signed _ _ ↔ _
  rw [signed_nnabs, signed_nnabs]

theorem ofRat_le {p q : ℚ} : ofRat p ≤ ofRat q ↔ p ≤ q := by
  change signed _ _ ≤ signed _ _ ↔ _
  rw [signed_nnabs, signed_nnabs]

theorem positive_ofRat {q : ℚ} : (ofRat q).Positive ↔ 0 < q := ofRat_lt

theorem toInt_ofRat (q : ℚ) : (ofRat q).toInt = truncate q := by
  change truncate (signed _ _) = _
  rw [signed_nnabs]

/-- A sum whose value is not zero, or which has a summand that is not negative,
is the rational sum. -/
theorem finite_add_finite {s t : Bool} {a b : ℚ≥0}
    (unsigned : signed s a + signed t b = 0 → (s && t) = false) :
    LongDouble.finite s a + .finite t b = ofRat (signed s a + signed t b) := by
  change (if signed s a + signed t b = 0 then LongDouble.finite (s && t) 0
    else ofRat (signed s a + signed t b)) = _
  split
  case isTrue zero => rw [unsigned zero, zero, ofRat_zero]
  case isFalse => rfl

theorem ofRat_add (p q : ℚ) : ofRat p + ofRat q = ofRat (p + q) := by
  have added := finite_add_finite (s := decide (p < 0)) (t := decide (q < 0))
    (a := Rat.nnabs p) (b := Rat.nnabs q)
  rw [signed_nnabs, signed_nnabs] at added
  refine added ?_
  intro zero
  by_cases negative : p < 0
  · have : ¬ q < 0 := by linarith
    simp [this]
  · simp [negative]

theorem ofRat_sub (p q : ℚ) : ofRat p - ofRat q = ofRat (p - q) := by
  have opposite : signed (!decide (q < 0)) (Rat.nnabs q) = -q := by
    rw [signed_not, signed_nnabs]
  have added := finite_add_finite (s := decide (p < 0)) (t := !decide (q < 0))
    (a := Rat.nnabs p) (b := Rat.nnabs q)
  rw [signed_nnabs, opposite, ← sub_eq_add_neg] at added
  refine added ?_
  intro zero
  -- the difference is zero, so both have one sign and the opposite has the other
  have same : p = q := by linarith
  simp [same]

theorem ofRat_div (p : ℚ) {q : ℚ} (positive : 0 < q) : ofRat p / ofRat q = ofRat (p / q) := by
  have nonzero : Rat.nnabs q ≠ 0 := by
    rw [← NNRat.coe_ne_zero]
    simpa using positive.ne'
  change (if Rat.nnabs q = 0 then _ else LongDouble.finite (decide (p < 0) ^^ decide (q < 0))
    (Rat.nnabs p / Rat.nnabs q)) = ofRat _
  have sign : (decide (p < 0) ^^ decide (q < 0)) = decide (p / q < 0) := by
    simp [not_lt.mpr positive.le, div_neg_iff, positive]
  have magnitude : Rat.nnabs p / Rat.nnabs q = Rat.nnabs (p / q) := by
    apply NNRat.ext
    push_cast
    exact (abs_div p q).symm
  rw [if_neg nonzero, sign, magnitude, ofRat]

theorem fabs_ofRat (q : ℚ) : fabs (ofRat q) = ofRat |q| := by
  have magnitude : Rat.nnabs |q| = Rat.nnabs q := by
    apply NNRat.ext
    simp
  simp [fabs, ofRat, magnitude]

/-! ## The operations on finite numbers -/

/-- The value of a finite number. -/
def toRat : LongDouble → ℚ
  | .finite negative magnitude => signed negative magnitude
  | _ => 0

/-- The number is finite and has the value. The two zeros have the same. -/
def HasValue (x : LongDouble) (q : ℚ) : Prop := x.isFinite = true ∧ x.toRat = q

instance (x : LongDouble) (q : ℚ) : Decidable (x.HasValue q) :=
  inferInstanceAs (Decidable (x.isFinite = true ∧ x.toRat = q))

theorem hasValue_toRat {x : LongDouble} (finite : x.isFinite = true) : x.HasValue x.toRat :=
  ⟨finite, rfl⟩

theorem hasValue_ofRat (q : ℚ) : (ofRat q).HasValue q := ⟨rfl, signed_nnabs q⟩

theorem hasValue_ofInt (n : ℤ) : (ofInt n).HasValue n := hasValue_ofRat n

theorem hasValue_one : (1 : LongDouble).HasValue 1 := hasValue_ofRat 1

theorem HasValue.exists_finite {x : LongDouble} {q : ℚ} (value : x.HasValue q) :
    ∃ negative magnitude, x = .finite negative magnitude ∧ signed negative magnitude = q := by
  obtain ⟨finite, rfl⟩ := value
  cases x with
  | finite negative magnitude => exact ⟨negative, magnitude, rfl, rfl⟩
  | infinite negative => cases finite
  | nan => cases finite

theorem signed_xor_mul (s t : Bool) (a b : ℚ≥0) :
    signed (s ^^ t) (a * b) = signed s a * signed t b := by
  cases s <;> cases t <;> simp [signed]

theorem signed_xor_div (s t : Bool) (a b : ℚ≥0) :
    signed (s ^^ t) (a / b) = signed s a / signed t b := by
  cases s <;> cases t <;> simp [signed, div_neg, neg_div]

theorem signed_eq_zero {negative : Bool} {magnitude : ℚ≥0} :
    signed negative magnitude = 0 ↔ magnitude = 0 := by
  cases negative <;> simp [signed]

namespace HasValue

variable {x y : LongDouble} {p q : ℚ}

theorem neg (value : x.HasValue p) : (-x).HasValue (-p) := by
  obtain ⟨s, a, rfl, rfl⟩ := value.exists_finite
  exact ⟨rfl, signed_not s a⟩

theorem add (left : x.HasValue p) (right : y.HasValue q) : (x + y).HasValue (p + q) := by
  obtain ⟨s, a, rfl, rfl⟩ := left.exists_finite
  obtain ⟨t, b, rfl, rfl⟩ := right.exists_finite
  change (if signed s a + signed t b = 0 then LongDouble.finite (s && t) 0
    else ofRat (signed s a + signed t b)).HasValue _
  split
  case isTrue zero =>
    rw [zero]
    exact ⟨rfl, signed_eq_zero.mpr rfl⟩
  case isFalse => exact hasValue_ofRat _

theorem sub (left : x.HasValue p) (right : y.HasValue q) : (x - y).HasValue (p - q) := by
  rw [sub_eq_add_neg]
  exact left.add right.neg

theorem mul (left : x.HasValue p) (right : y.HasValue q) : (x * y).HasValue (p * q) := by
  obtain ⟨s, a, rfl, rfl⟩ := left.exists_finite
  obtain ⟨t, b, rfl, rfl⟩ := right.exists_finite
  exact ⟨rfl, signed_xor_mul s t a b⟩

theorem div (left : x.HasValue p) (right : y.HasValue q) (nonzero : q ≠ 0) :
    (x / y).HasValue (p / q) := by
  obtain ⟨s, a, rfl, rfl⟩ := left.exists_finite
  obtain ⟨t, b, rfl, rfl⟩ := right.exists_finite
  change (if b = 0 then _ else LongDouble.finite (s ^^ t) (a / b)).HasValue _
  rw [if_neg fun zero => nonzero (signed_eq_zero.mpr zero)]
  exact ⟨rfl, signed_xor_div s t a b⟩

/-- Zero by zero is no number. -/
theorem zero_div_zero (left : x.HasValue 0) (right : y.HasValue 0) : x / y = nan := by
  obtain ⟨s, a, rfl, zero⟩ := left.exists_finite
  obtain ⟨t, b, rfl, zero'⟩ := right.exists_finite
  change (if b = 0 then (if a = 0 then _ else _) else _) = _
  rw [if_pos (signed_eq_zero.mp zero'), if_pos (signed_eq_zero.mp zero)]

/-- A finite number has one value. -/
theorem iff_eq (value : x.HasValue p) {r : ℚ} : x.HasValue r ↔ p = r := by
  constructor
  · intro other
    exact value.2.symm.trans other.2
  · rintro rfl
    exact value

theorem ne_nan (value : x.HasValue p) : x ≠ nan := by
  rintro rfl
  cases value.1

theorem fabs (value : x.HasValue p) : x.fabs.HasValue |p| := by
  obtain ⟨s, a, rfl, rfl⟩ := value.exists_finite
  refine ⟨rfl, ?_⟩
  cases s <;> simp [LongDouble.fabs, toRat, signed]

theorem toInt (value : x.HasValue p) : x.toInt = truncate p := by
  obtain ⟨s, a, rfl, rfl⟩ := value.exists_finite
  rfl

theorem isZero_iff (value : x.HasValue p) : x.isZero = true ↔ p = 0 := by
  obtain ⟨s, a, rfl, rfl⟩ := value.exists_finite
  rw [signed_eq_zero]
  exact decide_eq_true_iff

theorem lt_iff (left : x.HasValue p) (right : y.HasValue q) : x < y ↔ p < q := by
  obtain ⟨s, a, rfl, rfl⟩ := left.exists_finite
  obtain ⟨t, b, rfl, rfl⟩ := right.exists_finite
  rfl

theorem le_iff (left : x.HasValue p) (right : y.HasValue q) : x ≤ y ↔ p ≤ q := by
  obtain ⟨s, a, rfl, rfl⟩ := left.exists_finite
  obtain ⟨t, b, rfl, rfl⟩ := right.exists_finite
  rfl

end HasValue

/-! ## Special values -/

@[simp] theorem not_le_nan (x : LongDouble) : ¬ x ≤ nan := by
  intro le
  cases x <;> exact le

theorem lt_irrefl (x : LongDouble) : ¬ x < x := by
  intro less
  change lt x x at less
  cases x <;> simp [lt] at less

theorem lt_trans {x y z : LongDouble} (first : x < y) (second : y < z) : x < z := by
  change lt x y at first
  change lt y z at second
  change lt x z
  cases x <;> cases y <;> cases z <;> simp only [lt] at first second ⊢
  case finite.finite.finite => exact first.trans second
  all_goals simp_all

/-- What is not below a positive number is positive, or no number. -/
theorem Positive.of_not_lt {x y : LongDouble} (positive : x.Positive) (least : ¬ y < x)
    (number : y ≠ nan) : y.Positive := by
  rw [Positive, ofRat_zero] at positive ⊢
  change lt (finite false 0) x at positive
  change ¬ lt y x at least
  change lt (finite false 0) y
  cases x <;> cases y <;> simp only [lt] at positive least ⊢
  case finite.finite => exact positive.trans_le (not_lt.mp least)
  all_goals simp_all

/-- **A number does not differ from itself**: the relative difference is zero, or
no number where it is a zero by a zero or has an infinity, so it is at least no
positive number. -/
theorem not_le_relative_self {x bound : LongDouble} (positive : bound.Positive) :
    ¬ bound ≤ fabs (x - x) / x := by
  cases x with
  | nan => exact not_le_nan bound
  | infinite negative =>
      have difference : infinite negative - infinite negative = nan := by
        cases negative <;> rfl
      rw [difference]
      exact not_le_nan bound
  | finite negative magnitude =>
      have difference : fabs (finite negative magnitude - finite negative magnitude)
          = finite false 0 := by
        have zero : signed negative magnitude + signed (!negative) magnitude = 0 := by
          rw [signed_not, add_neg_cancel]
        change fabs (if _ = (0 : ℚ) then _ else _) = _
        rw [if_pos zero, fabs]
      rw [difference]
      by_cases zero : magnitude = 0
      · have quotient : finite false 0 / finite negative magnitude = nan := by
          change (if magnitude = 0 then _ else _) = _
          simp [zero]
        rw [quotient]
        exact not_le_nan bound
      · have quotient :
            finite false 0 / finite negative magnitude = finite (false ^^ negative) 0 := by
          change (if magnitude = 0 then _ else _) = _
          simp [zero]
        rw [quotient]
        rw [Positive, ofRat_zero] at positive
        change lt _ _ at positive
        intro le
        change LongDouble.le _ _ at le
        cases bound with
        | nan => exact le
        | infinite sign => simp_all [lt, LongDouble.le]
        | finite sign size =>
            have below : signed sign size ≤ 0 := by simpa [LongDouble.le, signed] using le
            have above : 0 < signed sign size := by simpa [lt, signed] using positive
            exact absurd above (not_lt.mpr below)

end LongDouble

end ExactFloat
