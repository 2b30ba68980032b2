import Mathlib.Data.List.TakeWhile
import Mathlib.Data.UInt
import VirtualAgent.Library.Outcome

/-!
# Fixed arrays of bytes

A buffer is an array of bytes whose length never changes. A write succeeds when it
lies inside the array and is otherwise an overrun. A string is read from a position
up to the first zero byte.

`cString_of_terminated` is the rule of a receive buffer: bytes written at a position
with a zero byte placed behind them are read back up to their own first zero byte,
whatever the array held before.
-/

set_option autoImplicit false

/-- A write outside the array. -/
inductive Overrun
  | overrun
  deriving DecidableEq, Repr

/-- An array of bytes of a fixed length. -/
structure Buffer (capacity : ℕ) where
  bytes : List UInt8
  length_bytes : bytes.length = capacity
  deriving DecidableEq

/-- What stands before the first zero byte. -/
def upToNul (bytes : List UInt8) : List UInt8 := bytes.takeWhile (· != 0)

theorem upToNul_eq_self {bytes : List UInt8} : upToNul bytes = bytes ↔ 0 ∉ bytes := by
  unfold upToNul
  rw [List.takeWhile_eq_self_iff]
  constructor
  · intro nonzero member
    simpa using nonzero 0 member
  · intro absent c member
    have : c ≠ 0 := fun zero => absent (zero ▸ member)
    simpa using this

theorem map_upToNul_eq_self {texts : List (List UInt8)} :
    texts.map upToNul = texts ↔ ∀ text ∈ texts, 0 ∉ text := by
  calc texts.map upToNul = texts
      ↔ texts.map upToNul = texts.map id := by rw [List.map_id]
    _ ↔ ∀ text ∈ texts, upToNul text = id text := List.map_inj_left
    _ ↔ ∀ text ∈ texts, 0 ∉ text := forall₂_congr fun _ _ => upToNul_eq_self

theorem upToNul_append_zero (bytes rest : List UInt8) :
    upToNul (bytes ++ 0 :: rest) = upToNul bytes := by
  unfold upToNul
  induction bytes with
  | nil => rfl
  | cons c bytes ih =>
      rw [List.cons_append, List.takeWhile_cons, List.takeWhile_cons, ih]

theorem upToNul_upToNul (bytes : List UInt8) : upToNul (upToNul bytes) = upToNul bytes :=
  List.takeWhile_idem

theorem length_upToNul_le (bytes : List UInt8) : (upToNul bytes).length ≤ bytes.length :=
  (List.takeWhile_sublist _).length_le

namespace Buffer

open Outcome

variable {capacity : ℕ}

/-- The array of zero bytes. -/
def zeros (capacity : ℕ) : Buffer capacity := ⟨List.replicate capacity 0, List.length_replicate⟩

/-- Write values from a position on. -/
def write (buffer : Buffer capacity) (position : ℕ) (values : List UInt8) :
    Except Overrun (Buffer capacity) :=
  if fits : position + values.length ≤ capacity then
    .ok ⟨buffer.bytes.take position ++ (values ++ buffer.bytes.drop (position + values.length)), by
      have := buffer.length_bytes
      simp only [List.length_append, List.length_take, List.length_drop]
      omega⟩
  else .error .overrun

/-- The string at a position. -/
def cString (buffer : Buffer capacity) (position : ℕ) : List UInt8 :=
  upToNul (buffer.bytes.drop position)

theorem write_eq_ok {buffer next : Buffer capacity} {position : ℕ} {values : List UInt8} :
    buffer.write position values = .ok next ↔
      position + values.length ≤ capacity ∧
        next.bytes = buffer.bytes.take position ++
          (values ++ buffer.bytes.drop (position + values.length)) := by
  unfold write
  split
  · rename_i fits
    constructor
    · intro done
      cases done
      exact ⟨fits, rfl⟩
    · rintro ⟨-, bytes⟩
      obtain ⟨nextBytes, length⟩ := next
      cases bytes
      rfl
  · rename_i overrun
    constructor
    · intro done
      cases done
    · rintro ⟨fits, -⟩
      exact absurd fits overrun

/-- A write succeeds exactly when it lies inside the array. -/
theorem exists_write_eq_ok (buffer : Buffer capacity) {position : ℕ} {values : List UInt8} :
    (∃ next, buffer.write position values = .ok next) ↔ position + values.length ≤ capacity := by
  constructor
  · rintro ⟨next, done⟩
    exact (write_eq_ok.mp done).1
  · intro fits
    unfold write
    rw [dif_pos fits]
    exact ⟨_, rfl⟩

theorem write_eq_error {buffer : Buffer capacity} {position : ℕ} {values : List UInt8}
    (outside : capacity < position + values.length) :
    buffer.write position values = .error .overrun := dif_neg (Nat.not_le.mpr outside)

/-- What is written is found at its position. -/
theorem drop_of_write {buffer next : Buffer capacity} {position : ℕ} {values : List UInt8}
    (done : buffer.write position values = .ok next) :
    next.bytes.drop position = values ++ buffer.bytes.drop (position + values.length) := by
  obtain ⟨fits, bytes⟩ := write_eq_ok.mp done
  have length := buffer.length_bytes
  rw [bytes, List.drop_append, List.drop_eq_nil_of_le (by rw [List.length_take]; omega),
    List.nil_append, List.length_take, Nat.min_eq_left (by omega), Nat.sub_self, List.drop_zero]

/-- **Bytes with a zero byte placed behind them are read back up to their own first
zero byte.** -/
theorem cString_of_terminated {buffer filled terminated : Buffer capacity} {position : ℕ}
    {values : List UInt8} (written : buffer.write position values = .ok filled)
    (closed : filled.write (position + values.length) [0] = .ok terminated) :
    terminated.cString position = upToNul values := by
  obtain ⟨-, bytes⟩ := write_eq_ok.mp closed
  obtain ⟨fits, -⟩ := write_eq_ok.mp written
  have length := filled.length_bytes
  have kept : terminated.bytes.drop position = values ++ 0 ::
      filled.bytes.drop (position + values.length + 1) := by
    have reach : position ≤ (filled.bytes.take (position + values.length)).length := by
      rw [List.length_take]
      omega
    rw [bytes, List.drop_append_of_le_length reach, List.drop_take, Nat.add_sub_cancel_left,
      drop_of_write written, List.take_left]
    rfl
  unfold cString
  rw [kept, upToNul_append_zero]

end Buffer
