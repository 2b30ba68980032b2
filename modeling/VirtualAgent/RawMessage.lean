import VirtualAgent.Library.Buffer
import VirtualAgent.Library.CText

/-!
# The framed message of the TCP connections

`RawMessage` holds one frame in a fixed array: a header of four bytes that gives the
length of the body in decimal, and the body. Its length field never exceeds the
largest body, whatever operation sets it, because the structure carries that bound.

The writing side prints the length right-aligned (`encodeHeader`). The reading side
copies the header up to its first zero byte and reads a number at its start with
`atoi`, so it accepts far more than what the writing side prints: `decodedLength` is
what it makes of four bytes. `decodedLength_formatLong` is the round trip of the two.
-/

set_option autoImplicit false

namespace VirtualAgent

open CText Outcome

/-- `HEADER_LENGTH`. -/
def headerLength : ℕ := 4

/-- `MAX_BODY_LENGTH`. -/
def maxBodyLength : ℕ := 512

/-- A frame in its array. The constructor leaves the array as it finds it. -/
structure RawMessage where
  data : Buffer (headerLength + maxBodyLength)
  bodyLength : ℕ
  bodyLength_le : bodyLength ≤ maxBodyLength

namespace RawMessage

/-- `RawMessage()`, in memory that holds the given bytes. -/
def create (data : Buffer (headerLength + maxBodyLength)) : RawMessage := ⟨data, 0, by decide⟩

/-- `length()`. -/
def length (msg : RawMessage) : ℕ := headerLength + msg.bodyLength

/-- `body_length(new_length)`. -/
def setBodyLength (msg : RawMessage) (newLength : ℕ) : RawMessage :=
  { msg with
    bodyLength := min newLength maxBodyLength
    bodyLength_le := Nat.min_le_right _ _ }

/-- The conversion of an `int` to `size_t`. -/
def sizeT (value : ℤ) : ℕ := (value % 2 ^ 64).toNat

/-- `decode_header()`: whether the header is accepted, and the message after it. -/
def decodeHeader (msg : RawMessage) : Except Overrun (Bool × RawMessage) := do
  -- strncat copies up to the first zero byte and places one behind
  let header ← (Buffer.zeros (headerLength + 1)).write 0
    (upToNul (msg.data.bytes.take headerLength) ++ [0])
  let bodyLength := sizeT (atoi (header.cString 0))
  if inRange : bodyLength ≤ maxBodyLength then
    return (true, { msg with bodyLength, bodyLength_le := inRange })
  else
    return (false, { msg with bodyLength := 0, bodyLength_le := Nat.zero_le _ })

/-- `encode_header()`. -/
def encodeHeader (msg : RawMessage) : Except Overrun RawMessage := do
  let header ← (Buffer.zeros (headerLength + 1)).write 0 (formatLong 4 msg.bodyLength ++ [0])
  let data ← msg.data.write 0 (header.bytes.take headerLength)
  return { msg with data }

/-! ## What the two sides do -/

/-- The body length that `decode_header` reads in four bytes, when it accepts them. -/
def decodedLength (header : CString) : Option ℕ :=
  if sizeT (atoi (upToNul header)) ≤ maxBodyLength then some (sizeT (atoi (upToNul header)))
  else none

theorem decodedLength_le {header : CString} {length : ℕ}
    (decoded : decodedLength header = some length) : length ≤ maxBodyLength := by
  unfold decodedLength at decoded
  split at decoded
  · rename_i inRange
    cases decoded
    exact inRange
  · cases decoded

/-- The header's own array holds what is copied into it. -/
theorem decodeHeader_header (msg : RawMessage) :
    ∃ header : Buffer (headerLength + 1),
      (Buffer.zeros (headerLength + 1)).write 0
        (upToNul (msg.data.bytes.take headerLength) ++ [0]) = .ok header ∧
      header.cString 0 = upToNul (msg.data.bytes.take headerLength) := by
  have short : (upToNul (msg.data.bytes.take headerLength)).length ≤ headerLength :=
    le_trans (length_upToNul_le _) (List.length_take_le _ _)
  obtain ⟨header, written⟩ := (Buffer.zeros (headerLength + 1)).exists_write_eq_ok.mpr
    (show 0 + (upToNul (msg.data.bytes.take headerLength) ++ [0]).length ≤ headerLength + 1 by
      rw [List.length_append, List.length_singleton]
      omega)
  refine ⟨header, written, ?_⟩
  have behind := Buffer.drop_of_write written
  unfold Buffer.cString
  rw [behind, List.append_assoc, List.singleton_append, upToNul_append_zero, upToNul_upToNul]

theorem decodeHeader_of_some (msg : RawMessage) {length : ℕ}
    (decoded : decodedLength (msg.data.bytes.take headerLength) = some length) :
    ∃ next : RawMessage, msg.decodeHeader = .ok (true, next) ∧ next.data = msg.data ∧
      next.bodyLength = length := by
  obtain ⟨header, written, text⟩ := msg.decodeHeader_header
  unfold decodedLength at decoded
  rw [← text] at decoded
  split at decoded
  · rename_i inRange
    cases decoded
    refine ⟨{ msg with bodyLength := _, bodyLength_le := inRange }, ?_, rfl, rfl⟩
    unfold decodeHeader
    rw [written, ok_bind, dif_pos inRange]
    rfl
  · cases decoded

theorem decodeHeader_of_none (msg : RawMessage)
    (decoded : decodedLength (msg.data.bytes.take headerLength) = none) :
    ∃ next : RawMessage, msg.decodeHeader = .ok (false, next) ∧ next.data = msg.data ∧
      next.bodyLength = 0 := by
  obtain ⟨header, written, text⟩ := msg.decodeHeader_header
  unfold decodedLength at decoded
  rw [← text] at decoded
  split at decoded
  · cases decoded
  · rename_i outOfRange
    refine ⟨{ msg with bodyLength := 0, bodyLength_le := Nat.zero_le _ }, ?_, rfl, rfl⟩
    unfold decodeHeader
    rw [written, ok_bind, dif_neg outOfRange]
    rfl

/-- A length that the structure admits is printed in four bytes. -/
theorem length_formatLong_bodyLength {length : ℕ} (inRange : length ≤ maxBodyLength) :
    (formatLong 4 length).length = headerLength := by
  have : maxBodyLength < 10 ^ 4 := by decide
  exact length_formatLong (by decide) (lt_of_le_of_lt inRange this)

/-- **The header is written over the first four bytes and nothing else.** -/
theorem encodeHeader_eq_ok (msg : RawMessage) :
    ∃ next : RawMessage, msg.encodeHeader = .ok next ∧
      next.data.bytes = formatLong 4 msg.bodyLength ++ msg.data.bytes.drop headerLength ∧
      next.bodyLength = msg.bodyLength := by
  have width := length_formatLong_bodyLength msg.bodyLength_le
  obtain ⟨header, written⟩ := (Buffer.zeros (headerLength + 1)).exists_write_eq_ok.mpr
    (show 0 + (formatLong 4 msg.bodyLength ++ [0]).length ≤ headerLength + 1 by
      rw [List.length_append, width, List.length_singleton]
      omega)
  have text : header.bytes.take headerLength = formatLong 4 msg.bodyLength := by
    have behind := Buffer.drop_of_write written
    rw [List.drop_zero, List.append_assoc] at behind
    rw [behind]
    exact List.take_left' width
  obtain ⟨data, copied⟩ := msg.data.exists_write_eq_ok.mpr
    (show 0 + (header.bytes.take headerLength).length ≤ headerLength + maxBodyLength by
      rw [text, width]
      omega)
  refine ⟨{ msg with data }, ?_, ?_, rfl⟩
  · unfold encodeHeader
    rw [written, ok_bind, copied, ok_bind]
    rfl
  · have behind := Buffer.drop_of_write copied
    rw [List.drop_zero, text, width, Nat.zero_add] at behind
    exact behind

/-- **What one side prints, the other side reads.** -/
theorem decodedLength_formatLong {length : ℕ} (inRange : length ≤ maxBodyLength) :
    decodedLength (formatLong 4 length) = some length := by
  have small : length < 2 ^ 31 := lt_of_le_of_lt inRange (by decide)
  have absent : (0 : UInt8) ∉ formatLong 4 length := by
    intro member
    rcases List.mem_append.mp member with blank | digit
    · exact absurd (List.eq_of_mem_replicate blank) (by decide)
    · exact absurd (isDigit_of_mem_decimal digit) (by decide)
  have read : atoi (upToNul (formatLong 4 length)) = length := by
    rw [upToNul_eq_self.mpr absent]
    exact atoi_of_strtol small (strtol_formatLong (by omega))
  have converted : sizeT (atoi (upToNul (formatLong 4 length))) = length := by
    rw [read, sizeT]
    omega
  unfold decodedLength
  rw [converted, if_pos inRange]

end RawMessage

end VirtualAgent
