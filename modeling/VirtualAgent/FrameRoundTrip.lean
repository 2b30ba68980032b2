import VirtualAgent.TcpSession

/-!
# Frames from a client to a session

The client reads a line, frames it in a message of its own and sends the bytes of the
frame. The session takes the frames out of its one buffer, which it uses again for each
of them.

`stream_round_trip` composes the two sides: the strings passed to the message processor
are the lines sent, whatever memory the messages and the session were made in. The two
sides meet in `decodedLength_formatLong`; the rest of the argument is that frames
written one after the other are found one after the other (`frames_flatten`).
-/

set_option autoImplicit false

namespace VirtualAgent

open CText Outcome Framing RawMessage TcpSession

/-- One turn of the client's loop: the bytes sent for a line, framed in a message made
in memory that holds the given bytes. -/
def clientFrame (memory : Buffer (headerLength + maxBodyLength)) (line : CString) :
    Except Overrun CString := do
  let msg := (create memory).setBodyLength (upToNul line).length
  let data ← msg.data.write headerLength (line.take msg.bodyLength)
  let msg ← { msg with data }.encodeHeader
  return msg.data.bytes.take msg.length

/-- The bytes sent for several lines. -/
def clientStream (lines : List (Buffer (headerLength + maxBodyLength) × CString)) :
    Except Overrun CString := do
  let frames ← lines.mapM fun line => clientFrame line.1 line.2
  return frames.flatten

/-- The layout of a frame. -/
def frameOf (line : CString) : CString := formatLong 4 line.length ++ line

/-- **A frame is its length in four bytes and the line.** Nothing of the memory the
message was made in is sent. -/
theorem clientFrame_eq (memory : Buffer (headerLength + maxBodyLength)) {line : CString}
    (fits : line.length ≤ maxBodyLength) (absent : 0 ∉ line) :
    clientFrame memory line = .ok (frameOf line) := by
  have sized : (create memory).setBodyLength (upToNul line).length =
      ⟨memory, line.length, fits⟩ := by
    simp only [setBodyLength, create, upToNul_eq_self.mpr absent, Nat.min_eq_left fits]
  obtain ⟨data, written⟩ := memory.exists_write_eq_ok.mpr
    (show headerLength + line.length ≤ headerLength + maxBodyLength by omega)
  obtain ⟨encoded, done, bytes, length⟩ := encodeHeader_eq_ok ⟨data, line.length, fits⟩
  have width := length_formatLong_bodyLength fits
  unfold clientFrame
  rw [sized]
  dsimp only
  rw [List.take_length, written, ok_bind, done, ok_bind, bytes,
    Buffer.drop_of_write written, RawMessage.length, length, ← List.append_assoc]
  refine congrArg Except.ok (List.take_left' ?_)
  rw [List.length_append, width]

theorem clientStream_eq {lines : List (Buffer (headerLength + maxBodyLength) × CString)}
    (sendable : ∀ line ∈ lines, line.2.length ≤ maxBodyLength ∧ 0 ∉ line.2) :
    clientStream lines = .ok ((lines.map Prod.snd).map frameOf).flatten := by
  have frames : lines.mapM (fun line => clientFrame line.1 line.2) =
      .ok ((lines.map Prod.snd).map frameOf) := by
    induction lines with
    | nil => rfl
    | cons line rest ih =>
        obtain ⟨fits, absent⟩ := sendable line List.mem_cons_self
        rw [List.mapM_cons, clientFrame_eq line.1 fits absent, ok_bind,
          ih fun other member => sendable other (List.mem_cons_of_mem _ member), ok_bind]
        rfl
  unfold clientStream
  rw [frames, ok_bind]
  rfl

/-- **What is framed on one side comes out on the other.** For lines of at most 511
bytes without a zero byte, the session passes on exactly the lines, in order, leaves
no byte of the stream and waits for a header. -/
theorem stream_round_trip
    (lines : List (Buffer (headerLength + maxBodyLength) × CString))
    (sendable : ∀ line ∈ lines, line.2.length ≤ 511 ∧ 0 ∉ line.2)
    (memory : Buffer (headerLength + maxBodyLength)) :
    ∃ stream final, clientStream lines = .ok stream ∧
      (start memory).consume stream = .ok (final, lines.map Prod.snd, []) ∧
      final.reading = some .header ∧ final.joined = true := by
  have fits : ∀ line ∈ lines, line.2.length ≤ maxBodyLength ∧ 0 ∉ line.2 := by
    intro line member
    obtain ⟨short, absent⟩ := sendable line member
    exact ⟨le_trans short (by decide), absent⟩
  have frames : Frames headerLength decodedLength
      ((lines.map Prod.snd).map frameOf).flatten (lines.map Prod.snd) [] := by
    refine frames_flatten ?_ (by decide)
    intro body member
    obtain ⟨line, inside, rfl⟩ := List.mem_map.mp member
    obtain ⟨short, -⟩ := fits line inside
    exact ⟨formatLong 4 line.2.length, length_formatLong_bodyLength short,
      decodedLength_formatLong short, rfl⟩
  have room : ∀ body ∈ lines.map Prod.snd, body.length < maxBodyLength := by
    intro body member
    obtain ⟨line, inside, rfl⟩ := List.mem_map.mp member
    exact lt_of_le_of_lt (sendable line inside).1 (by decide)
  have whole : (lines.map Prod.snd).map upToNul = lines.map Prod.snd := by
    rw [map_upToNul_eq_self]
    intro body member
    obtain ⟨line, inside, rfl⟩ := List.mem_map.mp member
    exact (fits line inside).2
  obtain ⟨final, left, consumed, ends⟩ := consume_frames frames room (awaitsHeader_start memory)
  rw [whole] at consumed
  cases ends with
  | waiting short awaits left_eq =>
      rw [left_eq] at consumed
      exact ⟨_, final, clientStream_eq fits, consumed, awaits.reading, awaits.joined⟩
  | rejected long => exact absurd long (by decide)
  | incomplete long => exact absurd long (by decide)

/-- A long line, an empty one and a short one go through. -/
theorem stream_round_trip_three :
    (∀ line ∈ [(Buffer.zeros (headerLength + maxBodyLength), ascii "10|hightemplar|3.5"),
        (Buffer.zeros (headerLength + maxBodyLength), []),
        (Buffer.zeros (headerLength + maxBodyLength), ascii "11|2")],
        line.2.length ≤ 511 ∧ 0 ∉ line.2) ∧
      ∃ stream final,
        clientStream [(Buffer.zeros (headerLength + maxBodyLength), ascii "10|hightemplar|3.5"),
          (Buffer.zeros (headerLength + maxBodyLength), []),
          (Buffer.zeros (headerLength + maxBodyLength), ascii "11|2")] = .ok stream ∧
        (start (Buffer.zeros _)).consume stream =
          .ok (final, [ascii "10|hightemplar|3.5", [], ascii "11|2"], []) ∧
        final.reading = some .header ∧ final.joined = true :=
  ⟨by decide, stream_round_trip _ (by decide) _⟩

end VirtualAgent
