import VirtualAgent.RawMessage
import VirtualAgent.Library.Framing

/-!
# A session of the TCP server

A session asks for the four bytes of a header, decodes them, asks for as many bytes as
the header says, places a zero byte behind them and hands the body to the message
processor as a string. It does so until a header is not accepted; then it leaves the
connection manager and asks for nothing more.

An asynchronous read completes when the stream holds the bytes asked for, and delivers
exactly these (`readOnce`). `consume` performs reads as long as one completes. The
reads of a stream are bounded by its length, since each frame has a header.

The session divides a stream with `decodedLength`: `consume_frames` says what comes
out when every body leaves room for the zero byte behind it, and `consume_overrun`
that the zero byte is otherwise written outside the array.
-/

set_option autoImplicit false

namespace VirtualAgent

open CText Outcome Framing RawMessage

/-- What the outstanding `async_read` of a session asks for. -/
inductive Reading
  | header
  | body
  deriving DecidableEq, Repr

/-- A session: its buffer, whether the connection manager holds it, and the read it
waits for, if any. -/
structure TcpSession where
  readMsg : RawMessage
  joined : Bool
  reading : Option Reading

namespace TcpSession

/-- `start()`, for a session made in memory that holds the given bytes. -/
def start (data : Buffer (headerLength + maxBodyLength)) : TcpSession where
  readMsg := create data
  joined := true
  reading := some .header

/-- `tcpConnMgr_.leave(shared_from_this())`, after which no read is asked for. -/
def leave (session : TcpSession) : TcpSession :=
  { session with joined := false, reading := none }

/-- `handleReadHeader(error)`. -/
def handleReadHeader (session : TcpSession) (error : Bool) : Except Overrun TcpSession :=
  if error then return session.leave
  else do
    let (accepted, readMsg) ← session.readMsg.decodeHeader
    if accepted then return { session with readMsg, reading := some .body }
    else return { session with readMsg }.leave

/-- `handleReadBody(error)`, with the strings given to `processTcpMsg`. -/
def handleReadBody (session : TcpSession) (error : Bool) :
    Except Overrun (TcpSession × List CString) :=
  if error then return (session.leave, [])
  else do
    -- strcpy of the empty string writes its terminator
    let data ← session.readMsg.data.write (headerLength + session.readMsg.bodyLength) [0]
    return ({ session with readMsg := { session.readMsg with data }, reading := some .header },
      [data.cString headerLength])

/-- One completed read: the session after its handler, the strings passed on and what
is left of the stream. There is none when no read is asked for or the stream is too
short for it. -/
def readOnce (session : TcpSession) (stream : CString) :
    Except Overrun (Option (TcpSession × List CString × CString)) :=
  match session.reading with
  | none => return none
  | some .header =>
      if stream.length < headerLength then return none
      else do
        let data ← session.readMsg.data.write 0 (stream.take headerLength)
        let after ← { session with readMsg := { session.readMsg with data } }.handleReadHeader false
        return some (after, [], stream.drop headerLength)
  | some .body =>
      let asked := session.readMsg.bodyLength
      if stream.length < asked then return none
      else do
        let data ← session.readMsg.data.write headerLength (stream.take asked)
        let (after, messages) ←
          { session with readMsg := { session.readMsg with data } }.handleReadBody false
        return some (after, messages, stream.drop asked)

/-- Perform at most so many reads. -/
def consumeAtMost : ℕ → TcpSession → CString →
    Except Overrun (TcpSession × List CString × CString)
  | 0, session, stream => return (session, [], stream)
  | reads + 1, session, stream => do
      match ← session.readOnce stream with
      | none => return (session, [], stream)
      | some (after, messages, rest) =>
          let (final, later, left) ← consumeAtMost reads after rest
          return (final, messages ++ later, left)

/-- Perform every read that completes on the stream: two for a frame of at least four
bytes, and one for a body that may be empty. -/
def consume (session : TcpSession) (stream : CString) :
    Except Overrun (TcpSession × List CString × CString) :=
  consumeAtMost (stream.length + 2) session stream

/-! ## Reads that do not complete -/

theorem readOnce_of_silent {session : TcpSession} (silent : session.reading = none)
    (stream : CString) : session.readOnce stream = .ok none := by
  unfold readOnce
  rw [silent]
  rfl

theorem readOnce_of_short_header {session : TcpSession} {stream : CString}
    (reading : session.reading = some .header) (short : stream.length < headerLength) :
    session.readOnce stream = .ok none := by
  unfold readOnce
  rw [reading]
  simp only [if_pos short]
  rfl

theorem readOnce_of_short_body {session : TcpSession} {stream : CString}
    (reading : session.reading = some .body)
    (short : stream.length < session.readMsg.bodyLength) :
    session.readOnce stream = .ok none := by
  unfold readOnce
  rw [reading]
  simp only [if_pos short]
  rfl

/-! ## One frame -/

/-- A session that waits for a header. -/
structure AwaitsHeader (session : TcpSession) : Prop where
  reading : session.reading = some .header
  joined : session.joined = true

theorem awaitsHeader_start (data : Buffer (headerLength + maxBodyLength)) :
    (start data).AwaitsHeader := ⟨rfl, rfl⟩

/-- The header is placed in the buffer and decoded there. -/
theorem readOnce_header {session : TcpSession} {header : CString}
    (awaits : session.AwaitsHeader) (length : header.length = headerLength) (rest : CString) :
    ∃ data, data.bytes.take headerLength = header ∧
      session.readOnce (header ++ rest) =
        (({ session with readMsg := { session.readMsg with data } }.handleReadHeader
          false).map fun after => some (after, [], rest)) := by
  obtain ⟨data, written⟩ := session.readMsg.data.exists_write_eq_ok.mpr
    (show 0 + ((header ++ rest).take headerLength).length ≤ headerLength + maxBodyLength by
      rw [List.take_left' length]
      omega)
  refine ⟨data, ?_, ?_⟩
  · have behind := Buffer.drop_of_write written
    rw [List.drop_zero, List.take_left' length] at behind
    rw [behind]
    exact List.take_left' length
  · have long : ¬ (header ++ rest).length < headerLength := by
      rw [List.length_append]
      omega
    unfold readOnce
    rw [awaits.reading]
    simp only [if_neg long]
    rw [written, ok_bind, List.drop_left' length]
    cases handleReadHeader { session with readMsg := { session.readMsg with data } } false <;> rfl

/-- An accepted header makes the session ask for the body. -/
theorem readOnce_accepted {session : TcpSession} {header : CString} {length : ℕ}
    (awaits : session.AwaitsHeader) (four : header.length = headerLength)
    (decoded : decodedLength header = some length) (rest : CString) :
    ∃ after, session.readOnce (header ++ rest) = .ok (some (after, [], rest)) ∧
      after.reading = some .body ∧ after.joined = true ∧ after.readMsg.bodyLength = length := by
  obtain ⟨data, held, read⟩ := readOnce_header awaits four rest
  rw [← held] at decoded
  obtain ⟨next, accepted, -, bodyLength⟩ :=
    decodeHeader_of_some { session.readMsg with data } decoded
  refine ⟨{ session with readMsg := next, reading := some .body }, ?_, rfl, awaits.joined,
    bodyLength⟩
  rw [read]
  unfold handleReadHeader
  simp only [Bool.false_eq_true, if_false, accepted, ok_bind, if_true]
  rfl

/-- A header that is not accepted ends the session. -/
theorem readOnce_rejected {session : TcpSession} {header : CString}
    (awaits : session.AwaitsHeader) (four : header.length = headerLength)
    (decoded : decodedLength header = none) (rest : CString) :
    ∃ after, session.readOnce (header ++ rest) = .ok (some (after, [], rest)) ∧
      after.reading = none ∧ after.joined = false ∧ after.readMsg.bodyLength = 0 := by
  obtain ⟨data, held, read⟩ := readOnce_header awaits four rest
  rw [← held] at decoded
  obtain ⟨next, rejected, -, bodyLength⟩ :=
    decodeHeader_of_none { session.readMsg with data } decoded
  refine ⟨{ session with readMsg := next }.leave, ?_, rfl, rfl, bodyLength⟩
  rw [read]
  unfold handleReadHeader
  simp only [Bool.false_eq_true, if_false, rejected, ok_bind]
  rfl

/-- **A body is passed on up to its first zero byte when there is room for the zero
byte behind it.** What the buffer held of an earlier message plays no part. -/
theorem readOnce_body {session : TcpSession} {body : CString}
    (awaits : session.reading = some .body) (joined : session.joined = true)
    (asked : session.readMsg.bodyLength = body.length) (room : body.length < maxBodyLength)
    (rest : CString) :
    ∃ after, session.readOnce (body ++ rest) = .ok (some (after, [upToNul body], rest)) ∧
      after.AwaitsHeader ∧ after.readMsg.bodyLength = body.length := by
  obtain ⟨data, written⟩ := session.readMsg.data.exists_write_eq_ok.mpr
    (show headerLength + body.length ≤ headerLength + maxBodyLength by omega)
  obtain ⟨terminated, closed⟩ := data.exists_write_eq_ok.mpr
    (show headerLength + body.length + ([0] : List UInt8).length ≤ headerLength + maxBodyLength by
      rw [List.length_singleton]
      omega)
  have long : ¬ (body ++ rest).length < body.length := by
    rw [List.length_append]
    omega
  refine ⟨{ session with
    readMsg := { session.readMsg with data := terminated }, reading := some .header },
    ?_, ⟨rfl, joined⟩, asked⟩
  unfold readOnce handleReadBody
  rw [awaits]
  simp only [asked, if_neg long, List.take_left, List.drop_left, Bool.false_eq_true, if_false]
  rw [written, ok_bind, closed, ← Buffer.cString_of_terminated written closed]
  rfl

/-- **Behind a body of the greatest length there is no room for the zero byte.** -/
theorem readOnce_overrun {session : TcpSession} {body rest : CString}
    (awaits : session.reading = some .body)
    (asked : session.readMsg.bodyLength = body.length) (full : body.length = maxBodyLength) :
    session.readOnce (body ++ rest) = .error .overrun := by
  obtain ⟨data, written⟩ := session.readMsg.data.exists_write_eq_ok.mpr
    (show headerLength + body.length ≤ headerLength + maxBodyLength by omega)
  have outside : data.write (headerLength + body.length) [0] = .error .overrun := by
    apply Buffer.write_eq_error
    rw [List.length_singleton]
    omega
  have long : ¬ (body ++ rest).length < body.length := by
    rw [List.length_append]
    omega
  unfold readOnce handleReadBody
  rw [awaits]
  simp only [asked, if_neg long, List.take_left, List.drop_left, Bool.false_eq_true, if_false]
  rw [written, ok_bind, outside]
  rfl

/-! ## A whole stream -/

theorem consumeAtMost_stop {session : TcpSession} {stream : CString}
    (stop : session.readOnce stream = .ok none) (reads : ℕ) :
    consumeAtMost reads session stream = .ok (session, [], stream) := by
  cases reads with
  | zero => rfl
  | succ reads =>
      unfold consumeAtMost
      rw [stop, ok_bind]
      rfl

theorem consumeAtMost_succ {session after : TcpSession} {stream rest : CString}
    {messages : List CString}
    (read : session.readOnce stream = .ok (some (after, messages, rest))) (reads : ℕ) :
    consumeAtMost (reads + 1) session stream =
      (consumeAtMost reads after rest).map fun result =>
        (result.1, messages ++ result.2.1, result.2.2) := by
  rw [consumeAtMost, read, ok_bind]
  dsimp only
  cases consumeAtMost reads after rest <;> rfl

/-- How a session stands when no further read completes: `left` is what it has not
taken of the bytes behind the last complete frame. -/
inductive Ends (rest : CString) (final : TcpSession) (left : CString) : Prop
  | waiting (short : rest.length < headerLength) (awaits : final.AwaitsHeader)
      (left_eq : left = rest)
  | rejected (long : headerLength ≤ rest.length)
      (refused : decodedLength (rest.take headerLength) = none)
      (gone : final.joined = false) (silent : final.reading = none)
  | incomplete (long : headerLength ≤ rest.length)
      (accepted : decodedLength (rest.take headerLength) ≠ none)
      (joined : final.joined = true) (awaits : final.reading = some .body)

/-- **The session leaves exactly at a header that is not accepted**, and then asks for
nothing more. -/
theorem Ends.left_iff {rest left : CString} {final : TcpSession} (ends : Ends rest final left) :
    (final.joined = false ∧ final.reading = none) ↔
      headerLength ≤ rest.length ∧ decodedLength (rest.take headerLength) = none := by
  cases ends with
  | waiting short awaits _ =>
      rw [awaits.joined]
      constructor
      · rintro ⟨impossible, -⟩
        cases impossible
      · rintro ⟨long, -⟩
        omega
  | rejected long refused gone silent => exact ⟨fun _ => ⟨long, refused⟩, fun _ => ⟨gone, silent⟩⟩
  | incomplete _ accepted joined _ =>
      rw [joined]
      constructor
      · rintro ⟨impossible, -⟩
        cases impossible
      · rintro ⟨-, refused⟩
        exact absurd refused accepted

/-- Two reads take a complete frame. -/
theorem consumeAtMost_frame {session : TcpSession} {stream body rest : CString}
    (awaits : session.AwaitsHeader)
    (next : nextFrame headerLength decodedLength stream = some (body, rest))
    (room : body.length < maxBodyLength) :
    ∃ after : TcpSession, after.AwaitsHeader ∧ ∀ reads,
      consumeAtMost (reads + 2) session stream =
        (consumeAtMost reads after rest).map fun result =>
          (result.1, upToNul body :: result.2.1, result.2.2) := by
  obtain ⟨header, four, decoded, rfl⟩ := nextFrame_eq_some.mp next
  obtain ⟨asking, accepted, reading, joined, asked⟩ :=
    readOnce_accepted awaits four decoded (body ++ rest)
  obtain ⟨after, passed, awaitsNext, -⟩ :=
    readOnce_body reading joined asked room rest
  refine ⟨after, awaitsNext, ?_⟩
  intro reads
  rw [consumeAtMost_succ accepted, consumeAtMost_succ passed]
  cases consumeAtMost reads after rest <;> rfl

/-- Where no complete frame follows, at most a header is read. -/
theorem consumeAtMost_rest {session : TcpSession} {rest : CString}
    (awaits : session.AwaitsHeader) (complete : nextFrame headerLength decodedLength rest = none)
    (reads : ℕ) :
    ∃ final left, consumeAtMost (reads + 2) session rest = .ok (final, [], left) ∧
      Ends rest final left := by
  by_cases short : rest.length < headerLength
  · refine ⟨session, rest, ?_, .waiting short awaits rfl⟩
    exact consumeAtMost_stop (readOnce_of_short_header awaits.reading short) _
  · have long : headerLength ≤ rest.length := Nat.not_lt.mp short
    have four : (rest.take headerLength).length = headerLength := by
      rw [List.length_take, Nat.min_eq_left long]
    cases decoded : decodedLength (rest.take headerLength) with
    | none =>
        obtain ⟨after, rejected, silent, gone, -⟩ :=
          readOnce_rejected awaits four decoded (rest.drop headerLength)
        rw [List.take_append_drop] at rejected
        have stop := readOnce_of_silent silent (rest.drop headerLength)
        refine ⟨after, rest.drop headerLength, ?_, .rejected long decoded gone silent⟩
        rw [consumeAtMost_succ rejected, consumeAtMost_stop stop]
        rfl
    | some length =>
        obtain ⟨after, accepted, reading, joined, asked⟩ :=
          readOnce_accepted awaits four decoded (rest.drop headerLength)
        rw [List.take_append_drop] at accepted
        have partial_ : (rest.drop headerLength).length < length := by
          by_contra enough
          unfold nextFrame at complete
          rw [if_neg short, decoded, Option.bind_some, if_neg enough] at complete
          cases complete
        have stop := readOnce_of_short_body reading (asked ▸ partial_)
        refine ⟨after, rest.drop headerLength, ?_,
          .incomplete long (by rw [decoded]; exact Option.some_ne_none _) joined reading⟩
        rw [consumeAtMost_succ accepted, consumeAtMost_stop stop]
        rfl

theorem consumeAtMost_frames {stream rest : CString} {bodies : List CString}
    (frames : Frames headerLength decodedLength stream bodies rest)
    (room : ∀ body ∈ bodies, body.length < maxBodyLength) {session : TcpSession}
    (awaits : session.AwaitsHeader) {reads : ℕ} (enough : stream.length + 2 ≤ reads) :
    ∃ final left, consumeAtMost reads session stream = .ok (final, bodies.map upToNul, left) ∧
      Ends rest final left := by
  induction frames generalizing session reads with
  | done complete =>
      obtain ⟨fewer, rfl⟩ := Nat.exists_eq_add_of_le' (le_trans (Nat.le_add_left 2 _) enough)
      exact consumeAtMost_rest awaits complete fewer
  | @frame stream body later rest bodies next _ ih =>
      obtain ⟨fewer, rfl⟩ := Nat.exists_eq_add_of_le' (le_trans (Nat.le_add_left 2 _) enough)
      obtain ⟨after, awaitsNext, step⟩ :=
        consumeAtMost_frame awaits next (room body List.mem_cons_self)
      obtain ⟨header, four, -, rfl⟩ := nextFrame_eq_some.mp next
      have enoughLater : later.length + 2 ≤ fewer := by
        simp only [List.length_append, four, headerLength] at enough
        omega
      obtain ⟨final, left, consumed, ends⟩ :=
        ih (fun other member => room other (List.mem_cons_of_mem _ member)) awaitsNext
          enoughLater
      refine ⟨final, left, ?_, ends⟩
      rw [step, consumed]
      rfl

/-- **What a session makes of a stream.** It passes on the bodies of the complete
frames, each up to its first zero byte, in order, when every body leaves room for the
zero byte behind it. -/
theorem consume_frames {stream rest : CString} {bodies : List CString}
    (frames : Frames headerLength decodedLength stream bodies rest)
    (room : ∀ body ∈ bodies, body.length < maxBodyLength) {session : TcpSession}
    (awaits : session.AwaitsHeader) :
    ∃ final left, session.consume stream = .ok (final, bodies.map upToNul, left) ∧
      Ends rest final left :=
  consumeAtMost_frames frames room awaits le_rfl

theorem consumeAtMost_overrun {stream rest : CString} {bodies : List CString}
    (frames : Frames headerLength decodedLength stream bodies rest)
    (full : ∃ body ∈ bodies, maxBodyLength ≤ body.length) {session : TcpSession}
    (awaits : session.AwaitsHeader) {reads : ℕ} (enough : stream.length + 2 ≤ reads) :
    consumeAtMost reads session stream = .error .overrun := by
  induction frames generalizing session reads with
  | done => simp at full
  | @frame stream body later rest bodies next _ ih =>
      obtain ⟨fewer, rfl⟩ := Nat.exists_eq_add_of_le' (le_trans (Nat.le_add_left 2 _) enough)
      by_cases room : body.length < maxBodyLength
      · obtain ⟨after, awaitsNext, step⟩ := consumeAtMost_frame awaits next room
        obtain ⟨header, four, -, rfl⟩ := nextFrame_eq_some.mp next
        have laterFull : ∃ other ∈ bodies, maxBodyLength ≤ other.length := by
          obtain ⟨other, member, long⟩ := full
          rcases List.mem_cons.mp member with rfl | member
          · omega
          · exact ⟨other, member, long⟩
        have enoughLater : later.length + 2 ≤ fewer := by
          simp only [List.length_append, four, headerLength] at enough
          omega
        rw [step, ih laterFull awaitsNext enoughLater]
        rfl
      · obtain ⟨header, four, decoded, rfl⟩ := nextFrame_eq_some.mp next
        obtain ⟨asking, accepted, reading, -, asked⟩ :=
          readOnce_accepted awaits four decoded (body ++ later)
        have exact_ : body.length = maxBodyLength :=
          le_antisymm (decodedLength_le decoded) (Nat.not_lt.mp room)
        rw [consumeAtMost_succ accepted, consumeAtMost, readOnce_overrun reading asked exact_]
        rfl

/-- **A body of the greatest length makes the session write outside its array.** -/
theorem consume_overrun {stream rest : CString} {bodies : List CString}
    (frames : Frames headerLength decodedLength stream bodies rest)
    (full : ∃ body ∈ bodies, maxBodyLength ≤ body.length) {session : TcpSession}
    (awaits : session.AwaitsHeader) : session.consume stream = .error .overrun :=
  consumeAtMost_overrun frames full awaits le_rfl

end TcpSession

end VirtualAgent
