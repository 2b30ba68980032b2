import VirtualAgent.TcpSession

/-!
# The receive buffers

The UDP server receives a datagram into an array of 1024 bytes and places a zero byte
behind it; the TCP session does the same with a body of at most 512 bytes behind a
header of four in an array of 516. Both receive calls may fill their array to the last
byte, so the zero byte of the longest datagram and that of the longest body fall outside
(`longest_messages_overrun`).

`receives_in_bounds_iff` says that nothing else does: the receive paths stay in bounds,
and pass on the received bytes up to their first zero byte, exactly when no datagram
and no body of an accepted frame has the greatest length.
-/

set_option autoImplicit false

namespace VirtualAgent

open CText Outcome Framing RawMessage TcpSession

/-! ## The UDP server -/

/-- `MAX_LENGTH`. -/
def maxLength : ℕ := 1024

/-- `UdpAsyncServer`, with the array it receives into. -/
structure UdpAsyncServer where
  data : Buffer maxLength

namespace UdpAsyncServer

/-- `handleReceiveFrom(error, bytes_recvd)`, with the strings given to `processUdpMsg`. -/
def handleReceiveFrom (server : UdpAsyncServer) (error : Bool) (bytesRecvd : ℕ) :
    Except Overrun (UdpAsyncServer × List CString) :=
  if !error && 0 < bytesRecvd then do
    -- strcpy of the empty string writes its terminator
    let data ← server.data.write bytesRecvd [0]
    return ({ data }, [data.cString 0])
  else return (server, [])

/-- One completed receive, which delivers the given bytes. -/
def receiveFrom (server : UdpAsyncServer) (received : CString) :
    Except Overrun (UdpAsyncServer × List CString) := do
  let data ← server.data.write 0 received
  handleReceiveFrom { data } false received.length

/-- Several receives, one after the other. -/
def receiveAll : UdpAsyncServer → List CString → Except Overrun (UdpAsyncServer × List CString)
  | server, [] => return (server, [])
  | server, received :: rest => do
      let (server, messages) ← server.receiveFrom received
      let (server, later) ← receiveAll server rest
      return (server, messages ++ later)

/-- A datagram with room for a zero byte behind it is passed on up to its own first zero
byte, whatever an earlier one left in the array. -/
theorem receiveFrom_of_room (server : UdpAsyncServer) {received : CString}
    (nonempty : 0 < received.length) (room : received.length < maxLength) :
    ∃ next, server.receiveFrom received = .ok (next, [upToNul received]) := by
  obtain ⟨data, written⟩ := server.data.exists_write_eq_ok.mpr
    (show 0 + received.length ≤ maxLength by omega)
  obtain ⟨terminated, closed⟩ := data.exists_write_eq_ok.mpr
    (show received.length + ([0] : List UInt8).length ≤ maxLength by
      rw [List.length_singleton]
      omega)
  have text : terminated.cString 0 = upToNul received :=
    Buffer.cString_of_terminated written (by rw [Nat.zero_add]; exact closed)
  refine ⟨{ data := terminated }, ?_⟩
  unfold receiveFrom handleReceiveFrom
  rw [written, ok_bind, if_pos (by simpa using nonempty), closed, ok_bind, text]
  rfl

/-- Behind a datagram of the greatest length there is no room for the zero byte. -/
theorem receiveFrom_overrun (server : UdpAsyncServer) {received : CString}
    (full : received.length = maxLength) :
    server.receiveFrom received = .error .overrun := by
  obtain ⟨data, written⟩ := server.data.exists_write_eq_ok.mpr
    (show 0 + received.length ≤ maxLength by omega)
  have outside : data.write received.length [0] = .error .overrun := by
    apply Buffer.write_eq_error
    rw [List.length_singleton]
    omega
  have nonempty : 0 < received.length := by
    rw [full]
    decide
  unfold receiveFrom handleReceiveFrom
  rw [written, ok_bind, if_pos (by simpa using nonempty), outside]
  rfl

/-- **The UDP server stays in its array exactly when every datagram leaves room for the
zero byte.** -/
theorem receiveAll_iff {datagrams : List CString}
    (delivered : ∀ received ∈ datagrams, 0 < received.length ∧ received.length ≤ maxLength)
    (server : UdpAsyncServer) :
    (∃ final, server.receiveAll datagrams = .ok (final, datagrams.map upToNul)) ↔
      ∀ received ∈ datagrams, received.length < maxLength := by
  induction datagrams generalizing server with
  | nil =>
      constructor
      · intro _ received member
        cases member
      · intro _
        exact ⟨server, rfl⟩
  | cons received rest ih =>
      obtain ⟨nonempty, atMost⟩ := delivered received List.mem_cons_self
      have later := ih fun other member => delivered other (List.mem_cons_of_mem _ member)
      rw [List.forall_mem_cons]
      by_cases room : received.length < maxLength
      · obtain ⟨next, passed⟩ := server.receiveFrom_of_room nonempty room
        rw [← later next, receiveAll, passed, ok_bind]
        constructor
        · rintro ⟨final, done⟩
          obtain ⟨⟨after, messages⟩, remaining, returned⟩ := bind_eq_ok.mp done
          cases returned
          exact ⟨room, _, remaining⟩
        · rintro ⟨-, final, done⟩
          refine ⟨final, ?_⟩
          dsimp only
          rw [done]
          rfl
      · have overrun := server.receiveFrom_overrun (le_antisymm atMost (Nat.not_lt.mp room))
        constructor
        · rintro ⟨final, done⟩
          rw [receiveAll, overrun] at done
          cases done
        · rintro ⟨short, -⟩
          exact absurd short room

end UdpAsyncServer

/-! ## Both receive paths -/

/-- Every write of the receive paths falls inside its array, the length of a message
keeps its bound, and what is passed on is what was received, up to the first zero byte. -/
structure ReceivesInBounds (udpMemory : Buffer maxLength)
    (tcpMemory : Buffer (headerLength + maxBodyLength)) (datagrams : List CString)
    (stream : CString) (bodies : List CString) : Prop where
  encodes : ∀ msg : RawMessage, ∃ next, msg.encodeHeader = .ok next ∧
    next.bodyLength ≤ maxBodyLength
  decodes : ∀ msg : RawMessage, ∃ accepted next, msg.decodeHeader = .ok (accepted, next) ∧
    next.bodyLength ≤ maxBodyLength
  receives : ∃ final, UdpAsyncServer.receiveAll ⟨udpMemory⟩ datagrams =
    .ok (final, datagrams.map upToNul)
  reads : ∃ final left, (start tcpMemory).consume stream =
    .ok (final, bodies.map upToNul, left) ∧ final.readMsg.bodyLength ≤ maxBodyLength

theorem decodeHeader_in_bounds (msg : RawMessage) :
    ∃ accepted next, msg.decodeHeader = .ok (accepted, next) ∧
      next.bodyLength ≤ maxBodyLength := by
  cases decoded : decodedLength (msg.data.bytes.take headerLength) with
  | some length =>
      obtain ⟨next, done, -, -⟩ := decodeHeader_of_some _ decoded
      exact ⟨true, next, done, next.bodyLength_le⟩
  | none =>
      obtain ⟨next, done, -, -⟩ := decodeHeader_of_none _ decoded
      exact ⟨false, next, done, next.bodyLength_le⟩

/-- **When the receive paths stay in their arrays.** For all datagrams that the receive
call can deliver and every stream, divided into the frames that `decode_header` accepts
and the rest: exactly when no datagram and no accepted body has the greatest length. -/
theorem receives_in_bounds_iff {datagrams bodies : List CString} {stream rest : CString}
    (delivered : ∀ received ∈ datagrams, 0 < received.length ∧ received.length ≤ maxLength)
    (frames : Frames headerLength decodedLength stream bodies rest)
    (udpMemory : Buffer maxLength) (tcpMemory : Buffer (headerLength + maxBodyLength)) :
    ReceivesInBounds udpMemory tcpMemory datagrams stream bodies ↔
      (∀ received ∈ datagrams, received.length < maxLength) ∧
        ∀ body ∈ bodies, body.length < maxBodyLength := by
  constructor
  · intro inBounds
    refine ⟨(UdpAsyncServer.receiveAll_iff delivered _).mp inBounds.receives, ?_⟩
    by_contra crowded
    push Not at crowded
    obtain ⟨final, left, consumed, -⟩ := inBounds.reads
    rw [consume_overrun frames crowded (awaitsHeader_start tcpMemory)] at consumed
    cases consumed
  · rintro ⟨roomUdp, roomTcp⟩
    obtain ⟨final, left, consumed, -⟩ :=
      consume_frames frames roomTcp (awaitsHeader_start tcpMemory)
    exact {
      encodes := fun msg => by
        obtain ⟨next, done, -, -⟩ := encodeHeader_eq_ok msg
        exact ⟨next, done, next.bodyLength_le⟩
      decodes := decodeHeader_in_bounds
      receives := (UdpAsyncServer.receiveAll_iff delivered _).mpr roomUdp
      reads := ⟨final, left, consumed, final.readMsg.bodyLength_le⟩ }

/-- A datagram and a frame that end in zero bytes, and a header that is refused. -/
theorem receives_in_bounds_small :
    ReceivesInBounds (Buffer.zeros maxLength) (Buffer.zeros _) [ascii "10|a|1.5", [0]]
      (ascii "   411|2-1  11|3") [ascii "11|2"] := by
  have frames : Frames headerLength decodedLength (ascii "   411|2-1  11|3") [ascii "11|2"]
      (ascii "-1  11|3") := .frame (by decide +kernel) (.done (by decide +kernel))
  exact (receives_in_bounds_iff (by decide) frames _ _).mpr ⟨by decide, by decide⟩

/-- **The zero byte behind the longest datagram and behind the longest body falls outside
the array.** -/
theorem longest_messages_overrun :
    (¬ ∃ final, UdpAsyncServer.receiveAll ⟨Buffer.zeros maxLength⟩ [List.replicate 1024 65] =
        .ok (final, [upToNul (List.replicate 1024 65)])) ∧
      Frames headerLength decodedLength (ascii " 512" ++ List.replicate 512 65)
        [List.replicate 512 65] [] ∧
      ¬ ∃ final left, (start (Buffer.zeros _)).consume
        (ascii " 512" ++ List.replicate 512 65) =
          .ok (final, [upToNul (List.replicate 512 65)], left) := by
  have frames : Frames headerLength decodedLength (ascii " 512" ++ List.replicate 512 65)
      [List.replicate 512 65] [] :=
    .frame (nextFrame_eq_some.mpr ⟨ascii " 512", by decide, by decide +kernel,
      by rw [List.append_nil]⟩) (.done (by decide))
  refine ⟨?_, frames, ?_⟩
  · rintro ⟨final, done⟩
    have full : (List.replicate 1024 (65 : UInt8)).length = maxLength := List.length_replicate
    rw [UdpAsyncServer.receiveAll, UdpAsyncServer.receiveFrom_overrun _ full] at done
    cases done
  · rintro ⟨final, left, done⟩
    rw [consume_overrun frames
      ⟨_, List.mem_singleton_self _, by rw [List.length_replicate]; decide⟩
      (awaitsHeader_start _)] at done
    cases done

end VirtualAgent
