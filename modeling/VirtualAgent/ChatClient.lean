import VirtualAgent.FrameRoundTrip
import VirtualAgent.Library.SendQueue

/-!
# The client of the TCP server

The main thread of `chat_client` reads its standard input line by line, frames each line
in a message and posts it to the thread that runs the handlers; at the end of the input
it posts the closing of the socket. The handlers run one after the other: the posted
ones in the order they were posted in, and those of the asynchronous operations when
these complete.

`do_write` and `handle_write` keep the messages in a queue of which the first one is
being written. They are those of `Sender.push` and `Sender.complete`, for the bytes of
a message that are sent (`wire`). A session of the server writes by the same queue.

`linesOf` is what the loop of the main thread reads in a whole input.
-/

set_option autoImplicit false

namespace VirtualAgent

open CText Outcome RawMessage SendQueue

/-! ## The lines of the input -/

def newline : UInt8 := 10

/-- `std::cin.getline(line, MAX_BODY_LENGTH + 1)`: the line stored, and what is left of
the input. There is none when it fails, at the end of the input and at a line that is
too long for the array. -/
def getline (input : CString) : Option (CString × CString) :=
  let line := input.takeWhile (· != newline)
  if input = [] ∨ maxBodyLength < line.length then none
  else some (line, input.drop (line.length + 1))

/-- Read so many lines at most. -/
def linesAtMost : ℕ → CString → List CString
  | 0, _ => []
  | count + 1, input =>
      match getline input with
      | none => []
      | some (line, rest) => line :: linesAtMost count rest

/-- The lines read until `getline` fails. Each takes a byte at least. -/
def linesOf (input : CString) : List CString := linesAtMost input.length input

theorem getline_eq_some {input line rest : CString} :
    getline input = some (line, rest) ↔
      input ≠ [] ∧ line.length ≤ maxBodyLength ∧ line = input.takeWhile (· != newline) ∧
        rest = input.drop (line.length + 1) := by
  unfold getline
  simp only [Option.ite_none_left_eq_some, not_or, Nat.not_lt, Option.some.injEq, Prod.mk.injEq]
  constructor
  · rintro ⟨⟨nonempty, fits⟩, rfl, rfl⟩
    exact ⟨nonempty, fits, rfl, rfl⟩
  · rintro ⟨nonempty, fits, rfl, rfl⟩
    exact ⟨⟨nonempty, fits⟩, rfl, rfl⟩

theorem length_lt_of_getline {input line rest : CString}
    (read : getline input = some (line, rest)) : rest.length < input.length := by
  obtain ⟨nonempty, -, -, rfl⟩ := getline_eq_some.mp read
  have positive := List.length_pos_iff.mpr nonempty
  rw [List.length_drop]
  omega

/-- Reading on changes nothing once every line is read. -/
theorem linesAtMost_of_le {count : ℕ} {input : CString} (enough : input.length ≤ count) :
    linesAtMost count input = linesOf input := by
  unfold linesOf
  generalize exact_ : input.length = size at enough
  induction size using Nat.strong_induction_on generalizing count input with
  | _ size ih =>
      cases read : getline input with
      | none => cases count <;> cases size <;> simp [linesAtMost, read]
      | some found =>
          obtain ⟨line, rest⟩ := found
          have shorter := length_lt_of_getline read
          obtain ⟨fewer, rfl⟩ : ∃ fewer, count = fewer + 1 :=
            Nat.exists_eq_add_of_le' (by omega)
          obtain ⟨smaller, rfl⟩ : ∃ smaller, size = smaller + 1 :=
            Nat.exists_eq_add_of_le' (by omega)
          have here : linesAtMost fewer rest = linesAtMost rest.length rest :=
            ih rest.length (by omega) rfl (by omega)
          have there : linesAtMost smaller rest = linesAtMost rest.length rest :=
            ih rest.length (by omega) rfl (by omega)
          simp only [linesAtMost, read, here, there]

/-- **The lines of an input are its first one and those of the rest.** -/
theorem linesOf_of_getline {input line rest : CString}
    (read : getline input = some (line, rest)) : linesOf input = line :: linesOf rest := by
  have shorter := length_lt_of_getline read
  obtain ⟨fewer, size⟩ : ∃ fewer, input.length = fewer + 1 :=
    Nat.exists_eq_add_of_le' (by omega)
  unfold linesOf
  rw [size, linesAtMost, read]
  exact congrArg (line :: ·) (linesAtMost_of_le (by omega))

/-! ## The messages -/

/-- The bytes of a message that are sent. -/
def RawMessage.wire (msg : RawMessage) : CString := msg.data.bytes.take msg.length

/-- The message made of a line, in memory that holds the given bytes. -/
def messageOf (memory : Buffer (headerLength + maxBodyLength)) (line : CString) :
    Except Overrun RawMessage := do
  let msg := (create memory).setBodyLength (upToNul line).length
  let data ← msg.data.write headerLength (line.take msg.bodyLength)
  { msg with data }.encodeHeader

/-- **A line that fits is sent as the frame of what stands before its first zero byte.** -/
theorem messageOf_eq_ok (memory : Buffer (headerLength + maxBodyLength)) {line : CString}
    (fits : line.length ≤ maxBodyLength) :
    ∃ msg, messageOf memory line = .ok msg ∧ msg.wire = frameOf (upToNul line) := by
  have shorter : (upToNul line).length ≤ maxBodyLength := (length_upToNul_le line).trans fits
  have text : line.take (upToNul line).length = upToNul line :=
    (List.prefix_iff_eq_take.mp (List.takeWhile_prefix _)).symm
  have framed := clientFrame_eq memory shorter (upToNul_eq_self.mp (upToNul_upToNul line))
  have same : clientFrame memory (upToNul line) = (messageOf memory line).map wire := by
    have sized : ((create memory).setBodyLength (upToNul line).length).bodyLength =
        (upToNul line).length := Nat.min_eq_left shorter
    unfold clientFrame messageOf
    rw [upToNul_upToNul]
    simp only [sized, text, List.take_length]
    cases ((create memory).setBodyLength (upToNul line).length).data.write headerLength
      (upToNul line) with
    | error fault => rfl
    | ok data =>
        simp only [ok_bind]
        cases encodeHeader _ <;> rfl
  rw [same] at framed
  cases made : messageOf memory line with
  | error fault =>
      rw [made] at framed
      cases framed
  | ok msg =>
      rw [made] at framed
      exact ⟨msg, rfl, Except.ok.inj framed⟩

/-! ## The client -/

/-- A handler passed to `io_service_.post`. -/
inductive Posted where
  | doWrite (msg : RawMessage)
  | doClose

/-- The messages of the handlers posted. -/
def Posted.message : Posted → Option RawMessage
  | .doWrite msg => some msg
  | .doClose => none

inductive Connection where
  | connecting
  | connected
  | closed
  deriving DecidableEq

/-- The input left to the main thread and whether it has left its loop, the handlers
posted, the socket, and `write_msgs_` with what the socket has been given of it. -/
structure ChatClient where
  stdin : CString
  ended : Bool := false
  posted : List Posted := []
  connection : Connection := .connecting
  writing : Sender RawMessage UInt8 := .empty

namespace ChatClient

/-- `main`: one turn of the loop, or what follows the loop. -/
def main (client : ChatClient) (memory : Buffer (headerLength + maxBodyLength)) :
    Option ChatClient :=
  if client.ended then none
  else
    match getline client.stdin with
    | some (line, rest) =>
        (messageOf memory line).toOption.map fun msg =>
          { client with stdin := rest, posted := client.posted ++ [.doWrite msg] }
    | none => some { client with ended := true, posted := client.posted ++ [.doClose] }

/-- `do_write(msg)`. -/
def doWrite (client : ChatClient) (msg : RawMessage) : ChatClient :=
  { client with writing := client.writing.push wire msg }

/-- `do_close()`. -/
def doClose (client : ChatClient) : ChatClient := { client with connection := .closed }

/-- The handler posted first runs. -/
def runPosted (client : ChatClient) : Option ChatClient :=
  match client.posted with
  | [] => none
  | .doWrite msg :: rest => some ({ client with posted := rest }.doWrite msg)
  | .doClose :: rest => some { client with posted := rest }.doClose

/-- `handle_connect` without an error. -/
def handleConnect (client : ChatClient) : Option ChatClient :=
  if client.connection = .connecting then some { client with connection := .connected } else none

/-- The socket takes bytes of an outstanding write, while it is connected. -/
def transfer (client : ChatClient) (index count : ℕ) : Option ChatClient :=
  if client.connection = .connected then
    (client.writing.transfer index count).map fun writing => { client with writing }
  else none

/-- `handle_write` of a write that has succeeded. -/
def handleWritten (client : ChatClient) (index : ℕ) : Option ChatClient :=
  (client.writing.complete wire index).map fun writing => { client with writing }

/-- `handle_write` of a write that has failed. -/
def handleWriteError (client : ChatClient) (index : ℕ) : Option ChatClient :=
  (client.writing.fail index).map fun writing => { client with writing }.doClose

/-- **What a turn of the main thread does**: it posts the message of a line, or the closing
when no line is left. -/
inductive MainTurn (client : ChatClient) : ChatClient → Prop where
  | posts (line rest : CString) (msg : RawMessage)
      (read : getline client.stdin = some (line, rest))
      (sent : msg.wire = frameOf (upToNul line)) :
      MainTurn client { client with stdin := rest, posted := client.posted ++ [.doWrite msg] }
  | closes (read : getline client.stdin = none) :
      MainTurn client { client with ended := true, posted := client.posted ++ [.doClose] }

theorem main_turn {client next : ChatClient} {memory : Buffer (headerLength + maxBodyLength)}
    (stepped : client.main memory = some next) :
    client.ended = false ∧ MainTurn client next := by
  obtain ⟨unfinished, turned⟩ := Option.ite_none_left_eq_some.mp stepped
  refine ⟨Bool.eq_false_iff.mpr unfinished, ?_⟩
  cases read : getline client.stdin with
  | none =>
      rw [read] at turned
      cases turned
      exact .closes read
  | some found =>
      obtain ⟨line, rest⟩ := found
      rw [read] at turned
      obtain ⟨msg, made, rfl⟩ := Option.map_eq_some_iff.mp turned
      obtain ⟨-, short, -, -⟩ := getline_eq_some.mp read
      obtain ⟨other, made', sent⟩ := messageOf_eq_ok memory short
      obtain rfl : other = msg := Except.ok.inj (made'.symm.trans (toOption_eq_some.mp made))
      exact .posts line rest other read sent

end ChatClient

end VirtualAgent
