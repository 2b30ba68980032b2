import VirtualAgent.ChatClient
import VirtualAgent.Library.Transition

/-!
# A client and its session

One client connected to the server, as the steps of its two threads, of the network and
of the session. The socket takes the bytes of a write in pieces of any size, the network
delivers them in pieces of any size, and the session reads when the bytes it asked for
have arrived. Any operation can fail, and the input can end, at any moment.

`Carries` ties the ends together: the messages posted and queued are those of the lines
read, what the socket has taken is a prefix of their frames, and the session stands
somewhere in these frames (`ReadsAlong`). Every step keeps it (`Carries.step`), so the
strings given to the message processor are a prefix of the lines of the client's input,
in every interleaving (`processed_prefix`).
-/

set_option autoImplicit false

namespace VirtualAgent

open CText Outcome Framing RawMessage TcpSession SendQueue Transition

/-- A client, the bytes in the network and those that have arrived, the session of the
server once it is accepted, and the strings it has given to `processTcpMsg`. -/
structure Link where
  client : ChatClient
  transit : CString := []
  arrived : CString := []
  session : Option TcpSession := none
  processed : List CString := []

/-- A client that has read nothing of its input. -/
def Link.initial (stdin : CString) : Link := { client := { stdin } }

inductive LinkAction where
  /-- The main thread reads a line, and makes a message of it in the given memory. -/
  | main (memory : Buffer (headerLength + maxBodyLength))
  | connect
  | posted
  | transfer (index count : ℕ)
  | written (index : ℕ)
  | writeFails (index : ℕ)
  /-- The client's own read fails, and it closes the socket. -/
  | readFails
  | arrive (count : ℕ)
  /-- The server accepts the connection. -/
  | accept (memory : Buffer (headerLength + maxBodyLength))
  | sessionReads
  | sessionReadFails

/-- The bytes that the socket takes are in the network. -/
def Link.send (link : Link) (index count : ℕ) : Option Link :=
  (link.client.transfer index count).map fun client =>
    { link with
      client
      transit := link.transit ++ client.writing.taken.drop link.client.writing.taken.length }

/-- The read that the session waits for completes. -/
def Link.sessionReads (link : Link) : Option Link :=
  link.session.bind fun session =>
    (session.readOnce link.arrived).toOption.join.map fun (after, messages, rest) =>
      { link with
        session := some after, arrived := rest, processed := link.processed ++ messages }

/-- The read that the session waits for fails. -/
def Link.sessionReadFails (link : Link) : Option Link :=
  link.session.bind fun session =>
    match session.reading with
    | none => none
    | some .header =>
        (session.handleReadHeader true).toOption.map fun after =>
          { link with session := some after }
    | some .body =>
        (session.handleReadBody true).toOption.map fun (after, messages) =>
          { link with session := some after, processed := link.processed ++ messages }

/-- The step of a run of a client and its session. -/
def linkStep (link : Link) : LinkAction → Option Link
  | .main memory => (link.client.main memory).map fun client => { link with client }
  | .connect => link.client.handleConnect.map fun client => { link with client }
  | .posted => link.client.runPosted.map fun client => { link with client }
  | .transfer index count => link.send index count
  | .written index => (link.client.handleWritten index).map fun client => { link with client }
  | .writeFails index => (link.client.handleWriteError index).map fun client => { link with client }
  | .readFails => some { link with client := link.client.doClose }
  | .arrive count =>
      if 0 < count ∧ count ≤ link.transit.length then
        some { link with
          transit := link.transit.drop count, arrived := link.arrived ++ link.transit.take count }
      else none
  | .accept memory =>
      if link.session.isNone then some { link with session := some (start memory) } else none
  | .sessionReads => link.sessionReads
  | .sessionReadFails => link.sessionReadFails

/-! ## Where the session stands -/

/-- **The place of the session in the frames of the lines**, when it has taken these
bytes and passed on these strings. -/
inductive ReadsAlong (lines : List CString) (consumed : CString) (processed : List CString) :
    Option TcpSession → Prop
  | notAccepted (nothing : consumed = []) (none_ : processed = []) :
      ReadsAlong lines consumed processed none
  | atHeader {session : TcpSession} (rest : List CString) (lines_eq : lines = processed ++ rest)
      (consumed_eq : consumed = (processed.map frameOf).flatten)
      (awaits : session.AwaitsHeader) : ReadsAlong lines consumed processed (some session)
  | atBody {session : TcpSession} (line : CString) (rest : List CString)
      (lines_eq : lines = processed ++ line :: rest)
      (consumed_eq : consumed = (processed.map frameOf).flatten ++ formatLong 4 line.length)
      (reading : session.reading = some .body) (joined : session.joined = true)
      (asked : session.readMsg.bodyLength = line.length) :
      ReadsAlong lines consumed processed (some session)
  | gone {session : TcpSession} (before : processed <+: lines) (silent : session.reading = none) :
      ReadsAlong lines consumed processed (some session)

namespace ReadsAlong

variable {lines processed : List CString} {consumed : CString} {session : Option TcpSession}

theorem upTo_processed (along : ReadsAlong lines consumed processed session) :
    processed <+: lines := by
  cases along with
  | notAccepted _ none_ => exact none_ ▸ List.nil_prefix
  | atHeader rest lines_eq _ _ => exact ⟨rest, lines_eq.symm⟩
  | atBody line rest lines_eq _ _ _ _ => exact ⟨line :: rest, lines_eq.symm⟩
  | gone before _ => exact before

/-- Further lines do not move the session. -/
theorem append (along : ReadsAlong lines consumed processed session) (line : CString) :
    ReadsAlong (lines ++ [line]) consumed processed session := by
  cases along with
  | notAccepted nothing none_ => exact .notAccepted nothing none_
  | atHeader rest lines_eq consumed_eq awaits =>
      exact .atHeader (rest ++ [line]) (by rw [lines_eq, List.append_assoc]) consumed_eq awaits
  | atBody next rest lines_eq consumed_eq reading joined asked =>
      exact .atBody next (rest ++ [line]) (by rw [lines_eq, List.append_assoc, List.cons_append])
        consumed_eq reading joined asked
  | gone before silent => exact .gone (before.trans (List.prefix_append _ _)) silent

end ReadsAlong

/-- At least a header of a prefix of frames is the header of the first line. -/
theorem header_of_frames {lines : List CString} {arrived : CString}
    (within : arrived <+: (lines.map frameOf).flatten) (long : headerLength ≤ arrived.length)
    (fits : ∀ line ∈ lines, line.length ≤ maxBodyLength) :
    ∃ line rest left, lines = line :: rest ∧ arrived = formatLong 4 line.length ++ left := by
  cases lines with
  | nil =>
      obtain rfl := List.prefix_nil.mp within
      exact absurd long (by decide)
  | cons line rest =>
      have width := length_formatLong_bodyLength (fits line List.mem_cons_self)
      rw [List.map_cons, List.flatten_cons, frameOf, List.append_assoc] at within
      have header : formatLong 4 line.length <+: arrived :=
        List.prefix_of_prefix_length_le (List.prefix_append _ _) within (by omega)
      obtain ⟨left, rfl⟩ := header
      exact ⟨line, rest, left, rfl, rfl⟩

/-- **A read moves the session along.** -/
theorem ReadsAlong.read {lines processed : List CString} {consumed arrived rest : CString}
    {session after : TcpSession} {messages : List CString}
    (along : ReadsAlong lines consumed processed (some session))
    (within : consumed ++ arrived <+: (lines.map frameOf).flatten)
    (fits : ∀ line ∈ lines, line.length ≤ maxBodyLength) (whole : lines.map upToNul = lines)
    (read : session.readOnce arrived = .ok (some (after, messages, rest))) :
    ∃ taken, arrived = taken ++ rest ∧
      ReadsAlong lines (consumed ++ taken) (processed ++ messages) (some after) ∧
      after.reading ≠ none := by
  cases along with
  | gone before silent =>
      rw [readOnce_of_silent silent] at read
      cases read
  | atHeader ahead lines_eq consumed_eq awaits =>
      have long : headerLength ≤ arrived.length := by
        by_contra short
        rw [readOnce_of_short_header awaits.reading (Nat.not_le.mp short)] at read
        cases read
      rw [consumed_eq, lines_eq, List.map_append, List.flatten_append] at within
      obtain ⟨line, later, left, rfl, rfl⟩ :=
        header_of_frames ((List.prefix_append_right_inj _).mp within) long
          fun line member => fits line (lines_eq ▸ List.mem_append_right _ member)
      have short : line.length ≤ maxBodyLength := fits line (by simp [lines_eq])
      obtain ⟨next, accepted, reading, joined, asked⟩ :=
        readOnce_accepted awaits (length_formatLong_bodyLength short)
          (decodedLength_formatLong short) left
      rw [accepted] at read
      cases read
      refine ⟨formatLong 4 line.length, rfl, ?_, by simp [reading]⟩
      rw [List.append_nil]
      exact .atBody line later lines_eq (by rw [consumed_eq]) reading joined asked
  | atBody line later lines_eq consumed_eq reading joined asked =>
      have long : line.length ≤ arrived.length := by
        by_contra short
        rw [readOnce_of_short_body reading (asked ▸ Nat.not_le.mp short)] at read
        cases read
      have body : arrived <+: line ++ (later.map frameOf).flatten := by
        apply (List.prefix_append_right_inj
          ((processed.map frameOf).flatten ++ formatLong 4 line.length)).mp
        rw [consumed_eq, lines_eq] at within
        simpa [frameOf] using within
      obtain ⟨left, rfl⟩ :=
        List.prefix_of_prefix_length_le (List.prefix_append line _) body long
      have room : line.length < maxBodyLength := by
        by_contra full
        have exact_ : line.length = maxBodyLength :=
          le_antisymm (fits line (by simp [lines_eq])) (Nat.not_lt.mp full)
        rw [readOnce_overrun reading asked exact_] at read
        cases read
      obtain ⟨next, passed, awaits, -⟩ := readOnce_body reading joined asked room left
      rw [passed] at read
      cases read
      have text : upToNul line = line :=
        List.map_inj_left.mp (whole.trans lines.map_id.symm) line (by simp [lines_eq])
      refine ⟨line, rfl, ?_, by simp [awaits.reading]⟩
      rw [text]
      refine .atHeader later ?_ ?_ awaits
      · rw [lines_eq, List.append_assoc, List.singleton_append]
      · simp [consumed_eq, frameOf]

/-! ## The whole connection -/

/-- **What ties the ends together.** The lines are those read of the input; the messages
pushed and posted are made of them; the bytes the socket has taken are those that the
session has consumed, that have arrived and that are in the network. -/
structure Carries (stdin : CString) (lines : List CString) (pushed : List RawMessage)
    (consumed : CString) (link : Link) : Prop where
  lines_eq : (linesOf stdin).map upToNul = lines ++ (linesOf link.client.stdin).map upToNul
  fits : ∀ line ∈ lines, line.length ≤ maxBodyLength
  whole : lines.map upToNul = lines
  messages : (pushed ++ link.client.posted.filterMap Posted.message).map wire = lines.map frameOf
  ordered : InOrder wire pushed link.client.writing
  bytes : link.client.writing.taken = consumed ++ (link.arrived ++ link.transit)
  along : ReadsAlong lines consumed link.processed link.session

namespace Carries

variable {stdin consumed : CString} {lines : List CString} {pushed : List RawMessage}
  {link next : Link}

theorem initial (stdin : CString) : Carries stdin [] [] [] (Link.initial stdin) where
  lines_eq := rfl
  fits := by simp
  whole := rfl
  messages := rfl
  ordered := inOrder_empty
  bytes := rfl
  along := .notAccepted rfl rfl

/-- What the session has consumed and what has arrived are a prefix of the frames. -/
theorem within (carries : Carries stdin lines pushed consumed link) :
    consumed ++ link.arrived <+: (lines.map frameOf).flatten := by
  have taken : consumed ++ link.arrived <+: link.client.writing.taken := by
    rw [carries.bytes, ← List.append_assoc]
    exact List.prefix_append _ _
  refine taken.trans (carries.ordered.taken_prefix.trans ?_)
  rw [← carries.messages, List.map_append, List.flatten_append]
  exact List.prefix_append _ _

/-- A client that keeps its input, what it has posted and what was taken of its bytes
is in the place of the other. -/
theorem congr_client (carries : Carries stdin lines pushed consumed link) {client : ChatClient}
    (stdin_eq : client.stdin = link.client.stdin) (posted_eq : client.posted = link.client.posted)
    (taken_eq : client.writing.taken = link.client.writing.taken)
    (ordered : InOrder wire pushed client.writing) :
    Carries stdin lines pushed consumed { link with client } where
  lines_eq := stdin_eq ▸ carries.lines_eq
  fits := carries.fits
  whole := carries.whole
  messages := posted_eq ▸ carries.messages
  ordered := ordered
  bytes := taken_eq ▸ carries.bytes
  along := carries.along

theorem main (carries : Carries stdin lines pushed consumed link)
    {memory : Buffer (headerLength + maxBodyLength)} {client : ChatClient}
    (stepped : link.client.main memory = some client) :
    ∃ more, Carries stdin (lines ++ more) pushed consumed { link with client } := by
  cases (ChatClient.main_turn stepped).2 with
  | posts line rest msg read sent =>
      obtain ⟨-, short, -, -⟩ := getline_eq_some.mp read
      refine ⟨[upToNul line], ?_, ?_, ?_, ?_, carries.ordered, carries.bytes,
        carries.along.append _⟩
      · rw [carries.lines_eq, linesOf_of_getline read, List.map_cons, List.append_assoc,
          List.singleton_append]
      · intro other member
        rcases List.mem_append.mp member with old | new
        · exact carries.fits other old
        · obtain rfl := List.mem_singleton.mp new
          exact (length_upToNul_le line).trans short
      · rw [List.map_append, carries.whole, List.map_singleton, upToNul_upToNul]
      · have messages := carries.messages
        simp only [List.map_append] at messages
        simp only [List.filterMap_append, List.map_append, ← List.append_assoc, messages]
        simp [Posted.message, sent]
  | closes read =>
      refine ⟨[], ?_⟩
      rw [List.append_nil]
      refine ⟨carries.lines_eq, carries.fits, carries.whole, ?_, carries.ordered, carries.bytes,
        carries.along⟩
      simpa [List.filterMap_cons, Posted.message] using carries.messages

theorem runPosted (carries : Carries stdin lines pushed consumed link) {client : ChatClient}
    (stepped : link.client.runPosted = some client) :
    ∃ more, Carries stdin lines (pushed ++ more) consumed { link with client } := by
  unfold ChatClient.runPosted at stepped
  split at stepped
  · cases stepped
  · rename_i msg rest posted_eq
    cases stepped
    refine ⟨[msg], carries.lines_eq, carries.fits, carries.whole, ?_, carries.ordered.push msg,
      ?_, carries.along⟩
    · simpa [ChatClient.doWrite, posted_eq, Posted.message] using carries.messages
    · simpa [ChatClient.doWrite, taken_push] using carries.bytes
  · rename_i rest posted_eq
    cases stepped
    refine ⟨[], ?_⟩
    rw [List.append_nil]
    refine ⟨carries.lines_eq, carries.fits, carries.whole, ?_, carries.ordered, carries.bytes,
      carries.along⟩
    simpa [ChatClient.doClose, posted_eq, List.filterMap_cons, Posted.message]
      using carries.messages

theorem send (carries : Carries stdin lines pushed consumed link) {index count : ℕ}
    (stepped : link.send index count = some next) : Carries stdin lines pushed consumed next := by
  obtain ⟨client, sent, rfl⟩ := Option.map_eq_some_iff.mp stepped
  obtain ⟨-, sent⟩ := Option.ite_none_right_eq_some.mp sent
  obtain ⟨writing, moved, rfl⟩ := Option.map_eq_some_iff.mp sent
  have ordered := carries.ordered.transfer moved
  obtain ⟨left, -, -, -, rfl⟩ := transfer_eq_some.mp moved
  refine ⟨carries.lines_eq, carries.fits, carries.whole, carries.messages, ordered, ?_,
    carries.along⟩
  simp [carries.bytes]

theorem handleWritten (carries : Carries stdin lines pushed consumed link) {index : ℕ}
    {client : ChatClient} (stepped : link.client.handleWritten index = some client) :
    Carries stdin lines pushed consumed { link with client } := by
  obtain ⟨writing, completed, rfl⟩ := Option.map_eq_some_iff.mp stepped
  refine carries.congr_client rfl rfl ?_ (carries.ordered.complete completed)
  obtain ⟨-, rfl⟩ := complete_eq_some.mp completed
  exact taken_written

theorem handleWriteError (carries : Carries stdin lines pushed consumed link) {index : ℕ}
    {client : ChatClient} (stepped : link.client.handleWriteError index = some client) :
    Carries stdin lines pushed consumed { link with client } := by
  obtain ⟨writing, failed, rfl⟩ := Option.map_eq_some_iff.mp stepped
  refine carries.congr_client rfl rfl ?_ (carries.ordered.fail failed)
  obtain ⟨-, rfl⟩ := fail_eq_some.mp failed
  rfl

theorem sessionReads (carries : Carries stdin lines pushed consumed link)
    (stepped : link.sessionReads = some next) :
    ∃ more, Carries stdin lines pushed (consumed ++ more) next := by
  obtain ⟨session, accepted, stepped⟩ := Option.bind_eq_some_iff.mp stepped
  obtain ⟨⟨after, messages, rest⟩, read, rfl⟩ := Option.map_eq_some_iff.mp stepped
  have read := toOption_eq_some.mp (Option.join_eq_some_iff.mp read)
  have along := carries.along
  rw [accepted] at along
  obtain ⟨taken, arrived_eq, along, -⟩ :=
    along.read carries.within carries.fits carries.whole read
  refine ⟨taken, carries.lines_eq, carries.fits, carries.whole, carries.messages,
    carries.ordered, ?_, along⟩
  simp [carries.bytes, arrived_eq]

/-- A read that fails passes nothing on, and the session is gone. -/
theorem sessionReadFails_eq_some (stepped : link.sessionReadFails = some next) :
    ∃ session : TcpSession,
      link.session = some session ∧ next = { link with session := some session.leave } := by
  obtain ⟨session, accepted, stepped⟩ := Option.bind_eq_some_iff.mp stepped
  refine ⟨session, accepted, ?_⟩
  split at stepped
  · cases stepped
  · cases stepped
    rfl
  · cases stepped
    simp

theorem sessionReadFails (carries : Carries stdin lines pushed consumed link)
    (stepped : link.sessionReadFails = some next) :
    Carries stdin lines pushed consumed next := by
  obtain ⟨session, -, rfl⟩ := sessionReadFails_eq_some stepped
  exact ⟨carries.lines_eq, carries.fits, carries.whole, carries.messages, carries.ordered,
    carries.bytes, .gone carries.along.upTo_processed rfl⟩

/-- **Every step keeps the connection in order.** -/
theorem step (carries : Carries stdin lines pushed consumed link) {action : LinkAction}
    (stepped : linkStep link action = some next) :
    ∃ moreLines morePushed moreConsumed, Carries stdin (lines ++ moreLines)
      (pushed ++ morePushed) (consumed ++ moreConsumed) next := by
  have still : Carries stdin lines pushed consumed next →
      ∃ moreLines morePushed moreConsumed, Carries stdin (lines ++ moreLines)
        (pushed ++ morePushed) (consumed ++ moreConsumed) next := by
    intro kept
    exact ⟨[], [], [], by simpa using kept⟩
  cases action with
  | main memory =>
      obtain ⟨client, ran, rfl⟩ := Option.map_eq_some_iff.mp stepped
      obtain ⟨more, kept⟩ := carries.main ran
      exact ⟨more, [], [], by simpa using kept⟩
  | connect =>
      obtain ⟨client, ran, rfl⟩ := Option.map_eq_some_iff.mp stepped
      obtain ⟨-, rfl⟩ := Option.ite_some_none_eq_some.mp ran
      exact still (carries.congr_client rfl rfl rfl carries.ordered)
  | posted =>
      obtain ⟨client, ran, rfl⟩ := Option.map_eq_some_iff.mp stepped
      obtain ⟨more, kept⟩ := carries.runPosted ran
      exact ⟨[], more, [], by simpa using kept⟩
  | transfer index count => exact still (carries.send stepped)
  | written index =>
      obtain ⟨client, ran, rfl⟩ := Option.map_eq_some_iff.mp stepped
      exact still (carries.handleWritten ran)
  | writeFails index =>
      obtain ⟨client, ran, rfl⟩ := Option.map_eq_some_iff.mp stepped
      exact still (carries.handleWriteError ran)
  | readFails =>
      cases stepped
      exact still (carries.congr_client rfl rfl rfl carries.ordered)
  | arrive count =>
      obtain ⟨-, rfl⟩ := Option.ite_some_none_eq_some.mp stepped
      refine still ⟨carries.lines_eq, carries.fits, carries.whole, carries.messages,
        carries.ordered, ?_, carries.along⟩
      simp [carries.bytes]
  | accept memory =>
      obtain ⟨unaccepted, rfl⟩ := Option.ite_some_none_eq_some.mp stepped
      have along := carries.along
      rw [Option.isNone_iff_eq_none.mp unaccepted] at along
      cases along with
      | notAccepted nothing none_ =>
          refine still ⟨carries.lines_eq, carries.fits, carries.whole, carries.messages,
            carries.ordered, carries.bytes, ?_⟩
          exact .atHeader lines (by simp [none_]) (by simp [nothing, none_])
            (awaitsHeader_start memory)
  | sessionReads =>
      obtain ⟨more, kept⟩ := carries.sessionReads stepped
      exact ⟨[], [], more, by simpa using kept⟩
  | sessionReadFails => exact still (carries.sessionReadFails stepped)

/-- What is carried is some part of the input in every state of a run. -/
theorem of_run (stdin : CString) {actions : List LinkAction}
    (ran : run linkStep (Link.initial stdin) actions = some link) :
    ∃ lines pushed consumed, Carries stdin lines pushed consumed link := by
  refine run_invariant
    (fun link => ∃ lines pushed consumed, Carries stdin lines pushed consumed link)
    ?_ ⟨[], [], [], initial stdin⟩ ran
  rintro link action next ⟨lines, pushed, consumed, carries⟩ stepped
  obtain ⟨moreLines, morePushed, moreConsumed, kept⟩ := carries.step stepped
  exact ⟨_, _, _, kept⟩

/-- What is passed on is a prefix of the input's lines. -/
theorem passed_prefix (carries : Carries stdin lines pushed consumed link) :
    link.processed <+: (linesOf stdin).map upToNul :=
  carries.along.upTo_processed.trans
    ⟨(linesOf link.client.stdin).map upToNul, carries.lines_eq.symm⟩

end Carries

/-- **No line is lost on the way, doubled or overtaken.** In every interleaving of the
two threads of the client, the network and the session, with failures and a closing at
any moment, at most one write of the client is outstanding, and the strings given to the
message processor are a prefix of the lines of the client's input, each up to its first
zero byte. -/
theorem processed_prefix (stdin : CString) (actions : List LinkAction) (link : Link)
    (ran : run linkStep (Link.initial stdin) actions = some link) :
    link.client.writing.writes.length ≤ 1 ∧ link.processed <+: (linesOf stdin).map upToNul := by
  obtain ⟨lines, pushed, consumed, carries⟩ := Carries.of_run stdin ran
  exact ⟨carries.ordered.length_writes_le, carries.passed_prefix⟩

/-- The first command passes; of the second one three bytes are taken before the client
closes its socket. -/
theorem processed_prefix_two :
    ∃ link, run linkStep (Link.initial (ascii "25\n0011|2\n"))
        [.main (Buffer.zeros _), .main (Buffer.zeros _), .posted, .connect, .transfer 0 6,
          .written 0, .accept (Buffer.zeros _), .posted, .arrive 6, .sessionReads, .transfer 0 3,
          .sessionReads, .arrive 3, .readFails] = some link ∧
      link.processed = [ascii "25"] ∧ link.client.writing.writes.length ≤ 1 ∧
      link.processed <+: (linesOf (ascii "25\n0011|2\n")).map upToNul := by
  obtain ⟨link, ran, processed⟩ :
      ∃ link, run linkStep (Link.initial (ascii "25\n0011|2\n"))
        [.main (Buffer.zeros _), .main (Buffer.zeros _), .posted, .connect, .transfer 0 6,
          .written 0, .accept (Buffer.zeros _), .posted, .arrive 6, .sessionReads, .transfer 0 3,
          .sessionReads, .arrive 3, .readFails] = some link ∧
      link.processed = [ascii "25"] := by
    apply exists_of_any
    decide +kernel
  exact ⟨link, ran, processed, processed_prefix _ _ link ran⟩

end VirtualAgent
