import VirtualAgent.ClientServer

/-!
# Every line arrives

As long as no operation fails and the client does not close its socket, a client and its
session are never stuck: `Flows` is kept by such steps (`Flows.step`), and a connection
in which it holds and no step is possible has passed on every line
(`Flows.processed_of_rest`).

Each step lowers `Link.measure`, so a connection comes to rest. It counts a byte more
often the further it still has to go, in the input, in the queue, in the network and in
front of the session. `delivered` puts the two together. The body of a line must leave
room for the zero byte that the session places behind it.
-/

set_option autoImplicit false

namespace VirtualAgent

open CText Outcome Framing RawMessage TcpSession SendQueue Transition

def Posted.isClose : Posted → Bool
  | .doWrite _ => false
  | .doClose => true

/-- The action is no failure, and does not close the socket. -/
def Undisturbed (link : Link) : LinkAction → Prop
  | .writeFails _ => False
  | .readFails => False
  | .sessionReadFails => False
  | .posted => link.client.posted.head?.any Posted.isClose = false
  | _ => True

instance Undisturbed.decidable (link : Link) : (action : LinkAction) →
    Decidable (Undisturbed link action)
  | .writeFails _ => inferInstanceAs (Decidable False)
  | .readFails => inferInstanceAs (Decidable False)
  | .sessionReadFails => inferInstanceAs (Decidable False)
  | .posted => inferInstanceAs (Decidable (_ = _))
  | .main _ => inferInstanceAs (Decidable True)
  | .connect => inferInstanceAs (Decidable True)
  | .transfer _ _ => inferInstanceAs (Decidable True)
  | .written _ => inferInstanceAs (Decidable True)
  | .arrive _ => inferInstanceAs (Decidable True)
  | .accept _ => inferInstanceAs (Decidable True)
  | .sessionReads => inferInstanceAs (Decidable True)

/-! ## What is still to be done -/

/-- What a posted handler puts into the queue, counted as there. -/
def Posted.measure : Posted → ℕ
  | .doWrite msg => 3 * msg.wire.length + 2
  | .doClose => 0

def Connection.measure : Connection → ℕ
  | .connecting => 1
  | .connected => 0
  | .closed => 0

/-- A session that waits for a body has a read more before it. -/
def TcpSession.measure (session : TcpSession) : ℕ := if session.reading = some .body then 1 else 0

/-- **What is still to be done.** A byte counts three times in the queue, twice in the
network and once when it has arrived. A line of the input, which may be empty, counts
for its header as well. -/
def Link.measure (link : Link) : ℕ :=
  18 * link.client.stdin.length + (!link.client.ended).toNat + link.client.connection.measure +
    (link.client.posted.map Posted.measure).sum +
    (3 * link.client.writing.remaining wire + link.client.writing.queue.length) +
    (2 * link.transit.length + link.arrived.length) +
    (link.session.elim 1 TcpSession.measure)

/-- A read that completes takes a header, or ends the waiting for a body. -/
theorem readOnce_measure {session after : TcpSession} {arrived rest : CString}
    {messages : List CString}
    (read : session.readOnce arrived = .ok (some (after, messages, rest))) :
    rest.length + after.measure < arrived.length + session.measure := by
  unfold readOnce at read
  cases reading : session.reading with
  | none =>
      rw [reading] at read
      cases read
  | some asked =>
      cases asked with
      | header =>
          simp only [reading] at read
          split at read
          · cases read
          · rename_i long
            obtain ⟨data, -, read⟩ := bind_eq_ok.mp read
            obtain ⟨next, -, returned⟩ := bind_eq_ok.mp read
            cases returned
            have bound : after.measure ≤ 1 := by
              unfold TcpSession.measure
              split <;> omega
            rw [List.length_drop]
            have : headerLength = 4 := rfl
            omega
      | body =>
          simp only [reading] at read
          split at read
          · cases read
          · obtain ⟨data, -, read⟩ := bind_eq_ok.mp read
            obtain ⟨⟨next, passed⟩, handled, returned⟩ := bind_eq_ok.mp read
            cases returned
            unfold handleReadBody at handled
            simp only [Bool.false_eq_true, if_false] at handled
            obtain ⟨closed, -, handled⟩ := bind_eq_ok.mp handled
            cases handled
            have waited : session.measure = 1 := if_pos reading
            have settled : ({ session with
                readMsg := { session.readMsg with data := closed }
                reading := some .header } : TcpSession).measure = 0 := if_neg (by simp)
            dsimp only
            rw [waited, settled, List.length_drop]
            omega

/-! ## Nothing is stuck -/

/-- **What the undisturbed steps keep.** A queue that is not empty is being written, the
socket is open, the session reads, and the closing is posted behind all messages when
nothing is left of the input. -/
structure Flows (link : Link) : Prop where
  busy : link.client.writing.queue ≠ [] → link.client.writing.writes ≠ []
  isOpen : link.client.connection ≠ .closed
  listening : ∀ session, link.session = some session → session.reading ≠ none
  closing : ∃ messages : List RawMessage, link.client.posted =
    messages.map .doWrite ++ if link.client.ended then [.doClose] else []
  readAll : link.client.ended = true → linesOf link.client.stdin = []

theorem flows_initial (stdin : CString) : Flows (Link.initial stdin) where
  busy empty := absurd rfl empty
  isOpen := by simp [Link.initial]
  listening := by simp [Link.initial]
  closing := ⟨[], rfl⟩
  readAll ended := by simp [Link.initial] at ended

namespace Flows

variable {stdin consumed : CString} {lines : List CString} {pushed : List RawMessage}
  {link next : Link}

/-- A line of the input is worth more than its message. -/
theorem main (flows : Flows link) {memory : Buffer (headerLength + maxBodyLength)}
    {client : ChatClient} (stepped : link.client.main memory = some client) :
    Flows { link with client } ∧ { link with client }.measure < link.measure := by
  obtain ⟨messages, posted_eq⟩ := flows.closing
  obtain ⟨unfinished, turn⟩ := ChatClient.main_turn stepped
  cases turn with
  | posts line rest msg read sent =>
      obtain ⟨nonempty, short, line_eq, rest_eq⟩ := getline_eq_some.mp read
      refine ⟨⟨flows.busy, flows.isOpen, flows.listening, ⟨messages ++ [msg], ?_⟩, ?_⟩, ?_⟩
      · simp [posted_eq, unfinished]
      · intro ended
        cases ended.symm.trans unfinished
      · have framed : msg.wire.length ≤ 4 + line.length := by
          have width := length_formatLong_bodyLength ((length_upToNul_le line).trans short)
          have shorter := length_upToNul_le line
          have : headerLength = 4 := rfl
          rw [sent, frameOf, List.length_append]
          omega
        have positive := List.length_pos_iff.mpr nonempty
        have within : line.length ≤ link.client.stdin.length := by
          rw [line_eq]
          exact (List.takeWhile_prefix _).length_le
        simp only [Link.measure, rest_eq, List.length_drop, List.map_append, List.map_singleton,
          List.sum_append, List.sum_singleton, Posted.measure]
        omega
  | closes read =>
      have none_ : linesOf link.client.stdin = [] := by
        unfold linesOf
        cases link.client.stdin.length with
        | zero => rfl
        | succ count => simp [linesAtMost, read]
      refine ⟨⟨flows.busy, flows.isOpen, flows.listening, ⟨messages, ?_⟩, fun _ => none_⟩, ?_⟩
      · simp [posted_eq, unfinished]
      · simp only [Link.measure, unfinished, List.map_append, List.map_singleton, List.sum_append,
          List.sum_singleton, Posted.measure]
        simp

/-- A posted message goes to the queue. -/
theorem runPosted (flows : Flows link)
    (remains : link.client.posted.head?.any Posted.isClose = false)
    {client : ChatClient} (stepped : link.client.runPosted = some client) :
    Flows { link with client } ∧ { link with client }.measure < link.measure := by
  obtain ⟨messages, posted_eq⟩ := flows.closing
  unfold ChatClient.runPosted at stepped
  split at stepped
  · cases stepped
  · rename_i msg rest first
    cases stepped
    obtain ⟨remaining_eq, queue_eq⟩ := link.client.writing.remaining_push wire msg
    refine ⟨⟨?_, flows.isOpen, flows.listening, ?_, flows.readAll⟩, ?_⟩
    · intro _
      cases queue : link.client.writing.queue with
      | nil => simp [ChatClient.doWrite, Sender.push, Sender.writeFront, queue]
      | cons front behind =>
          simpa [ChatClient.doWrite, Sender.push, queue] using flows.busy (by simp [queue])
    · cases messages with
      | nil =>
          cases ended : link.client.ended <;> simp [ended, first] at posted_eq
      | cons head later =>
          refine ⟨later, ?_⟩
          rw [first, List.map_cons, List.cons_append] at posted_eq
          exact (List.cons.inj posted_eq).2
    · simp only [Link.measure, ChatClient.doWrite, remaining_eq, queue_eq, first, List.map_cons,
        List.sum_cons, Posted.measure, List.length_append, List.length_singleton]
      omega
  · rename_i rest first
    simp [first, Posted.isClose] at remains

theorem send (flows : Flows link) (carries : Carries stdin lines pushed consumed link)
    {index count : ℕ} (stepped : link.send index count = some next) :
    Flows next ∧ next.measure < link.measure := by
  obtain ⟨client, sent, rfl⟩ := Option.map_eq_some_iff.mp stepped
  obtain ⟨connected, sent⟩ := Option.ite_none_right_eq_some.mp sent
  obtain ⟨writing, moved, rfl⟩ := Option.map_eq_some_iff.mp sent
  obtain ⟨remaining_eq, positive, queue_eq, length_eq, writes_iff⟩ :=
    carries.ordered.remaining_transfer moved
  refine ⟨⟨?_, flows.isOpen, flows.listening, flows.closing, flows.readAll⟩, ?_⟩
  · intro nonempty
    exact (not_congr writes_iff).mpr (flows.busy (queue_eq ▸ nonempty))
  · simp only [Link.measure, queue_eq, List.length_append, List.length_drop]
    omega

theorem handleWritten (flows : Flows link) (carries : Carries stdin lines pushed consumed link)
    {index : ℕ} {client : ChatClient} (stepped : link.client.handleWritten index = some client) :
    Flows { link with client } ∧ { link with client }.measure < link.measure := by
  obtain ⟨writing, completed, rfl⟩ := Option.map_eq_some_iff.mp stepped
  obtain ⟨remaining_eq, shorter, busy⟩ := carries.ordered.remaining_complete completed
  refine ⟨⟨busy, flows.isOpen, flows.listening, flows.closing, flows.readAll⟩, ?_⟩
  simp only [Link.measure, remaining_eq]
  omega

theorem sessionReads (flows : Flows link) (carries : Carries stdin lines pushed consumed link)
    (stepped : link.sessionReads = some next) : Flows next ∧ next.measure < link.measure := by
  obtain ⟨session, accepted, ran⟩ := Option.bind_eq_some_iff.mp stepped
  obtain ⟨⟨after, messages, rest⟩, read, rfl⟩ := Option.map_eq_some_iff.mp ran
  have read := toOption_eq_some.mp (Option.join_eq_some_iff.mp read)
  have along := carries.along
  rw [accepted] at along
  obtain ⟨-, -, -, waits⟩ := along.read carries.within carries.fits carries.whole read
  refine ⟨⟨flows.busy, flows.isOpen, ?_, flows.closing, flows.readAll⟩, ?_⟩
  · intro other same
    cases same
    exact waits
  · have lower := readOnce_measure read
    simp only [Link.measure, accepted, Option.elim]
    omega

/-- **An undisturbed step keeps the connection flowing, and brings it nearer to its
rest.** -/
theorem step (flows : Flows link) (carries : Carries stdin lines pushed consumed link)
    {action : LinkAction} (undisturbed : Undisturbed link action)
    (stepped : linkStep link action = some next) : Flows next ∧ next.measure < link.measure := by
  cases action with
  | main memory =>
      obtain ⟨client, ran, rfl⟩ := Option.map_eq_some_iff.mp stepped
      exact flows.main ran
  | connect =>
      obtain ⟨client, ran, rfl⟩ := Option.map_eq_some_iff.mp stepped
      obtain ⟨connecting, rfl⟩ := Option.ite_some_none_eq_some.mp ran
      refine ⟨⟨flows.busy, by simp, flows.listening, flows.closing, flows.readAll⟩, ?_⟩
      simp only [Link.measure, connecting, Connection.measure]
      omega
  | posted =>
      obtain ⟨client, ran, rfl⟩ := Option.map_eq_some_iff.mp stepped
      exact flows.runPosted undisturbed ran
  | transfer index count => exact flows.send carries stepped
  | written index =>
      obtain ⟨client, ran, rfl⟩ := Option.map_eq_some_iff.mp stepped
      exact flows.handleWritten carries ran
  | writeFails index => exact undisturbed.elim
  | readFails => exact undisturbed.elim
  | arrive count =>
      obtain ⟨⟨positive, enough⟩, rfl⟩ := Option.ite_some_none_eq_some.mp stepped
      refine ⟨⟨flows.busy, flows.isOpen, flows.listening, flows.closing, flows.readAll⟩, ?_⟩
      simp only [Link.measure, List.length_drop, List.length_append, List.length_take]
      omega
  | accept memory =>
      obtain ⟨unaccepted, rfl⟩ := Option.ite_some_none_eq_some.mp stepped
      refine ⟨⟨flows.busy, flows.isOpen, ?_, flows.closing, flows.readAll⟩, ?_⟩
      · intro other same
        cases same
        simp [start]
      · simp only [Link.measure, Option.isNone_iff_eq_none.mp unaccepted]
        simp [TcpSession.measure, start]
  | sessionReads => exact flows.sessionReads carries stepped
  | sessionReadFails => exact undisturbed.elim

end Flows

/-! ## At rest -/

/-- No undisturbed step is possible. -/
def Link.AtRest (link : Link) : Prop :=
  ∀ action, Undisturbed link action → linkStep link action = none

namespace Link.AtRest

variable {stdin consumed : CString} {lines : List CString} {pushed : List RawMessage}
  {link : Link}

/-- The main thread has left its loop. -/
theorem ended (rest : link.AtRest) : link.client.ended = true := by
  by_contra unfinished
  have stuck := rest (.main (Buffer.zeros _)) trivial
  simp only [linkStep, Option.map_eq_none_iff, ChatClient.main, unfinished] at stuck
  cases read : getline link.client.stdin with
  | none => simp [read] at stuck
  | some found =>
      obtain ⟨line, behind⟩ := found
      obtain ⟨-, short, -, -⟩ := getline_eq_some.mp read
      obtain ⟨msg, made, -⟩ := messageOf_eq_ok (Buffer.zeros _) short
      simp [read, made, Except.toOption] at stuck

/-- Every message posted is in the queue. -/
theorem posted_eq (rest : link.AtRest) (flows : Flows link) :
    link.client.posted.filterMap Posted.message = [] := by
  obtain ⟨messages, posted_eq⟩ := flows.closing
  rw [rest.ended] at posted_eq
  cases messages with
  | nil => simp [posted_eq, List.filterMap_cons, Posted.message]
  | cons msg later =>
      have stuck := rest .posted (by simp [Undisturbed, posted_eq, Posted.isClose])
      simp [linkStep, ChatClient.runPosted, posted_eq] at stuck

/-- The client is connected. -/
theorem connected (rest : link.AtRest) (flows : Flows link) :
    link.client.connection = .connected := by
  cases connection : link.client.connection with
  | connected => rfl
  | closed => exact absurd connection flows.isOpen
  | connecting =>
      have stuck := rest .connect trivial
      simp [linkStep, ChatClient.handleConnect, connection] at stuck

/-- Everything queued has been written. -/
theorem queue_eq (rest : link.AtRest) (flows : Flows link)
    (carries : Carries stdin lines pushed consumed link) : link.client.writing.queue = [] := by
  cases carries.ordered with
  | idle queue_eq _ _ => exact queue_eq
  | sending done behind front first left queue_eq writes_eq _ _ _ =>
      have busy := flows.busy (by simp [queue_eq])
      have one : link.client.writing.writes = [left] := writes_eq.resolve_right busy
      cases left with
      | nil =>
          have stuck := rest (.written 0) trivial
          simp [linkStep, ChatClient.handleWritten, Sender.complete, one] at stuck
      | cons byte left =>
          have stuck := rest (.transfer 0 1) trivial
          simp [linkStep, Link.send, ChatClient.transfer, Sender.transfer, one,
            rest.connected flows] at stuck

/-- Everything sent has arrived. -/
theorem transit_eq (rest : link.AtRest) : link.transit = [] := by
  by_contra nonempty
  have stuck := rest (.arrive 1) trivial
  have positive := List.length_pos_iff.mpr nonempty
  simp only [linkStep, ite_eq_right_iff, reduceCtorEq, imp_false] at stuck
  exact stuck ⟨Nat.one_pos, positive⟩

/-- A session that can read does. -/
theorem not_reads (rest : link.AtRest) {session after : TcpSession} {messages : List CString}
    {left : CString} (accepted : link.session = some session) :
    session.readOnce link.arrived ≠ .ok (some (after, messages, left)) := by
  intro read
  have stuck := rest .sessionReads trivial
  simp [linkStep, Link.sessionReads, accepted, read, Except.toOption] at stuck

end Link.AtRest

/-- **A connection at rest has passed on every line.** -/
theorem Flows.processed_of_rest {stdin consumed : CString} {lines : List CString}
    {pushed : List RawMessage} {link : Link} (flows : Flows link)
    (carries : Carries stdin lines pushed consumed link) (rest : link.AtRest)
    (room : ∀ line ∈ linesOf stdin, (upToNul line).length < maxBodyLength) :
    link.processed = (linesOf stdin).map upToNul := by
  have lines_eq : (linesOf stdin).map upToNul = lines := by
    rw [carries.lines_eq, flows.readAll rest.ended, List.map_nil, List.append_nil]
  have short : ∀ line ∈ lines, line.length < maxBodyLength := by
    intro line member
    rw [← lines_eq] at member
    obtain ⟨whole, inside, rfl⟩ := List.mem_map.mp member
    exact room whole inside
  have pushed_eq : pushed.map wire = lines.map frameOf := by
    have messages := carries.messages
    rwa [rest.posted_eq flows, List.append_nil] at messages
  have consumed_eq : consumed ++ link.arrived = (lines.map frameOf).flatten := by
    have bytes := carries.bytes
    rw [carries.ordered.taken_of_empty (rest.queue_eq flows carries), pushed_eq,
      rest.transit_eq, List.append_nil] at bytes
    exact bytes.symm
  rw [lines_eq]
  cases accepted : link.session with
  | none =>
      have stuck := rest (.accept (Buffer.zeros _)) trivial
      simp [linkStep, accepted] at stuck
  | some session =>
      have along := carries.along
      rw [accepted] at along
      cases along with
      | gone before silent => exact absurd silent (flows.listening session accepted)
      | atHeader ahead lines_append taken_eq awaits =>
          cases ahead with
          | nil => rw [lines_append, List.append_nil]
          | cons line later =>
              have inRange : line.length ≤ maxBodyLength := (short line (by simp [lines_append])).le
              have arrived_eq : link.arrived =
                  formatLong 4 line.length ++ (line ++ (later.map frameOf).flatten) := by
                refine (List.append_right_inj consumed).mp ?_
                rw [consumed_eq, taken_eq, lines_append]
                simp [frameOf]
              obtain ⟨after, read, -⟩ :=
                readOnce_accepted awaits (length_formatLong_bodyLength inRange)
                  (decodedLength_formatLong inRange) (line ++ (later.map frameOf).flatten)
              rw [← arrived_eq] at read
              exact absurd read (rest.not_reads accepted)
      | atBody line later lines_append taken_eq reading joined asked =>
          have arrived_eq : link.arrived = line ++ (later.map frameOf).flatten := by
            refine (List.append_right_inj consumed).mp ?_
            rw [consumed_eq, taken_eq, lines_append]
            simp [frameOf]
          obtain ⟨after, read, -⟩ :=
            readOnce_body reading joined asked (short line (by simp [lines_append]))
              (later.map frameOf).flatten
          rw [← arrived_eq] at read
          exact absurd read (rest.not_reads accepted)

/-- **Every line arrives, in boundedly many steps.** A run in which nothing fails and the
socket is not closed has no more steps than eighteen for each byte of the input and
three, and one that cannot go on has passed on every line of the input, in order. -/
theorem delivered (stdin : CString)
    (room : ∀ line ∈ linesOf stdin, (upToNul line).length < maxBodyLength)
    (actions : List LinkAction) (link : Link)
    (ran : run linkStep (Link.initial stdin) actions = some link)
    (undisturbed : Meets linkStep Undisturbed (Link.initial stdin) actions) :
    actions.length ≤ 18 * stdin.length + 3 ∧
      (link.AtRest → link.processed = (linesOf stdin).map upToNul) := by
  let Good : Link → Prop := fun link =>
    Flows link ∧ ∃ lines pushed consumed, Carries stdin lines pushed consumed link
  have lowered : ∀ link action next, Good link → Undisturbed link action →
      linkStep link action = some next → Good next ∧ next.measure < link.measure := by
    rintro link action next ⟨flows, lines, pushed, consumed, carries⟩ free stepped
    obtain ⟨moreLines, morePushed, moreConsumed, kept⟩ := carries.step stepped
    obtain ⟨flowing, lower⟩ := flows.step carries free stepped
    exact ⟨⟨flowing, _, _, _, kept⟩, lower⟩
  have start : Good (Link.initial stdin) :=
    ⟨flows_initial stdin, [], [], [], Carries.initial stdin⟩
  constructor
  · have bound := length_le_of_meets Good Link.measure lowered start undisturbed ran
    have initial : (Link.initial stdin).measure = 18 * stdin.length + 3 := by
      simp [Link.measure, Link.initial, Sender.empty, Sender.remaining, Connection.measure]
    omega
  · intro rest
    obtain ⟨flows, lines, pushed, consumed, carries⟩ :=
      run_invariant_of_meets Good
        (fun link action next good free stepped => (lowered link action next good free stepped).1)
        start undisturbed ran
    exact flows.processed_of_rest carries rest room

/-- The whole way of a line of two bytes. -/
theorem delivered_one :
    ∃ link, run linkStep (Link.initial (ascii "25"))
        [.main (Buffer.zeros _), .main (Buffer.zeros _), .connect, .posted, .transfer 0 6,
          .written 0, .accept (Buffer.zeros _), .arrive 5, .sessionReads, .arrive 1,
          .sessionReads] = some link ∧
      link.processed = [ascii "25"] ∧
      11 ≤ 18 * (ascii "25").length + 3 ∧
      (link.AtRest → link.processed = (linesOf (ascii "25")).map upToNul) := by
  obtain ⟨link, ran, processed⟩ :
      ∃ link, run linkStep (Link.initial (ascii "25"))
        [.main (Buffer.zeros _), .main (Buffer.zeros _), .connect, .posted, .transfer 0 6,
          .written 0, .accept (Buffer.zeros _), .arrive 5, .sessionReads, .arrive 1,
          .sessionReads] = some link ∧
      link.processed = [ascii "25"] := by
    apply exists_of_any
    decide +kernel
  exact ⟨link, ran, processed, delivered _ (by decide) _ link ran (by decide +kernel)⟩

end VirtualAgent
