import Mathlib.Data.List.Infix
import VirtualAgent.ChatClient
import VirtualAgent.Library.Transition

/-!
# Delivering to all sessions

`TcpConnectionManager` holds the participants and the most recent messages, a hundred at
most. A message delivered goes to the queue of every participant; a session that joins is
given the recent messages first. The sessions write their queues by the discipline of
`Sender`: `TcpSession::deliver` is its `push` and `TcpSession::handleWrite` its
`complete` and its `fail`, after which the session leaves.

What a session is given is one piece of what was delivered, without a gap or a repeated
message, and the piece of a participant reaches to the last message
(`Gives`). `written_in_order` says it of the bytes on the socket of a session, for every
order in which sessions join, leave and write. The reading handlers of the server deliver
nothing, so its sockets take no bytes at all (`silent_of_nothing_delivered`).
-/

set_option autoImplicit false

namespace VirtualAgent

open CText RawMessage SendQueue Transition

variable {ι : Type*} [DecidableEq ι]

/-- `MAX_RECENT_MSGS`. -/
def maxRecentMsgs : ℕ := 100

/-- `pop_front` while more messages than so many are held. -/
def popWhileMore {α : Type*} (most : ℕ) : List α → List α
  | [] => []
  | front :: rest => if most < rest.length + 1 then popWhileMore most rest else front :: rest

theorem popWhileMore_eq_drop {α : Type*} (most : ℕ) (held : List α) :
    popWhileMore most held = held.drop (held.length - most) := by
  induction held with
  | nil => simp [popWhileMore]
  | cons front rest ih =>
      unfold popWhileMore
      split
      · rename_i more
        have one : (front :: rest).length - most = rest.length - most + 1 := by
          rw [List.length_cons]
          omega
        rw [ih, one, List.drop_succ_cons]
      · rename_i enough
        have zero : (front :: rest).length - most = 0 := by
          rw [List.length_cons]
          omega
        rw [zero, List.drop_zero]

/-- The participants, the recent messages, and the queue of each session. `started` are
the sessions that were made so far. -/
structure ConnectionManager (ι : Type*) where
  participants : List ι := []
  recentMsgs : List RawMessage := []
  sessions : ι → Sender RawMessage UInt8 := fun _ => .empty
  started : List ι := []

namespace ConnectionManager

/-- `TcpSession::deliver(msg)`, of the given session. -/
def deliverTo (sessions : ι → Sender RawMessage UInt8) (participant : ι) (msg : RawMessage) :
    ι → Sender RawMessage UInt8 :=
  Function.update sessions participant ((sessions participant).push wire msg)

/-- `join(participant)`. -/
def join (m : ConnectionManager ι) (participant : ι) : ConnectionManager ι :=
  { m with
    participants := m.participants.insert participant
    sessions := m.recentMsgs.foldl (deliverTo · participant ·) m.sessions }

/-- `leave(participant)`. -/
def leave (m : ConnectionManager ι) (participant : ι) : ConnectionManager ι :=
  { m with participants := m.participants.erase participant }

/-- `deliver(msg)`. -/
def deliver (m : ConnectionManager ι) (msg : RawMessage) : ConnectionManager ι :=
  { m with
    recentMsgs := popWhileMore maxRecentMsgs (m.recentMsgs ++ [msg])
    sessions := m.participants.foldl (deliverTo · · msg) m.sessions }

/-- A session with another queue. -/
def withSession (m : ConnectionManager ι) (session : ι) (writing : Sender RawMessage UInt8) :
    ConnectionManager ι :=
  { m with sessions := Function.update m.sessions session writing }

end ConnectionManager

inductive DeliveryAction (ι : Type*) where
  /-- `start()` of a session just made. -/
  | start (session : ι)
  /-- A read of a session fails, or brings a header that is not accepted. -/
  | leave (session : ι)
  | deliver (msg : RawMessage)
  | transfer (session : ι) (index count : ℕ)
  | written (session : ι) (index : ℕ)
  | writeFails (session : ι) (index : ℕ)

/-- The step of a run of the sessions. -/
def deliveryStep (m : ConnectionManager ι) : DeliveryAction ι → Option (ConnectionManager ι)
  | .start session =>
      if session ∈ m.started then none
      else some { m.join session with started := session :: m.started }
  | .leave session => some (m.leave session)
  | .deliver msg => some (m.deliver msg)
  | .transfer session index count =>
      ((m.sessions session).transfer index count).map (m.withSession session)
  | .written session index => ((m.sessions session).complete wire index).map (m.withSession session)
  | .writeFails session index =>
      ((m.sessions session).fail index).map fun writing =>
        (m.withSession session writing).leave session

/-- The messages delivered. -/
def addDelivered (delivered : List RawMessage) : DeliveryAction ι → List RawMessage
  | .deliver msg => delivered ++ [msg]
  | _ => delivered

/-! ## What the loops give to a session -/

open ConnectionManager (deliverTo)

/-- The loop over the recent messages gives them to one session. -/
theorem foldl_deliverTo (participant : ι) (messages : List RawMessage)
    {pushed : List RawMessage} {sessions : ι → Sender RawMessage UInt8}
    (ordered : InOrder wire pushed (sessions participant)) :
    InOrder wire (pushed ++ messages)
        (messages.foldl (deliverTo · participant ·) sessions participant) ∧
      ∀ other, other ≠ participant →
        messages.foldl (deliverTo · participant ·) sessions other = sessions other := by
  induction messages generalizing sessions pushed with
  | nil => exact ⟨by simpa using ordered, fun _ _ => rfl⟩
  | cons msg rest ih =>
      have given :
          InOrder wire (pushed ++ [msg]) (deliverTo sessions participant msg participant) := by
        rw [deliverTo, Function.update_self]
        exact ordered.push msg
      obtain ⟨own, others⟩ := ih given
      refine ⟨by simpa using own, ?_⟩
      intro other foreign
      rw [List.foldl_cons, others other foreign, deliverTo, Function.update_of_ne foreign]

/-- The loop over the participants gives the message to each of them once. -/
theorem foldl_participants {participants : List ι} (distinct : participants.Nodup)
    (sessions : ι → Sender RawMessage UInt8) (msg : RawMessage) (session : ι) :
    participants.foldl (deliverTo · · msg) sessions session =
      if session ∈ participants then (sessions session).push wire msg else sessions session := by
  induction participants generalizing sessions with
  | nil => rfl
  | cons first rest ih =>
      obtain ⟨fresh, distinctRest⟩ := List.nodup_cons.mp distinct
      rw [List.foldl_cons, ih distinctRest]
      by_cases own : session = first
      · subst own
        simp [fresh, deliverTo]
      · simp [own, deliverTo]

/-! ## What a session is given -/

/-- **The piece of what was delivered that a session is given.** That of a participant
reaches to the last message, and back to the hundredth last one at least. -/
structure Gives (m : ConnectionManager ι) (delivered : List RawMessage) : Prop where
  distinct : m.participants.Nodup
  recent : m.recentMsgs = delivered.drop (delivered.length - maxRecentMsgs)
  fresh : ∀ session, session ∉ m.started →
    session ∉ m.participants ∧ m.sessions session = .empty
  given : ∀ session, ∃ pieces, InOrder wire pieces (m.sessions session) ∧
    pieces <:+: delivered ∧ (session ∈ m.participants →
      pieces <:+ delivered ∧ min maxRecentMsgs delivered.length ≤ pieces.length)

namespace Gives

variable {m next : ConnectionManager ι} {delivered : List RawMessage}

omit [DecidableEq ι] in
theorem initial : Gives ({} : ConnectionManager ι) [] where
  distinct := List.nodup_nil
  recent := rfl
  fresh _ _ := ⟨List.not_mem_nil, rfl⟩
  given _ := ⟨[], inOrder_empty, List.nil_infix, fun member => absurd member List.not_mem_nil⟩

/-- The last hundred behind one more message. -/
theorem drop_append_singleton (held : List RawMessage) (msg : RawMessage) :
    popWhileMore maxRecentMsgs (held.drop (held.length - maxRecentMsgs) ++ [msg]) =
      (held ++ [msg]).drop ((held ++ [msg]).length - maxRecentMsgs) := by
  generalize maxRecentMsgs = most
  have within : held.length - most ≤ held.length := Nat.sub_le _ _
  rw [popWhileMore_eq_drop, ← List.drop_append_of_le_length within, List.drop_drop]
  refine congrArg (List.drop · (held ++ [msg])) ?_
  rw [List.length_drop, List.length_append, List.length_singleton]
  omega

theorem start (gives : Gives m delivered) {session : ι} (unstarted : session ∉ m.started) :
    Gives { m.join session with started := session :: m.started } delivered := by
  obtain ⟨outside, empty⟩ := gives.fresh session unstarted
  have ordered : InOrder wire [] (m.sessions session) := empty ▸ inOrder_empty
  obtain ⟨own, others⟩ := foldl_deliverTo session m.recentMsgs ordered
  refine ⟨?_, gives.recent, ?_, ?_⟩
  · exact List.Nodup.insert gives.distinct
  · intro other unseen
    obtain ⟨foreign, before⟩ := not_or.mp (List.mem_cons.not.mp unseen)
    obtain ⟨absent, silent⟩ := gives.fresh other before
    refine ⟨?_, ?_⟩
    · intro member
      rcases List.mem_insert_iff.mp member with same | inside
      · exact foreign same
      · exact absent inside
    · exact (others other foreign).trans silent
  · intro other
    by_cases same : other = session
    · subst same
      refine ⟨m.recentMsgs, own, ?_, fun _ => ⟨?_, ?_⟩⟩
      · rw [gives.recent]
        exact (List.drop_suffix _ _).isInfix
      · rw [gives.recent]
        exact List.drop_suffix _ _
      · rw [gives.recent, List.length_drop]
        omega
    · obtain ⟨pieces, inOrder, infix_, member⟩ := gives.given other
      refine ⟨pieces, ?_, infix_, ?_⟩
      · have unchanged : (m.join session).sessions other = m.sessions other := others other same
        rw [← unchanged] at inOrder
        exact inOrder
      · intro inside
        exact member ((List.mem_insert_iff.mp inside).resolve_left same)

theorem leave (gives : Gives m delivered) (session : ι) : Gives (m.leave session) delivered where
  distinct := gives.distinct.erase session
  recent := gives.recent
  fresh other unseen := by
    obtain ⟨absent, silent⟩ := gives.fresh other unseen
    exact ⟨fun inside => absent (List.mem_of_mem_erase inside), silent⟩
  given other := by
    obtain ⟨pieces, inOrder, infix_, member⟩ := gives.given other
    exact ⟨pieces, inOrder, infix_, fun inside => member (List.mem_of_mem_erase inside)⟩

theorem deliver (gives : Gives m delivered) (msg : RawMessage) :
    Gives (m.deliver msg) (delivered ++ [msg]) where
  distinct := gives.distinct
  recent := by
    rw [ConnectionManager.deliver, gives.recent]
    exact drop_append_singleton delivered msg
  fresh other unseen := by
    obtain ⟨absent, silent⟩ := gives.fresh other unseen
    refine ⟨absent, ?_⟩
    rw [ConnectionManager.deliver]
    dsimp only
    rw [foldl_participants gives.distinct, if_neg absent, silent]
  given other := by
    obtain ⟨pieces, inOrder, infix_, member⟩ := gives.given other
    rw [ConnectionManager.deliver]
    dsimp only
    rw [foldl_participants gives.distinct]
    split
    · rename_i inside
      obtain ⟨suffix_, long⟩ := member inside
      have extended : pieces ++ [msg] <:+ delivered ++ [msg] := by
        obtain ⟨before, rfl⟩ := suffix_
        exact ⟨before, (List.append_assoc _ _ _).symm⟩
      refine ⟨pieces ++ [msg], inOrder.push msg, extended.isInfix, fun _ => ⟨extended, ?_⟩⟩
      simp only [List.length_append, List.length_singleton]
      omega
    · rename_i outside
      exact ⟨pieces, inOrder, infix_.trans (List.prefix_append _ _).isInfix,
        fun inside => absurd inside outside⟩

/-- A session writes on. -/
theorem withSession (gives : Gives m delivered) {session : ι} {writing : Sender RawMessage UInt8}
    (started : (m.sessions session).writes ≠ [])
    (kept : ∀ pieces, InOrder wire pieces (m.sessions session) → InOrder wire pieces writing) :
    Gives (m.withSession session writing) delivered where
  distinct := gives.distinct
  recent := gives.recent
  fresh other unseen := by
    obtain ⟨absent, silent⟩ := gives.fresh other unseen
    refine ⟨absent, ?_⟩
    have foreign : other ≠ session := by
      rintro rfl
      exact started (by rw [silent]; rfl)
    exact (Function.update_of_ne foreign _ _).trans silent
  given other := by
    obtain ⟨pieces, inOrder, infix_, member⟩ := gives.given other
    refine ⟨pieces, ?_, infix_, member⟩
    rw [ConnectionManager.withSession]
    dsimp only
    by_cases same : other = session
    · subst same
      rw [Function.update_self]
      exact kept pieces inOrder
    · rw [Function.update_of_ne same]
      exact inOrder

/-- **Every step keeps what the sessions are given.** -/
theorem step (gives : Gives m delivered) {action : DeliveryAction ι}
    (stepped : deliveryStep m action = some next) :
    Gives next (addDelivered delivered action) := by
  cases action with
  | start session =>
      obtain ⟨unstarted, rfl⟩ :=
        Option.ite_none_left_eq_some.mp stepped |>.imp_right Option.some.inj
      exact gives.start unstarted
  | leave session =>
      cases stepped
      exact gives.leave session
  | deliver msg =>
      cases stepped
      exact gives.deliver msg
  | transfer session index count =>
      obtain ⟨writing, moved, rfl⟩ := Option.map_eq_some_iff.mp stepped
      refine gives.withSession ?_ fun pieces inOrder => inOrder.transfer moved
      obtain ⟨left, found, -⟩ := transfer_eq_some.mp moved
      exact fun empty => by simp [empty] at found
  | written session index =>
      obtain ⟨writing, completed, rfl⟩ := Option.map_eq_some_iff.mp stepped
      refine gives.withSession ?_ fun pieces inOrder => inOrder.complete completed
      obtain ⟨found, -⟩ := complete_eq_some.mp completed
      exact fun empty => by simp [empty] at found
  | writeFails session index =>
      obtain ⟨writing, failed, rfl⟩ := Option.map_eq_some_iff.mp stepped
      refine (gives.withSession ?_ fun pieces inOrder => inOrder.fail failed).leave session
      obtain ⟨inside, -⟩ := fail_eq_some.mp failed
      exact fun empty => by simp [empty] at inside

theorem of_run {actions : List (DeliveryAction ι)} (ran : run deliveryStep {} actions = some m) :
    Gives m (actions.foldl addDelivered []) :=
  run_foldl Gives addDelivered (fun _ _ _ _ gives stepped => gives.step stepped) initial ran

end Gives

/-- The sockets of a server that delivers nothing take no bytes. -/
theorem silent_of_nothing_delivered {actions : List (DeliveryAction ι)} {m : ConnectionManager ι}
    (ran : run deliveryStep {} actions = some m) (nothing : actions.foldl addDelivered [] = [])
    (session : ι) : (m.sessions session).taken = [] := by
  obtain ⟨pieces, inOrder, infix_, -⟩ := (Gives.of_run ran).given session
  rw [nothing] at infix_
  have prefix_ := inOrder.taken_prefix
  rw [List.infix_nil.mp infix_] at prefix_
  exact List.prefix_nil.mp prefix_

/-- **What a session writes is one piece of what was delivered.** For every order in
which sessions start, fail and leave, messages are delivered and sockets take bytes, each
session has at most one write outstanding, and its socket has taken a prefix of the
frames of one piece of the messages delivered. The piece of a participant ends with the
last message, and has the last hundred. -/
theorem written_in_order (actions : List (DeliveryAction ι)) (m : ConnectionManager ι)
    (ran : run deliveryStep {} actions = some m) (session : ι) :
    (m.sessions session).writes.length ≤ 1 ∧
      ∃ pieces, (m.sessions session).taken <+: (pieces.map wire).flatten ∧
        pieces <:+: actions.foldl addDelivered [] ∧
        (session ∈ m.participants → pieces <:+ actions.foldl addDelivered [] ∧
          min maxRecentMsgs (actions.foldl addDelivered []).length ≤ pieces.length ∧
          ((m.sessions session).queue = [] →
            (m.sessions session).taken = (pieces.map wire).flatten)) := by
  obtain ⟨pieces, inOrder, infix_, member⟩ := (Gives.of_run ran).given session
  refine ⟨inOrder.length_writes_le, pieces, inOrder.taken_prefix, infix_, fun inside => ?_⟩
  obtain ⟨suffix_, long⟩ := member inside
  exact ⟨suffix_, long, inOrder.taken_of_empty⟩

/-- A message of the given length, in an array of zero bytes. -/
def blankMessage (length : ℕ) : RawMessage :=
  (RawMessage.create (Buffer.zeros _)).setBodyLength length

/-- One message before two sessions start, and one after the second has left. -/
def twoSessions : List (DeliveryAction Bool) :=
  [.deliver (blankMessage 1), .start true, .start false, .transfer true 0 5, .transfer false 0 2,
    .writeFails false 0, .deliver (blankMessage 2), .written true 0, .transfer true 0 6]

theorem written_in_order_two :
    ∃ m : ConnectionManager Bool, run deliveryStep {} twoSessions = some m ∧
      (m.participants = [true] ∧ (m.sessions true).taken.length = 11 ∧
        (m.sessions false).taken.length = 2) ∧
      (m.sessions true).writes.length ≤ 1 ∧
      ∃ pieces, (m.sessions true).taken <+: (pieces.map wire).flatten ∧
        pieces <:+: twoSessions.foldl addDelivered [] ∧
        (true ∈ m.participants → pieces <:+ twoSessions.foldl addDelivered [] ∧
          min maxRecentMsgs (twoSessions.foldl addDelivered []).length ≤ pieces.length ∧
          ((m.sessions true).queue = [] →
            (m.sessions true).taken = (pieces.map wire).flatten)) := by
  obtain ⟨m, ran, computed⟩ :
      ∃ m : ConnectionManager Bool, run deliveryStep {} twoSessions = some m ∧
        (m.participants = [true] ∧ (m.sessions true).taken.length = 11 ∧
          (m.sessions false).taken.length = 2) := by
    apply exists_of_any
    decide +kernel
  exact ⟨m, ran, computed, written_in_order _ m ran true⟩

end VirtualAgent
