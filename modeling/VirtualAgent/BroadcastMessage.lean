import VirtualAgent.CpuMonitor
import VirtualAgent.MissingEntry
import VirtualAgent.ReceiveBounds

/-!
# The broadcast and its readers

An iteration of the monitor sends `"0010|"`, the name of the host, a bar and the printed
factor. The text is put together without any quoting and taken apart by the message
processor at its bars.

`broadcast_read_back` says that nothing is lost on the way when the name has no bar: the
datagram passes the receive buffer, its three fields are those that were written, and
performing it writes the entry of that host, with the number of the printed text, and no
other entry. Broadcasts of different hosts therefore never meet in one entry.
-/

set_option autoImplicit false

namespace VirtualAgent

open ExactFloat CText Outcome Transition
open Std (ExtTreeMap)

/-- The message of an iteration, with the factor as it is printed. -/
def broadcastMessage (hostname rTdf : CString) : CString :=
  ascii "0010|" ++ hostname ++ ascii "|" ++ rTdf

/-- A broadcast that a host can send and its peers can receive: the name is a C string
without bars, the printed factor has no bar, and the zero byte behind the message fits. -/
structure HostBroadcast where
  hostname : CString
  rTdf : CString
  nonempty : hostname ≠ []
  noNul : 0 ∉ hostname
  noBar : 124 ∉ hostname
  noBar_rTdf : 124 ∉ rTdf
  fits : (broadcastMessage hostname rTdf).length < maxLength

namespace HostBroadcast

/-- The message as it is sent. -/
def msg (b : HostBroadcast) : CString := broadcastMessage b.hostname b.rTdf

/-- The number of the printed factor, as the conversion from a C string reads it. -/
def tdf (b : HostBroadcast) : LongDouble := atof (upToNul b.rTdf)

/-- The message as it is received. -/
theorem upToNul_msg (b : HostBroadcast) :
    upToNul b.msg = broadcastMessage b.hostname (upToNul b.rTdf) := by
  have nonzero : ∀ c ∈ ascii "0010|" ++ b.hostname ++ ascii "|", (c != 0) = true := by
    intro c member
    rw [bne_iff_ne]
    rintro rfl
    rcases List.mem_append.mp member with member | member
    · rcases List.mem_append.mp member with member | member
      · exact absurd member (by decide)
      · exact b.noNul member
    · exact absurd member (by decide)
  unfold msg broadcastMessage upToNul
  exact List.takeWhile_append_of_pos nonzero

theorem receiveFrom_msg (b : HostBroadcast) (server : UdpAsyncServer) :
    ∃ next, server.receiveFrom b.msg = .ok (next, [upToNul b.msg]) := by
  apply server.receiveFrom_of_room _ b.fits
  simp [broadcastMessage, ascii]

/-- **The fields of a broadcast are what it was made of.** -/
theorem splitCompress_broadcastMessage {hostname rTdf : CString} (nonempty : hostname ≠ [])
    (noBar : 124 ∉ hostname) (noBar_rTdf : 124 ∉ rTdf) :
    splitCompress (· == 124) (broadcastMessage hostname rTdf) =
      [ascii "0010", hostname, rTdf] := by
  have free : ∀ text : CString, 124 ∉ text → ∀ c ∈ text, (c == 124) = false := by
    intro text absent c member
    rw [beq_eq_false_iff_ne]
    exact ne_of_mem_of_not_mem member absent
  have text : broadcastMessage hostname rTdf =
      ascii "0010" ++ 124 :: (hostname ++ 124 :: rTdf) := by
    simp [broadcastMessage, ascii]
  have hostFirst : ∀ c ∈ (hostname ++ 124 :: rTdf).head?, (c == 124) = false := by
    obtain ⟨first, rest, rfl⟩ := List.exists_cons_of_ne_nil nonempty
    intro c found
    cases found
    exact free _ noBar first List.mem_cons_self
  have rTdfFirst : ∀ c ∈ rTdf.head?, (c == 124) = false :=
    fun c found => free _ noBar_rTdf c (List.mem_of_mem_head? found)
  rw [text, splitCompress_append rfl (free _ (by decide)) hostFirst,
    splitCompress_append rfl (free _ noBar) rTdfFirst, splitCompress_of_free (free _ noBar_rTdf)]

theorem parseUdpMsg_msg (b : HostBroadcast) :
    parseUdpMsg (upToNul b.msg) = some (.tdfTableSet b.hostname b.tdf) := by
  have absent : 124 ∉ upToNul b.rTdf :=
    fun member => b.noBar_rTdf ((List.takeWhile_sublist _).subset member)
  have protocol : atoi (ascii "0010") = 10 := by decide
  rw [upToNul_msg, parseUdpMsg, parse,
    splitCompress_broadcastMessage b.nonempty b.noBar absent]
  dsimp only
  rw [protocol]
  rfl

/-- **A broadcast writes the entry of its host and no other.** -/
theorem perform_msg (b : HostBroadcast) {a : Agent} (nonNull : a.NonNull) :
    ∃ next, (Event.udp (upToNul b.msg)).perform a = .ok next ∧ next.NonNull ∧
      next.tdfTable.tdfMap = a.tdfTable.tdfMap.insert b.hostname (some ⟨b.tdf⟩) := by
  obtain ⟨tdfTable, notified, set⟩ := TdfTable.set_ok nonNull.tdfMap
    a.configuration.tdfChangeThreshold b.hostname b.tdf
  have performed : (Event.udp (upToNul b.msg)).perform a = .ok { a with tdfTable } := by
    rw [Event.perform, parseUdpMsg_msg]
    exact execAll_singleton.mpr ⟨notified, exec_tdfTableSet.mpr ⟨tdfTable, set, rfl⟩⟩
  exact ⟨_, performed, nonNull.perform performed, TdfTable.set_tdfMap set⟩

end HostBroadcast

/-- **A broadcast is read back exactly by its peers.** Whatever the agent has been through,
the message of a host passes the receive buffer, and performing it sets the entry of that
host to the number of the printed text and leaves every other entry; and the broadcast of
another host leaves this entry. -/
theorem broadcast_read_back (b : HostBroadcast) (server : UdpAsyncServer) {created : HostReading}
    {events : List Event} {a : Agent}
    (ran : run eventStep (Agent.initial created) events = some a) :
    (∃ next, server.receiveFrom b.msg = .ok (next, [upToNul b.msg])) ∧
      ∃ after, (Event.udp (upToNul b.msg)).perform a = .ok after ∧
        after.tdfTable.tdfMap[b.hostname]? = some (some ⟨b.tdf⟩) ∧
        (∀ name ≠ b.hostname, after.tdfTable.tdfMap[name]? = a.tdfTable.tdfMap[name]?) ∧
        ∀ other : HostBroadcast, other.hostname ≠ b.hostname →
          ∃ later, (Event.udp (upToNul other.msg)).perform after = .ok later ∧
            later.tdfTable.tdfMap[b.hostname]? = after.tdfTable.tdfMap[b.hostname]? := by
  obtain ⟨after, performed, nonNull, tdfMap_eq⟩ := b.perform_msg (nonNull_of_run ran)
  refine ⟨b.receiveFrom_msg server, after, performed, ?_, ?_, ?_⟩
  · rw [tdfMap_eq, ExtTreeMap.getElem?_insert_self]
  · intro name apart
    rw [tdfMap_eq, KeyOrder.getElem?_insert_of_ne _ _ apart]
  · intro other apart
    obtain ⟨later, performedLater, -, later_eq⟩ := other.perform_msg nonNull
    refine ⟨later, performedLater, ?_⟩
    rw [later_eq, KeyOrder.getElem?_insert_of_ne _ _ apart.symm]

/-- The broadcast of the example in the source. -/
def hightemplar : HostBroadcast where
  hostname := ascii "hightemplar"
  rTdf := ascii "3.6"
  nonempty := by decide
  noNul := by decide
  noBar := by decide
  noBar_rTdf := by decide
  fits := by decide

/-- Two other hosts have broadcast before. -/
def twoBroadcasts : List Event :=
  [.tcp (ascii "12") ⟨1, 1⟩, .udp (ascii "10|darktemplar|2"), .udp (ascii "10|zealot|1.5")]

theorem broadcast_read_back_hightemplar :
    (∃ next, UdpAsyncServer.receiveFrom ⟨Buffer.zeros maxLength⟩ hightemplar.msg =
        .ok (next, [upToNul hightemplar.msg])) ∧
      ∃ a after, run eventStep (Agent.initial ⟨0, 0⟩) twoBroadcasts = some a ∧
        (Event.udp (upToNul hightemplar.msg)).perform a = .ok after ∧
        after.tdfTable.tdfMap[hightemplar.hostname]? = some (some ⟨hightemplar.tdf⟩) ∧
        after.tdfTable.tdfMap[ascii "darktemplar"]? = some (some ⟨.ofRat 2⟩) ∧
        after.tdfTable.tdfMap[ascii "zealot"]? = some (some ⟨.ofRat (3 / 2)⟩) ∧
        ∀ other : HostBroadcast, other.hostname ≠ hightemplar.hostname →
          ∃ later, (Event.udp (upToNul other.msg)).perform after = .ok later ∧
            later.tdfTable.tdfMap[hightemplar.hostname]? =
              after.tdfTable.tdfMap[hightemplar.hostname]? := by
  obtain ⟨a, ran, dark, zealot⟩ : ∃ a, run eventStep (Agent.initial ⟨0, 0⟩) twoBroadcasts = some a ∧
      a.tdfTable.tdfMap[ascii "darktemplar"]? = some (some ⟨.ofRat 2⟩) ∧
      a.tdfTable.tdfMap[ascii "zealot"]? = some (some ⟨.ofRat (3 / 2)⟩) := by
    apply exists_of_any
    decide +kernel
  obtain ⟨received, after, performed, found, others, later⟩ :=
    broadcast_read_back hightemplar ⟨Buffer.zeros maxLength⟩ ran
  exact ⟨received, a, after, ran, performed, found, (others _ (by decide)).trans dark,
    (others _ (by decide)).trans zealot, later⟩

end VirtualAgent
