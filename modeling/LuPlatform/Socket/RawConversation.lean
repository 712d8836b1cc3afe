import LuPlatform.Socket.Conversation
import LuPlatform.Socket.MessageFraming

/-! A conversation without frames. A server socket that was asked for TCP goes on with messages that
begin with their own size, and delivers each of them once its last byte is there. -/

namespace LuPlatform.Socket

open Bytes Loop Websocket Receiver

namespace Receiver

section Raw

variable {status : Type} {readMessages : SessionSocket status → Option (SessionSocket status)}
variable {mode : status} {s : SessionSocket status} {messages : List (List UInt8)}

/-- One round delivers the messages it completes. -/
theorem receiveRound_raw
    (hread : ∀ t : SessionSocket status, t.own.socketStatus = mode →
      readMessages t = t.readMessages String.handler)
    (hstatus : s.own.socketStatus = mode) (hwindow : s.windowEnd = s.buffer.length)
    (hsize : ∀ message ∈ messages, SelfSized message ∧ message.length ≤ s.buffer.length / 4)
    {bytes later : List UInt8} (hasked : bytes.length ≤ s.numberOfBytesLeftToRecv)
    (hstream : s.unread ++ bytes ++ later = messages.flatten) :
    ∃ t, s.receiveRound readMessages bytes = some t ∧ t.own = s.own ∧
      t.windowEnd = t.buffer.length ∧ t.buffer.length = s.buffer.length ∧
      t.events = s.events ++ (completed messages (s.unread ++ bytes).length).map .onData ∧
      t.unread = (s.unread ++ bytes).drop
        (completed messages (s.unread ++ bytes).length).flatten.length := by
  obtain ⟨t, hfill, hunread, hbuffer, hown, hbefore, hinside⟩ := fill_window hwindow hasked
  have hcount : (s.unread ++ bytes).length = t.numberOfBytesLeftToRead := by
    rw [← hunread, length_unread hinside]
  obtain ⟨u, hloop, hevents, hrest⟩ := readMessages_completed (fun m hm => (hsize m hm).1) hinside
    (by rw [hunread, hstream]) (Nat.lt_succ_self _)
  have hmessages : t.readMessages String.handler = some u := hloop
  obtain ⟨hconsumes, hown'⟩ := readMessages_consumes hmessages
  have hinside' : u.readOffset + u.numberOfBytesLeftToRead ≤ u.buffer.length := by
    rw [hconsumes.end_eq, hconsumes.length_buffer]
    exact hinside
  rw [hunread, ← hcount] at hrest
  rw [hbefore, ← hcount] at hevents
  have hquarter : u.numberOfBytesLeftToRead ≤ u.receiveBufferShiftSize := by
    have hbound := leftover_le (n := (s.unread ++ bytes).length) (fun m hm => (hsize m hm).2)
      (by rw [← hstream]; exact (List.prefix_append _ later).length_le)
    rw [← length_unread hinside', hrest, List.length_drop, receiveBufferShiftSize,
      hconsumes.length_buffer, hbuffer]
    exact hbound
  obtain ⟨hlength, hfront, hleft, hrecv, hsame, hown'', hevents'⟩ := rewind_front hinside' hquarter
  have hround : s.receiveRound readMessages bytes = some u.rewind := by
    have hstatus' : t.own.socketStatus = mode := by rw [hown, hstatus]
    simp [receiveRound, hfill, hread t hstatus', hmessages]
  refine ⟨u.rewind, hround, ?_, ?_, ?_, ?_, ?_⟩
  · rw [hown'', hown', hown]
  · rw [windowEnd, hfront, hleft, hrecv, hlength]
    omega
  · rw [hlength, hconsumes.length_buffer, hbuffer]
  · rw [hevents', hevents]
  · rw [hsame, hrest]

/-- However the messages are cut, each is delivered, once and in order. -/
theorem receive_raw
    (hread : ∀ t : SessionSocket status, t.own.socketStatus = mode →
      readMessages t = t.readMessages String.handler)
    (hstatus : s.own.socketStatus = mode) (hwindow : s.windowEnd = s.buffer.length)
    (hsize : ∀ message ∈ messages, SelfSized message ∧ message.length ≤ s.buffer.length / 4)
    {chunks : List (List UInt8)} (hdelivered : s.Delivered readMessages chunks)
    (hnone : completed messages s.unread.length = [])
    (hstream : s.unread ++ chunks.flatten = messages.flatten) :
    ∃ t, s.receive readMessages chunks = some t ∧ t.own = s.own ∧ t.unread = [] ∧
      t.events = s.events ++ messages.map .onData := by
  induction chunks generalizing s messages with
  | nil =>
    rw [List.flatten_nil, List.append_nil] at hstream
    cases messages with
    | nil => exact ⟨s, rfl, rfl, hstream, (List.append_nil _).symm⟩
    | cons message messages =>
      have hwhole : message.length ≤ s.unread.length := by
        rw [hstream, List.flatten_cons, List.length_append]
        omega
      rw [completed, if_pos hwhole] at hnone
      cases hnone
  | cons bytes chunks ih =>
    obtain ⟨-, hasked, hlater⟩ := hdelivered
    rw [List.flatten_cons, ← List.append_assoc] at hstream
    obtain ⟨t, hround, hown, hwindow', hbuffer, hevents, hunread⟩ :=
      receiveRound_raw hread hstatus hwindow hsize hasked hstream
    have hleft : t.unread.length = (s.unread ++ bytes).length -
        (completed messages (s.unread ++ bytes).length).flatten.length := by
      rw [hunread, List.length_drop]
    obtain ⟨u, hrun, hown', hempty, hevents'⟩ := ih (by rw [hown, hstatus]) hwindow'
      (fun message (hmem : message ∈ pending messages (s.unread ++ bytes).length) =>
        hbuffer.symm ▸ hsize message (List.mem_of_mem_drop hmem))
      (hlater t hround) (by rw [hleft]; exact completed_pending messages _)
      (by rw [hunread]; exact pending_flatten hstream)
    refine ⟨u, (receive_cons hround chunks).trans hrun, hown'.trans hown, hempty, ?_⟩
    rw [hevents', hevents, List.append_assoc, ← List.map_append, completed_append_pending]

end Raw

end Receiver

theorem readMessagesWith_raw
    {processHandshake : SessionSocket SocketStatus → Option (SessionSocket SocketStatus)}
    {handler : DataHandler} {t : SessionSocket SocketStatus}
    (h : t.own.socketStatus = .connectedAsTCP) :
    readMessagesWith processHandshake handler t = t.readMessages handler := by
  rw [readMessagesWith, if_neg (by rw [h]; decide), readUpgraded, h]

section Conversation

variable {getBase64Hash : List UInt8 → List UInt8} {MaxMessageSize : Nat}
variable {pieces chunks messages : List (List UInt8)} {request : HandshakeRequest}
variable {response : List UInt8}

end Conversation

end LuPlatform.Socket
