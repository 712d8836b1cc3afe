import LuPlatform.Socket.DataSocket
import LuPlatform.Websocket.HandshakeSeverResponse
import LuPlatform.Websocket.MessageLoop

/-! What the sockets with a handshake share: the search for the end of a header, which is resumed
where the last line ended, and the frames that follow. `scanHeader` searches a view that begins at
the resume offset, from that same offset on. -/

namespace LuPlatform.Socket

open Bytes Loop Websocket

/-- The fields of such a socket besides the receive buffer. -/
structure Session (status : Type) where
  socketStatus : status
  frame : Frame
  readWebsocketHeaderOffset : Nat := 0
  deriving DecidableEq, Repr

abbrev SessionSocket (status : Type) := Receiver (Session status) FrameEvent

namespace Receiver

variable {status : Type}

/-- One search for the end of a line. Found right at the offset it is the empty line that ends the
header; the offset behind it comes back, or the offset to resume at when there is none. -/
def scanRound (dataStringView : List UInt8) (readWebsocketHeaderOffset : Nat) :
    Round Nat (Bool × Nat) :=
  match findFrom crlf dataStringView readWebsocketHeaderOffset with
  | none => .leave (false, readWebsocketHeaderOffset)
  | some location =>
    if location = readWebsocketHeaderOffset then
      .leave (true, readWebsocketHeaderOffset + 2)
    else
      .again (location + 2)

def scanHeader (dataStringView : List UInt8) (readWebsocketHeaderOffset : Nat) :
    Option (Bool × Nat) :=
  loop (scanRound dataStringView) (dataStringView.length + 1) readWebsocketHeaderOffset

def withOffset (s : SessionSocket status) (offset : Nat) : SessionSocket status :=
  { s with own := { s.own with readWebsocketHeaderOffset := offset } }

def withStatus (s : SessionSocket status) (socketStatus : status) : SessionSocket status :=
  { s with own := { s.own with socketStatus } }

/-- The view `processHandshake` searches. -/
def headerView (s : SessionSocket status) : List UInt8 :=
  (s.buffer.drop s.own.readWebsocketHeaderOffset).take
    (s.numberOfBytesLeftToRead - s.own.readWebsocketHeaderOffset)

/-- The header up to its end, as it is handed to the parser. -/
def header (s : SessionSocket status) : List UInt8 :=
  s.buffer.take s.own.readWebsocketHeaderOffset

/-- `processHandshake`, with what it does at the end of the header. -/
def processHeader (finish : SessionSocket status → Option (SessionSocket status))
    (s : SessionSocket status) : Option (SessionSocket status) :=
  match scanHeader s.headerView s.own.readWebsocketHeaderOffset with
  | none => none
  | some (true, offset) => finish (s.withOffset offset)
  | some (false, offset) =>
    let s := s.withOffset offset
    if s.numberOfBytesLeftToRecv = 0 then some (s.raise .stop) else some s

/-- The header is consumed. -/
def updateForHeader (s : SessionSocket status) : SessionSocket status :=
  (s.updateForDataRead s.own.readWebsocketHeaderOffset).withOffset 0

def processFrames (s : SessionSocket status) : Option (SessionSocket status) :=
  match s.own.frame.processMessage (.new s.unread) with
  | none => none
  | some (p, _) =>
    let s := { s with
      buffer := s.buffer.take s.readOffset ++ p.socketData.data ++
        s.buffer.drop (s.readOffset + s.numberOfBytesLeftToRead)
      own := { s.own with frame := p.frame }
      events := s.events ++ p.events.map SocketEvent.onFrame }
    let s := s.updateForDataRead p.socketData.readOffset
    some (if p.frame.opCode == .close then s.raise .stop else s)

/-! ### The search ends -/

theorem scanRound_again {dataStringView : List UInt8} {offset offset' : Nat}
    (h : scanRound dataStringView offset = .again offset') :
    offset + 2 ≤ offset' ∧ offset' ≤ dataStringView.length := by
  unfold scanRound at h
  split at h
  · cases h
  · rename_i location hfind
    obtain ⟨hpos, _⟩ := findFrom_eq_some hfind
    have hend : location + 2 ≤ dataStringView.length := findFrom_end_le hfind
    split at h
    · cases h
    · obtain rfl := Round.again.inj h
      omega

theorem scanHeader_spec (dataStringView : List UInt8) (offset : Nat) :
    ∃ found offset', scanHeader dataStringView offset = some (found, offset') ∧
      (offset' = offset ∨ offset' ≤ dataStringView.length) := by
  obtain ⟨⟨found, offset'⟩, hloop⟩ : ∃ r, scanHeader dataStringView offset = some r := by
    refine loop_terminates (fun _ => True) (fun o => dataStringView.length - o) ?_ trivial
      (by omega)
    intro o o' _ h
    have := scanRound_again h
    exact ⟨trivial, by omega⟩
  refine ⟨found, offset', hloop, ?_⟩
  refine loop_invariant (fun o => o = offset ∨ o ≤ dataStringView.length)
    (fun r => r.2 = offset ∨ r.2 ≤ dataStringView.length) ?_ ?_ (.inl rfl) hloop
  · intro o o' _ h
    exact .inr (scanRound_again h).2
  · intro o r ho h
    unfold scanRound at h
    split at h
    · obtain rfl := Round.leave.inj h
      exact ho
    · rename_i location hfind
      have hend : location + 2 ≤ dataStringView.length := findFrom_end_le hfind
      split at h
      · rename_i heq
        obtain rfl := Round.leave.inj h
        exact .inr (by rw [← heq]; exact hend)
      · cases h

/-! ### What the rounds of the receive loop keep -/

/-- The resume offset stays within what is buffered and is gone once the handshake is over; the
frame is one that a call can begin with, and untouched where no frames are read. -/
structure Ready (connecting : status) (framed : status → Prop) (s : SessionSocket status) : Prop
    where
  inside : s.readOffset + s.numberOfBytesLeftToRead ≤ s.buffer.length
  offset_le : s.own.readWebsocketHeaderOffset ≤ s.numberOfBytesLeftToRead
  offset_zero : s.own.socketStatus ≠ connecting → s.own.readWebsocketHeaderOffset = 0
  frame : s.own.frame.Safe s.numberOfBytesLeftToRead
  resting : ¬ framed s.own.socketStatus → s.own.frame.Resting

variable {connecting : status} {framed : status → Prop}

theorem Ready.raise {s : SessionSocket status} (h : s.Ready connecting framed)
    (event : SocketEvent FrameEvent) : (s.raise event).Ready connecting framed :=
  ⟨h.inside, h.offset_le, h.offset_zero, h.frame, h.resting⟩

theorem Ready.fill {s s' : SessionSocket status} {bytes : List UInt8} (h : s.Ready connecting framed)
    (hfill : s.fill bytes = some s') : s'.Ready connecting framed := by
  have hlength := length_buffer_fill hfill
  obtain ⟨hle, rfl⟩ := fill_eq_some hfill
  have hoffset := h.offset_le
  refine ⟨?_, ?_, h.offset_zero, h.frame.mono (by simp only; omega), h.resting⟩
  · rw [hlength]
    simp only
    omega
  · simp only
    omega

theorem Ready.rewind {s : SessionSocket status} (h : s.Ready connecting framed) :
    s.rewind.Ready connecting framed := by
  by_cases hfull : s.receiveBufferShiftSize < s.numberOfBytesLeftToRead
  · rw [rewind_overfull hfull]
    exact h
  · obtain ⟨hlength, hoffset, hleft, _, _, hown, _⟩ := rewind_front h.inside (by omega)
    have hinside := h.inside
    refine ⟨by omega, ?_, ?_, ?_, ?_⟩
    · rw [hown, hleft]
      exact h.offset_le
    · rw [hown]
      exact h.offset_zero
    · rw [hown, hleft]
      exact h.frame
    · rw [hown]
      exact h.resting

theorem processFrames_status {s t : SessionSocket status} (h : s.processFrames = some t) :
    t.own.socketStatus = s.own.socketStatus := by
  unfold processFrames at h
  split at h
  · cases h
  · obtain rfl := Option.some.inj h
    split <;> rfl

theorem processFrames_ready {s s' : SessionSocket status} (hready : s.Ready connecting framed)
    (hstatus : s.own.socketStatus ≠ connecting) (hframed : framed s.own.socketStatus)
    (h : s.processFrames = some s') :
    Consumes s s' ∧ s'.Ready connecting framed := by
  have hinside := hready.inside
  have hlength := length_unread hready.inside
  have hleft : (SocketData.new s.unread).getDataLeftToRead = s.numberOfBytesLeftToRead := by
    rw [SocketData.getDataLeftToRead_new, hlength]
  obtain ⟨p, exit, hp, hin, hsafe⟩ := Frame.processMessage_safe (f := s.own.frame)
    (d := .new s.unread) (by rw [hleft]; exact hready.frame) (Nat.zero_le _)
  have hdata : p.socketData.data.length = s.numberOfBytesLeftToRead :=
    hin.length_eq.trans hlength
  have hoffset : p.socketData.readOffset ≤ s.numberOfBytesLeftToRead := hdata ▸ hin.offset_le
  simp only [processFrames, hp, Option.some.injEq] at h
  generalize ht : updateForDataRead _ p.socketData.readOffset = t at h
  have ht' : Consumes s t ∧ t.Ready connecting framed := by
    subst ht
    refine ⟨⟨?_, rfl, ?_⟩, ⟨?_, ?_, ?_, ?_, fun hnot => absurd hframed hnot⟩⟩
    · simp only [updateForDataRead, List.length_append, List.length_take, List.length_drop, hdata]
      omega
    · simp only [updateForDataRead]
      omega
    · simp only [updateForDataRead, List.length_append, List.length_take, List.length_drop, hdata]
      omega
    · simp only [updateForDataRead, hready.offset_zero hstatus, Nat.zero_le]
    · exact fun _ => hready.offset_zero hstatus
    · refine hsafe.mono ?_
      simp only [updateForDataRead, SocketData.getDataLeftToRead, hdata, Nat.le_refl]
  subst h
  split
  · exact ⟨ht'.1.raise .stop, ht'.2.raise .stop⟩
  · exact ht'

/-- Whatever is done at the end of a header keeps the socket ready, if it does so where the resume
offset stands behind the header. -/
theorem processHeader_ready {finish : SessionSocket status → Option (SessionSocket status)}
    {s s' : SessionSocket status} (hready : s.Ready connecting framed)
    (hstatus : s.own.socketStatus = connecting)
    (hfinish : ∀ t u : SessionSocket status, t.Ready connecting framed → t.own.socketStatus = connecting →
      finish t = some u → Consumes t u ∧ u.Ready connecting framed)
    (h : s.processHeader finish = some s') : Consumes s s' ∧ s'.Ready connecting framed := by
  obtain ⟨found, offset, hscan, hoffset⟩ :=
    scanHeader_spec s.headerView s.own.readWebsocketHeaderOffset
  have hview : s.headerView.length ≤ s.numberOfBytesLeftToRead := by
    rw [headerView, List.length_take]
    omega
  have hstart := hready.offset_le
  have hnext : (s.withOffset offset).Ready connecting framed :=
    ⟨hready.inside, by simp only [withOffset]; omega, fun hne => absurd hstatus hne, hready.frame,
      hready.resting⟩
  have hconsumes : Consumes s (s.withOffset offset) := ⟨rfl, rfl, rfl⟩
  simp only [processHeader, hscan] at h
  cases found with
  | true =>
    obtain ⟨hu, hready'⟩ := hfinish _ _ hnext hstatus h
    exact ⟨hconsumes.trans hu, hready'⟩
  | false =>
    simp only at h
    split at h <;> obtain rfl := Option.some.inj h
    · exact ⟨hconsumes.raise .stop, hnext.raise .stop⟩
    · exact ⟨hconsumes, hnext⟩

/-- Consuming a header leaves the socket ready, whatever its status becomes. -/
theorem updateForHeader_ready {s : SessionSocket status} (hready : s.Ready connecting framed)
    (hnot : ¬ framed s.own.socketStatus) (socketStatus : status) :
    Consumes s (s.updateForHeader.withStatus socketStatus) ∧
      (s.updateForHeader.withStatus socketStatus).Ready connecting framed := by
  have hoffset := hready.offset_le
  have hinside := hready.inside
  have hend : s.readOffset + s.own.readWebsocketHeaderOffset +
      (s.numberOfBytesLeftToRead - s.own.readWebsocketHeaderOffset) =
        s.readOffset + s.numberOfBytesLeftToRead := by omega
  refine ⟨⟨rfl, rfl, hend⟩, ⟨?_, Nat.zero_le _, fun _ => rfl, ?_, fun _ => ?_⟩⟩
  · exact hend.le.trans hinside
  · exact .inl (hready.resting hnot)
  · exact hready.resting hnot

/-- A socket that was only constructed. -/
theorem new_ready (buffer : List UInt8) (MaxMessageSize : Nat) :
    (new buffer { socketStatus := connecting, frame := .new MaxMessageSize } :
      SessionSocket status).Ready connecting framed :=
  ⟨Nat.zero_le _, Nat.le_refl _, fun _ => rfl, .inl (Frame.new_resting _),
    fun _ => Frame.new_resting _⟩

end Receiver

end LuPlatform.Socket
