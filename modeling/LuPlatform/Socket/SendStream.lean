import LuPlatform.Websocket.FrameSend
import LuPlatform.Socket.BaseSocket
import LuPlatform.Socket.WebSockets

/-! Messages sent as frames over a socket. `Frame::sendMsg` hands header and payload of each frame to
`send` and drops what comes back, so the stream has no holes exactly as long as no answer of the
kernel ends the loop of `send` early. -/

namespace LuPlatform.Socket

open Bytes Websocket

/-- An `ssize_t` returned as an `int`. -/
def toInt (n : Nat) : Int := (BitVec.ofNat 32 n).toInt

section SendMsg

variable (MaxMessageSize : Nat) (firstOpCode : OpCode) (mask : Bool) (generateRandomUint32 : Nat → Nat)

/-- A round of `Frame::sendMsg` with its two calls of `send`. -/
def sendFrameOver (numFrames : BitVec 32) (s : Frame.Sending × Wire) (i : Nat) :
    Frame.Sending × Wire :=
  let maskingKey := if mask then generateRandomUint32 i else 0
  let isLastFrame := (i : Int) == numFrames.toInt - 1
  let size := min s.1.bytesLeft MaxMessageSize
  let opcode := if i = 0 then firstOpCode else .continuation
  let w := (s.2.send (Frame.getFrameHeader opcode size maskingKey isLastFrame).contents).1
  let currentData := (s.1.buffer.drop s.1.currentPosition).take size
  let currentData := if mask then maskPayload maskingKey currentData else currentData
  let w := if size > 0 then (w.send currentData).1 else w
  (Frame.sendFrame MaxMessageSize firstOpCode mask generateRandomUint32 numFrames s.1 i, w)

def sendMsgOver (buffer : List UInt8) (w : Wire) : Int × Wire :=
  let numFrames := Frame.numFrames MaxMessageSize buffer.length
  let s := (List.range numFrames.toInt.toNat).foldl
    (sendFrameOver MaxMessageSize firstOpCode mask generateRandomUint32 numFrames)
    (⟨buffer, 0, buffer.length, []⟩, w)
  (toInt s.1.currentPosition, s.2)

end SendMsg

/-- The arguments of `sendMsg`, and the random numbers that it draws. -/
structure Message where
  buffer : List UInt8
  firstOpCode : OpCode := .binary
  generateRandomUint32 : Nat → Nat

section Sockets

variable (MaxMessageSize : Nat)

/-- `sendMsg` of the two sockets that speak frames or raw messages. -/
def sendUpgraded (socketStatus : SocketStatus) (mustMask : Bool) (m : Message) (w : Wire) :
    Int × Wire :=
  if socketStatus = .connectedAsTCP then
    let (w, sent) := w.send m.buffer
    (toInt sent, w)
  else if socketStatus = .connectedAsWebSocket then
    sendMsgOver MaxMessageSize m.firstOpCode mustMask m.generateRandomUint32 m.buffer w
  else
    (0, w)

def HBDataSocket.sendMsg (socketStatus : SocketStatus) (mustMask : Bool) : Message → Wire → Int × Wire :=
  sendUpgraded MaxMessageSize socketStatus mustMask

def HBSocketClient.sendMsg (socketStatus : SocketStatus) : Message → Wire → Int × Wire :=
  sendUpgraded MaxMessageSize socketStatus true

def WebSocket.sendMsg (mustMask : Bool) (m : Message) (w : Wire) : Int × Wire :=
  sendMsgOver MaxMessageSize m.firstOpCode mustMask m.generateRandomUint32 m.buffer w

/-- The sockets with the members that their `sendMsg` reads. -/
inductive MessageSocket where
  | hbDataSocket (socketStatus : SocketStatus) (mustMask : Bool)
  | hbSocketClient (socketStatus : SocketStatus)
  | webSocket (mustMask : Bool)
  deriving DecidableEq, Repr

namespace MessageSocket

def sendMsg : MessageSocket → Message → Wire → Int × Wire
  | .hbDataSocket socketStatus mustMask => HBDataSocket.sendMsg MaxMessageSize socketStatus mustMask
  | .hbSocketClient socketStatus => HBSocketClient.sendMsg MaxMessageSize socketStatus
  | .webSocket mustMask => WebSocket.sendMsg MaxMessageSize mustMask

def mustMask : MessageSocket → Bool
  | .hbDataSocket _ mustMask => mustMask
  | .hbSocketClient _ => true
  | .webSocket mustMask => mustMask

/-- The third socket speaks nothing but frames. -/
def InWebSocketMode : MessageSocket → Prop
  | .hbDataSocket socketStatus _ => socketStatus = .connectedAsWebSocket
  | .hbSocketClient socketStatus => socketStatus = .connectedAsWebSocket
  | .webSocket _ => True

/-- The frames of a message, as bytes. -/
def encoding (socket : MessageSocket) (m : Message) : List UInt8 :=
  (Frame.sendMsg MaxMessageSize m.firstOpCode socket.mustMask m.generateRandomUint32
    m.buffer).frames.flatten

/-- A call of `sendMsg` that returned, with what the kernel accepted during it. -/
structure SentMessage where
  message : Message
  returned : Int
  accepted : List UInt8

/-- Calls of `sendMsg` one after the other, up to one that does not return. -/
def sendMessages (socket : MessageSocket) : List Message → Wire → List SentMessage × Wire
  | [], w => ([], w)
  | m :: messages, w =>
    let (returned, w') := socket.sendMsg MaxMessageSize m w
    if w'.waiting then
      ([], w')
    else
      let (sent, last) := sendMessages socket messages w'
      (⟨m, returned, w'.accepted.drop w.accepted.length⟩ :: sent, last)

/-- The stream has no holes, and a call that returns the size of its message sent it all. What the
kernel has accepted only grows, so the stream had none before either. -/
structure Intact (socket : MessageSocket) (messages : List Message)
    (run : List SentMessage × Wire) : Prop where
  stream : run.2.accepted <+: (messages.map (socket.encoding MaxMessageSize)).flatten
  complete : ∀ sent ∈ run.1, sent.returned = sent.message.buffer.length →
    sent.accepted = socket.encoding MaxMessageSize sent.message

end MessageSocket

end Sockets

/-! ### One message -/

section OneMessage

variable {MaxMessageSize : Nat} {firstOpCode : OpCode} {mask : Bool}
variable {generateRandomUint32 : Nat → Nat}

theorem sendFrameOver_transfers (numFrames : BitVec 32) (s : Frame.Sending) {w : Wire}
    (hfd : w.fd.isSome = true) (i : Nat) :
    ∃ frame, (Frame.sendFrame MaxMessageSize firstOpCode mask generateRandomUint32 numFrames s
        i).frames = s.frames ++ [frame] ∧
      w.Transfers (sendFrameOver MaxMessageSize firstOpCode mask generateRandomUint32 numFrames
        (s, w) i).2 frame := by
  refine ⟨_, rfl, ?_⟩
  have hheader := Wire.send_transfers hfd (Frame.getFrameHeader
    (if i = 0 then firstOpCode else .continuation) (min s.bytesLeft MaxMessageSize)
    (if mask then generateRandomUint32 i else 0) ((i : Int) == numFrames.toInt - 1)).contents
  refine hheader.trans ?_
  simp only [sendFrameOver]
  by_cases hsize : min s.bytesLeft MaxMessageSize > 0
  · simp only [hsize, if_true]
    exact Wire.send_transfers (hheader.fd_isSome hfd) _
  · simp only [hsize, if_false]
    exact Wire.Transfers.refl _

theorem foldl_transfers (numFrames : BitVec 32) (rounds : List Nat) (s : Frame.Sending) {w : Wire}
    (hfd : w.fd.isSome = true) :
    ∃ frames,
      (rounds.foldl (Frame.sendFrame MaxMessageSize firstOpCode mask generateRandomUint32 numFrames)
        s).frames = s.frames ++ frames ∧
      (rounds.foldl (sendFrameOver MaxMessageSize firstOpCode mask generateRandomUint32 numFrames)
        (s, w)).1 = rounds.foldl
          (Frame.sendFrame MaxMessageSize firstOpCode mask generateRandomUint32 numFrames) s ∧
      w.Transfers (rounds.foldl (sendFrameOver MaxMessageSize firstOpCode mask generateRandomUint32
        numFrames) (s, w)).2 frames.flatten := by
  induction rounds generalizing s w with
  | nil => exact ⟨[], by simp, rfl, .refl w⟩
  | cons i rounds ih =>
    obtain ⟨frame, hframe, hfirst⟩ := @sendFrameOver_transfers MaxMessageSize firstOpCode mask
      generateRandomUint32 numFrames s w hfd i
    obtain ⟨frames, hframes, hsame, hrest⟩ := ih (Frame.sendFrame MaxMessageSize firstOpCode mask
      generateRandomUint32 numFrames s i) (hfirst.fd_isSome hfd)
    refine ⟨frame :: frames, ?_, hsame, hfirst.trans hrest⟩
    rw [List.foldl_cons, hframes, hframe, List.append_assoc, List.singleton_append]

/-- Each round goes `MaxMessageSize` bytes on, up to the end of the buffer. -/
theorem foldl_position (numFrames : BitVec 32) (buffer : List UInt8) (rounds : Nat) :
    let s := (List.range rounds).foldl
      (Frame.sendFrame MaxMessageSize firstOpCode mask generateRandomUint32 numFrames)
      ⟨buffer, 0, buffer.length, []⟩
    s.currentPosition = min (rounds * MaxMessageSize) buffer.length ∧
      s.bytesLeft = buffer.length - s.currentPosition := by
  induction rounds with
  | zero => simp
  | succ rounds ih =>
    simp only [List.range_succ, List.foldl_append, List.foldl_cons, List.foldl_nil] at ih ⊢
    obtain ⟨hposition, hleft⟩ := ih
    simp only [Frame.sendFrame, hleft, hposition, Nat.succ_mul]
    omega

theorem numFrames_covers {size : Nat} (hpos : 0 < MaxMessageSize) (hsize : size < 2 ^ 31) :
    size ≤ (Frame.numFrames MaxMessageSize size).toInt.toNat * MaxMessageSize := by
  have hdivision := Nat.div_add_mod' size MaxMessageSize
  have hlt := Nat.mod_lt size hpos
  have hzero : (0 : BitVec 32).toNat = 0 := rfl
  have hone : (1 : BitVec 32).toNat = 1 := rfl
  have hle : size / MaxMessageSize ≤ size := Nat.div_le_self _ _
  have hhalf : size % MaxMessageSize ≠ 0 → size / MaxMessageSize ≤ size / 2 := by
    intro hrest
    refine Nat.div_le_div_left ?_ (by decide)
    by_contra hone
    rw [show MaxMessageSize = 1 by omega, Nat.mod_one] at hrest
    exact hrest rfl
  have hcount : size ≤ (Frame.numFrames MaxMessageSize size).toNat * MaxMessageSize ∧
      (Frame.numFrames MaxMessageSize size).toNat < 2 ^ 31 := by
    simp only [Frame.numFrames]
    generalize size / MaxMessageSize = quotient at *
    by_cases hrest : size % MaxMessageSize = 0
    · simp only [hrest, bne_self_eq_false, Bool.false_eq_true, if_false]
      split
      · rename_i hword
        have hnone := congrArg BitVec.toNat (beq_iff_eq.1 hword)
        rw [BitVec.toNat_ofNat, hzero, Nat.mod_eq_of_lt (by omega)] at hnone
        rw [hnone] at hdivision
        exact ⟨by omega, by decide⟩
      · rw [BitVec.toNat_ofNat, Nat.mod_eq_of_lt (by omega)]
        omega
    · have hword : (BitVec.ofNat 32 quotient + 1).toNat = quotient + 1 := by
        rw [BitVec.toNat_add, BitVec.toNat_ofNat, hone]
        omega
      have hnonzero : (BitVec.ofNat 32 quotient + 1 == 0) = false := by
        rw [beq_eq_false_iff_ne]
        intro hword'
        rw [hword', hzero] at hword
        omega
      simp only [bne_iff_ne, ne_eq, hrest, not_false_eq_true, if_true, hnonzero, Bool.false_eq_true,
        if_false, hword, Nat.add_mul]
      omega
  rw [BitVec.toInt_eq_toNat_of_lt (by omega), Int.toNat_natCast]
  exact hcount.1

theorem sendMsgOver_transfers {w : Wire} (hfd : w.fd.isSome = true) (buffer : List UInt8) :
    w.Transfers (sendMsgOver MaxMessageSize firstOpCode mask generateRandomUint32 buffer w).2
      (Frame.sendMsg MaxMessageSize firstOpCode mask generateRandomUint32 buffer).frames.flatten := by
  obtain ⟨frames, hframes, -, htransfers⟩ := @foldl_transfers MaxMessageSize firstOpCode mask
    generateRandomUint32 (Frame.numFrames MaxMessageSize buffer.length)
    (List.range (Frame.numFrames MaxMessageSize buffer.length).toInt.toNat)
    ⟨buffer, 0, buffer.length, []⟩ w hfd
  rw [Frame.sendMsg, hframes]
  exact htransfers

/-- The size of the message comes back, whatever became of its frames. -/
theorem sendMsgOver_returned {w : Wire} (hfd : w.fd.isSome = true) {buffer : List UInt8}
    (hpos : 0 < MaxMessageSize) (hsize : buffer.length < 2 ^ 31) :
    (sendMsgOver MaxMessageSize firstOpCode mask generateRandomUint32 buffer w).1 =
      buffer.length := by
  obtain ⟨_, _, hsame, _⟩ := @foldl_transfers MaxMessageSize firstOpCode mask
    generateRandomUint32 (Frame.numFrames MaxMessageSize buffer.length)
    (List.range (Frame.numFrames MaxMessageSize buffer.length).toInt.toNat)
    ⟨buffer, 0, buffer.length, []⟩ w hfd
  have hposition := (@foldl_position MaxMessageSize firstOpCode mask generateRandomUint32
    (Frame.numFrames MaxMessageSize buffer.length) buffer
    (Frame.numFrames MaxMessageSize buffer.length).toInt.toNat).1
  rw [min_eq_right (numFrames_covers hpos hsize)] at hposition
  simp only [sendMsgOver, hsame, hposition, toInt]
  rw [BitVec.toInt_eq_toNat_of_lt (by simp only [BitVec.toNat_ofNat]; omega), BitVec.toNat_ofNat,
    Nat.mod_eq_of_lt (by omega)]

end OneMessage

/-! ### Many messages -/

namespace MessageSocket

variable {MaxMessageSize : Nat} {socket : MessageSocket}

theorem sendMsg_over (hmode : socket.InWebSocketMode) (m : Message) (w : Wire) :
    socket.sendMsg MaxMessageSize m w =
      sendMsgOver MaxMessageSize m.firstOpCode socket.mustMask m.generateRandomUint32 m.buffer w := by
  cases socket with
  | hbDataSocket socketStatus mustMask =>
    have hstatus : socketStatus = .connectedAsWebSocket := hmode
    subst hstatus
    rfl
  | hbSocketClient socketStatus =>
    have hstatus : socketStatus = .connectedAsWebSocket := hmode
    subst hstatus
    rfl
  | webSocket mustMask => rfl

variable (MaxMessageSize) in
theorem sendMsg_transfers (hmode : socket.InWebSocketMode) (m : Message) {w : Wire}
    (hfd : w.fd.isSome = true) :
    w.Transfers (socket.sendMsg MaxMessageSize m w).2 (socket.encoding MaxMessageSize m) := by
  rw [sendMsg_over hmode]
  exact sendMsgOver_transfers hfd m.buffer

variable (MaxMessageSize) in
/-- All calls together transfer what the messages encode to. -/
theorem sendMessages_transfers (hmode : socket.InWebSocketMode) (messages : List Message) {w : Wire}
    (hfd : w.fd.isSome = true) :
    w.Transfers (socket.sendMessages MaxMessageSize messages w).2
      (messages.map (socket.encoding MaxMessageSize)).flatten := by
  induction messages generalizing w with
  | nil => exact .refl w
  | cons m messages ih =>
    have hfirst := sendMsg_transfers MaxMessageSize hmode m hfd
    rw [List.map_cons, List.flatten_cons, sendMessages]
    refine hfirst.trans ?_
    cases hwaiting : (socket.sendMsg MaxMessageSize m w).2.waiting with
    | true =>
      simp only [hwaiting, if_true]
      exact .idle hwaiting _
    | false =>
      simp only [hwaiting, Bool.false_eq_true, if_false]
      exact ih (hfirst.fd_isSome hfd)

theorem complete_of_harmless (hmode : socket.InWebSocketMode) (messages : List Message) {w : Wire}
    (hfd : w.fd.isSome = true)
    (hharmless : ∀ c ∈ (socket.sendMessages MaxMessageSize messages w).2.calls, c.harmless = true) :
    ∀ sent ∈ (socket.sendMessages MaxMessageSize messages w).1,
      sent.accepted = socket.encoding MaxMessageSize sent.message := by
  induction messages generalizing w with
  | nil => simp [sendMessages]
  | cons m messages ih =>
    have hfirst := sendMsg_transfers MaxMessageSize hmode m hfd
    rw [sendMessages] at hharmless ⊢
    cases hwaiting : (socket.sendMsg MaxMessageSize m w).2.waiting with
    | true => simp [hwaiting]
    | false =>
      simp only [hwaiting, Bool.false_eq_true, if_false] at hharmless ⊢
      have hrest := sendMessages_transfers MaxMessageSize hmode messages
        (hfirst.fd_isSome hfd)
      intro sent hsent
      rcases List.mem_cons.1 hsent with rfl | hsent
      · exact hfirst.accepted_of_harmless (fun c hc => hharmless c (hrest.mem_calls hc)) hwaiting
      · exact ih (hfirst.fd_isSome hfd) hharmless sent hsent

theorem harmless_of_complete (hmode : socket.InWebSocketMode) (hpos : 0 < MaxMessageSize)
    (messages : List Message) (hsize : ∀ m ∈ messages, m.buffer.length < 2 ^ 31) {w : Wire}
    (hfd : w.fd.isSome = true) (hharmless : ∀ c ∈ w.calls, c.harmless = true)
    (hreturned : (socket.sendMessages MaxMessageSize messages w).2.waiting = false)
    (hcomplete : ∀ sent ∈ (socket.sendMessages MaxMessageSize messages w).1,
      sent.returned = sent.message.buffer.length →
        sent.accepted = socket.encoding MaxMessageSize sent.message) :
    ∀ c ∈ (socket.sendMessages MaxMessageSize messages w).2.calls, c.harmless = true := by
  induction messages generalizing w with
  | nil => exact hharmless
  | cons m messages ih =>
    have hfirst := sendMsg_transfers MaxMessageSize hmode m hfd
    rw [sendMessages] at hreturned hcomplete ⊢
    cases hwaiting : (socket.sendMsg MaxMessageSize m w).2.waiting with
    | true => simp [hwaiting] at hreturned
    | false =>
      simp only [hwaiting, Bool.false_eq_true, if_false] at hreturned hcomplete ⊢
      have hsame : (socket.sendMsg MaxMessageSize m w).1 = m.buffer.length := by
        rw [sendMsg_over hmode]
        exact sendMsgOver_returned hfd hpos (hsize m List.mem_cons_self)
      have haccepted := hcomplete _ List.mem_cons_self hsame
      exact ih (fun m' hm' => hsize m' (List.mem_cons_of_mem m hm')) (hfirst.fd_isSome hfd)
        (hfirst.harmless_of_accepted haccepted hharmless) hreturned
        (fun sent hsent => hcomplete sent (List.mem_cons_of_mem _ hsent))

/-- The stream stays intact when all answers of the kernel are harmless, and, once every call has
returned, only then. -/
theorem sendMessages_intact (hmode : socket.InWebSocketMode) (hpos : 0 < MaxMessageSize)
    (messages : List Message) (fd : Nat) (answers : List SendResult) :
    let run := socket.sendMessages MaxMessageSize messages ⟨some fd, answers, [], [], false⟩
    ((∀ c ∈ run.2.calls, c.harmless = true) → socket.Intact MaxMessageSize messages run) ∧
      (run.2.waiting = false → (∀ m ∈ messages, m.buffer.length < 2 ^ 31) →
        socket.Intact MaxMessageSize messages run → ∀ c ∈ run.2.calls, c.harmless = true) := by
  have htransfers := sendMessages_transfers MaxMessageSize hmode messages
    (w := ⟨some fd, answers, [], [], false⟩) rfl
  refine ⟨fun hharmless => ⟨?_, fun sent hsent _ => ?_⟩, fun hreturned hsize hintact => ?_⟩
  · obtain ⟨part, calls, haccepted, hcalls, _, _, _, hsafe, _⟩ := htransfers
    rw [haccepted, List.nil_append]
    refine (hsafe fun c hc => hharmless c ?_).1
    rw [hcalls]
    exact List.mem_append_right _ hc
  · exact complete_of_harmless hmode messages rfl hharmless sent hsent
  · exact harmless_of_complete hmode hpos messages hsize rfl (by simp) hreturned hintact.complete

/-- A kernel that accepts all it is offered. -/
theorem sendMessages_intact_hi :
    (MessageSocket.webSocket false).Intact 100 [⟨ascii "Hi", .text, fun _ => 0⟩]
      ((MessageSocket.webSocket false).sendMessages 100 [⟨ascii "Hi", .text, fun _ => 0⟩]
        ⟨some 3, [.accepted 2 (.other 0), .accepted 2 (.other 0)], [], [], false⟩) :=
  (sendMessages_intact (show (MessageSocket.webSocket false).InWebSocketMode from trivial) (by decide)
    [⟨ascii "Hi", .text, fun _ => 0⟩] 3 [.accepted 2 (.other 0), .accepted 2 (.other 0)]).1
    (by decide +kernel)

/-- The first byte of the header, then the payload. -/
theorem sendMessages_not_intact :
    ¬ (MessageSocket.webSocket false).Intact 100 [⟨ascii "Hi", .text, fun _ => 0⟩]
      ((MessageSocket.webSocket false).sendMessages 100 [⟨ascii "Hi", .text, fun _ => 0⟩]
        ⟨some 3, [.accepted 1 (.other 0), .accepted 2 (.other 0)], [], [], false⟩) :=
  fun h => absurd h.stream (by decide +kernel)

end MessageSocket

end LuPlatform.Socket
