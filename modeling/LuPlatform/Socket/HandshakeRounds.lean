import LuPlatform.Socket.HeaderScan
import LuPlatform.Socket.WebSockets

/-! A server socket until its request is whole. Each piece is behind the others in the buffer when the
search goes on, and the piece the search stops in is answered, refused or fails. -/

namespace LuPlatform.Socket

open Bytes Websocket Receiver

/-- The lines of the text are refused before their end. -/
def RefusedLines (text : List UInt8) : Prop :=
  readLines (requestLine RESOURCE) text = some (.ok none)

/-! ### The sockets -/

section Serving

variable {status : Type} (getBase64Hash : List UInt8 → List UInt8) (connecting : status)
variable (connectedAs : HandshakeRequest → status)

/-- What both server sockets do in `readMessages` while they are connecting. -/
structure ServesHandshake (readMessages : SessionSocket status → Option (SessionSocket status)) :
    Prop where
  connected : ∀ request, connectedAs request ≠ connecting
  fails : ∀ s, s.own.socketStatus = connecting →
    s.processHeader (finishRequest getBase64Hash connectedAs) = none → readMessages s = none
  waits : ∀ s t, s.own.socketStatus = connecting →
    s.processHeader (finishRequest getBase64Hash connectedAs) = some t →
    t.own.socketStatus = connecting → readMessages s = some t
  drained : ∀ s t request, s.own.socketStatus = connecting →
    s.processHeader (finishRequest getBase64Hash connectedAs) = some t →
    t.own.socketStatus = connectedAs request → t.numberOfBytesLeftToRead = 0 →
    t.own.frame.opCode ≠ .close → readMessages s = some t

end Serving

theorem processFrames_drained {status : Type} {s : SessionSocket status}
    (hleft : s.numberOfBytesLeftToRead = 0) (hopen : s.own.frame.opCode ≠ .close) :
    s.processFrames = some s := by
  have hunread : s.unread = [] := by rw [unread, hleft, List.take_zero]
  have hread : s.own.frame.processMessage (.new []) = some (⟨s.own.frame, .new [], []⟩, .needData) :=
    rfl
  have hbuffer : s.buffer.take s.readOffset ++
      s.buffer.drop (s.readOffset + s.numberOfBytesLeftToRead) = s.buffer := by
    rw [hleft, Nat.add_zero, List.take_append_drop]
  have hclose : (s.own.frame.opCode == OpCode.close) = false := by simpa using hopen
  simp only [processFrames, hunread, hread, hclose]
  simp only [SocketData.new, List.append_nil, hbuffer, List.map_nil, updateForDataRead, Nat.add_zero,
    Nat.sub_zero]
  rfl

theorem webSocket_serves (getBase64Hash : List UInt8 → List UInt8) :
    ServesHandshake getBase64Hash .connecting (fun _ => .connected)
      (WebSocket.readMessages getBase64Hash) where
  connected _ := by decide
  fails s hs h := by rw [WebSocket.readMessages, if_pos hs, WebSocket.processHandshake, h]
  waits s t hs h ht := by
    rw [WebSocket.readMessages, if_pos hs, WebSocket.processHandshake, h]
    exact if_pos ht
  drained s t _ hs h ht hleft hopen := by
    rw [WebSocket.readMessages, if_pos hs, WebSocket.processHandshake, h]
    simp only [ht, reduceCtorEq, if_false]
    exact processFrames_drained hleft hopen

theorem readUpgraded_drained {handler : DataHandler} (hheader : 0 < handler.getHeaderSize)
    {s : SessionSocket SocketStatus} {upgrade : List UInt8}
    (hstatus : s.own.socketStatus = connectedAs upgrade) (hleft : s.numberOfBytesLeftToRead = 0)
    (hopen : s.own.frame.opCode ≠ .close) : readUpgraded handler s = some s := by
  unfold connectedAs at hstatus
  unfold readUpgraded
  split at hstatus
  · have hround : readMessagesRound handler s = .leave s := by
      rw [readMessagesRound, if_neg (by omega)]
    simp only [hstatus]
    exact Loop.loop_leave hround _
  · simp only [hstatus]
    exact processFrames_drained hleft hopen

theorem hbDataSocket_serves (getBase64Hash : List UInt8 → List UInt8) {handler : DataHandler}
    (hheader : 0 < handler.getHeaderSize) :
    ServesHandshake getBase64Hash .connecting (fun request => connectedAs request.upgrade)
      (HBDataSocket.readMessages getBase64Hash handler) where
  connected request := by
    unfold connectedAs
    split <;> decide
  fails s hs h := by
    rw [HBDataSocket.readMessages, readMessagesWith, if_pos hs, HBDataSocket.processHandshake, h]
  waits s t hs h ht := by
    rw [HBDataSocket.readMessages, readMessagesWith, if_pos hs, HBDataSocket.processHandshake, h]
    exact if_pos ht
  drained s t request hs h ht hleft hopen := by
    have hconnected : t.own.socketStatus ≠ .connecting := by
      rw [ht, connectedAs]
      split <;> decide
    rw [HBDataSocket.readMessages, readMessagesWith, if_pos hs, HBDataSocket.processHandshake, h]
    simp only [if_neg hconnected]
    exact readUpgraded_drained hheader ht hleft hopen

/-! ### A socket that waits for its request -/

section Waiting

variable {status : Type} (connecting : status) (MaxMessageSize bufferSize : Nat)

/-- The socket after `arrived`, none of which it has consumed. -/
def waiting (arrived : List UInt8) (offset : Nat) (events : List (SocketEvent FrameEvent)) :
    SessionSocket status where
  buffer := arrived ++ List.replicate (bufferSize - arrived.length) 0
  numberOfBytesLeftToRead := arrived.length
  numberOfBytesLeftToRecv := bufferSize - arrived.length
  own := {
    socketStatus := connecting
    frame := .new MaxMessageSize
    readWebsocketHeaderOffset := offset }
  events

/-- The same before the end of a round, when the window is still the last one. -/
def filled (window : Nat) (arrived : List UInt8) (offset : Nat)
    (events : List (SocketEvent FrameEvent)) : SessionSocket status :=
  { waiting connecting MaxMessageSize bufferSize arrived offset events with
    numberOfBytesLeftToRecv := window }

/-- The socket once it has answered `arrived` and consumed it. -/
def opened (connectedAs : HandshakeRequest → status) (request : HandshakeRequest)
    (response arrived : List UInt8) (events : List (SocketEvent FrameEvent)) :
    SessionSocket status where
  buffer := arrived ++ List.replicate (bufferSize - arrived.length) 0
  numberOfBytesLeftToRecv := bufferSize
  own := {
    socketStatus := connectedAs request
    frame := .new MaxMessageSize }
  events := events ++ [.send response, .onOpen]

variable {connecting MaxMessageSize bufferSize} {arrived bytes : List UInt8} {offset window : Nat}
variable {events : List (SocketEvent FrameEvent)}

theorem fill_waiting (hfits : arrived.length + bytes.length ≤ bufferSize) :
    (waiting connecting MaxMessageSize bufferSize arrived offset events).fill bytes =
      some (filled connecting MaxMessageSize bufferSize (bufferSize - arrived.length)
        (arrived ++ bytes) offset events) := by
  have hlength : (arrived ++ List.replicate (bufferSize - arrived.length) (0 : UInt8)).length =
      bufferSize := by
    rw [List.length_append, List.length_replicate]
    omega
  have htake : (arrived ++ List.replicate (bufferSize - arrived.length) (0 : UInt8)).take
      arrived.length = arrived := List.take_left
  have hdrop : (arrived ++ List.replicate (bufferSize - arrived.length) (0 : UInt8)).drop
      (arrived.length + bytes.length) =
        List.replicate (bufferSize - (arrived.length + bytes.length)) 0 := by
    rw [List.drop_append, List.drop_replicate, List.drop_eq_nil_of_le (by omega), List.nil_append]
    congr 1
    omega
  rw [fill]
  simp only [waiting, Nat.zero_add, hlength, if_pos hfits, htake, hdrop, filled, List.length_append]

theorem rewind_filled (hfits : arrived.length ≤ bufferSize / 4) :
    (filled connecting MaxMessageSize bufferSize window arrived offset events).rewind =
      waiting connecting MaxMessageSize bufferSize arrived offset events := by
  have hlength : (arrived ++ List.replicate (bufferSize - arrived.length) (0 : UInt8)).length =
      bufferSize := by
    rw [List.length_append, List.length_replicate]
    omega
  cases arrived with
  | nil => simp [filled, waiting, rewind]
  | cons b arrived =>
    have hunread : (filled connecting MaxMessageSize bufferSize window (b :: arrived) offset
        events).unread = b :: arrived := List.take_left
    have hpos : ¬ (b :: arrived).length = 0 := by simp
    rw [rewind, hunread]
    simp only [filled, waiting, receiveBufferShiftSize, hlength, if_neg hpos, if_pos hfits,
      List.drop_left]

theorem headerView_filled :
    (filled connecting MaxMessageSize bufferSize window arrived offset events).headerView =
      arrived.drop offset := by
  simp only [headerView, filled, waiting]
  rw [List.drop_append, List.take_append_of_le_length (by rw [List.length_drop]),
    ← List.length_drop, List.take_length]

theorem header_filled (hoffset : offset ≤ arrived.length) :
    (filled connecting MaxMessageSize bufferSize window arrived offset events).header =
      arrived.take offset := by
  simp only [header, filled, waiting]
  exact List.take_append_of_le_length hoffset

/-- Without the end of the header nothing but the offset changes. -/
theorem processHeader_filled {finish : SessionSocket status → Option (SessionSocket status)}
    {offset' : Nat} (hwindow : window ≠ 0)
    (hscan : scanHeader (arrived.drop offset) offset = some (false, offset')) :
    (filled connecting MaxMessageSize bufferSize window arrived offset events).processHeader finish =
      some (filled connecting MaxMessageSize bufferSize window arrived offset' events) := by
  rw [processHeader, headerView_filled]
  simp only [filled, waiting, hscan, withOffset]
  exact if_neg hwindow

theorem processHeader_found {finish : SessionSocket status → Option (SessionSocket status)}
    {offset' : Nat}
    (hscan : scanHeader (arrived.drop offset) offset = some (true, offset')) :
    (filled connecting MaxMessageSize bufferSize window arrived offset events).processHeader finish =
      finish (filled connecting MaxMessageSize bufferSize window arrived offset' events) := by
  rw [processHeader, headerView_filled]
  simp only [filled, waiting, hscan, withOffset]

/-- The header is all there is, so nothing is left of it. -/
theorem rewind_opened {connectedAs : HandshakeRequest → status} {request : HandshakeRequest}
    {response : List UInt8} (hfits : arrived.length ≤ bufferSize) :
    ((((filled connecting MaxMessageSize bufferSize window arrived arrived.length
      events).updateForHeader.withStatus (connectedAs request)).raise (.send response)).raise
        .onOpen).rewind =
      opened MaxMessageSize bufferSize connectedAs request response arrived events := by
  have hlength : (arrived ++ List.replicate (bufferSize - arrived.length) (0 : UInt8)).length =
      bufferSize := by
    rw [List.length_append, List.length_replicate]
    omega
  simp only [raise, withStatus, updateForHeader, updateForDataRead, withOffset, filled, waiting,
    rewind, Nat.sub_self, if_true, hlength, opened, List.append_assoc, List.cons_append,
    List.nil_append]

theorem new_waiting (connecting : status) (MaxMessageSize bufferSize : Nat) :
    (Receiver.new (List.replicate bufferSize 0)
      { socketStatus := connecting, frame := .new MaxMessageSize } : SessionSocket status) =
      waiting connecting MaxMessageSize bufferSize [] 0 [] := by
  simp [Receiver.new, waiting]

end Waiting

/-! ### Rounds -/

/-- A header that is cut off is refused for one of its lines, or the parser reads beyond it or
throws. -/
theorem answerRequest_cut (getBase64Hash : List UInt8 → List UInt8) {text : List UInt8}
    (htext : EndsWithFirstEmptyLine text) {n : Nat} (hn : n < text.length) :
    RefusedLines (text.take n) ∧ answerRequest getBase64Hash (text.take n) = .ok ({}, []) ∨
      ¬ RefusedLines (text.take n) ∧ ∀ r, answerRequest getBase64Hash (text.take n) ≠ .ok r := by
  have hfront : text.take n <+: text := List.take_prefix n text
  have hshort : (text.take n).length < text.length := by
    rw [List.length_take]
    omega
  obtain ⟨outcome, houtcome⟩ := readLines_terminates (requestLine RESOURCE) (text.take n)
  unfold RefusedLines answerRequest getResponse
  rw [houtcome]
  cases outcome with
  | ok refused =>
    cases refused with
    | none => exact .inl ⟨rfl, rfl⟩
    | some keyValue =>
      obtain ⟨i, hi⟩ := readLines_scanned houtcome
      exact absurd hi (htext.no_empty hfront hshort i)
  | thrown => exact .inr ⟨by simp, fun r => by simp⟩
  | outsideText => exact .inr ⟨by simp, fun r => by simp⟩

section Rounds

variable {status : Type} {getBase64Hash : List UInt8 → List UInt8} {connecting : status}
variable {connectedAs : HandshakeRequest → status}
variable {readMessages : SessionSocket status → Option (SessionSocket status)}
variable {MaxMessageSize bufferSize : Nat} {arrived bytes : List UInt8} {offset offset' : Nat}
variable {events : List (SocketEvent FrameEvent)}

theorem receiveRound_waits
    (hserves : ServesHandshake getBase64Hash connecting connectedAs readMessages)
    (hbytes : bytes ≠ []) (hfits : (arrived ++ bytes).length ≤ bufferSize / 4)
    (hscan : scanHeader ((arrived ++ bytes).drop offset) offset = some (false, offset')) :
    receiveRound readMessages (waiting connecting MaxMessageSize bufferSize arrived offset events)
        bytes =
      some (waiting connecting MaxMessageSize bufferSize (arrived ++ bytes) offset' events) := by
  have hpos := List.length_pos_iff.mpr hbytes
  have hlength : (arrived ++ bytes).length = arrived.length + bytes.length := List.length_append
  have hread := hserves.waits (filled connecting MaxMessageSize bufferSize
    (bufferSize - arrived.length) (arrived ++ bytes) offset events) _ rfl
    (processHeader_filled (by omega) hscan) rfl
  rw [receiveRound, fill_waiting (by omega)]
  simp only [Option.bind_eq_bind, Option.bind_some, hread, rewind_filled hfits]
  rfl

theorem receiveRound_refused
    (hserves : ServesHandshake getBase64Hash connecting connectedAs readMessages)
    (hfits : (arrived ++ bytes).length ≤ bufferSize / 4)
    (hscan : scanHeader ((arrived ++ bytes).drop offset) offset = some (true, offset'))
    (hoffset : offset' ≤ (arrived ++ bytes).length) {request : HandshakeRequest}
    (hanswer : answerRequest getBase64Hash ((arrived ++ bytes).take offset') = .ok (request, [])) :
    receiveRound readMessages (waiting connecting MaxMessageSize bufferSize arrived offset events)
        bytes =
      some (waiting connecting MaxMessageSize bufferSize (arrived ++ bytes) offset'
        (events ++ [.stop])) := by
  have hlength : (arrived ++ bytes).length = arrived.length + bytes.length := List.length_append
  have hfinish : (filled connecting MaxMessageSize bufferSize (bufferSize - arrived.length)
      (arrived ++ bytes) offset events).processHeader (finishRequest getBase64Hash connectedAs) =
      some (filled connecting MaxMessageSize bufferSize (bufferSize - arrived.length)
        (arrived ++ bytes) offset' (events ++ [.stop])) := by
    rw [processHeader_found hscan, finishRequest, header_filled hoffset, hanswer]
    rfl
  have hread := hserves.waits _ _ rfl hfinish rfl
  rw [receiveRound, fill_waiting (by omega)]
  simp only [Option.bind_eq_bind, Option.bind_some, hread, rewind_filled hfits]
  rfl

theorem receiveRound_fails
    (hserves : ServesHandshake getBase64Hash connecting connectedAs readMessages)
    (hfits : (arrived ++ bytes).length ≤ bufferSize / 4)
    (hscan : scanHeader ((arrived ++ bytes).drop offset) offset = some (true, offset'))
    (hoffset : offset' ≤ (arrived ++ bytes).length)
    (hanswer : ∀ r, answerRequest getBase64Hash ((arrived ++ bytes).take offset') ≠ .ok r) :
    receiveRound readMessages (waiting connecting MaxMessageSize bufferSize arrived offset events)
        bytes = none := by
  have hlength : (arrived ++ bytes).length = arrived.length + bytes.length := List.length_append
  have hfinish : (filled connecting MaxMessageSize bufferSize (bufferSize - arrived.length)
      (arrived ++ bytes) offset events).processHeader (finishRequest getBase64Hash connectedAs) =
      none := by
    rw [processHeader_found hscan, finishRequest, header_filled hoffset]
    split
    · rename_i request response h
      exact absurd h (hanswer _)
    · rfl
  have hread := hserves.fails _ rfl hfinish
  rw [receiveRound, fill_waiting (by omega)]
  simp only [Option.bind_eq_bind, Option.bind_some, hread, Option.bind_none]

variable (connecting MaxMessageSize bufferSize connectedAs) in
/-- How a whole request leaves the socket. -/
def answered (request : HandshakeRequest) (response text : List UInt8)
    (events : List (SocketEvent FrameEvent)) : SessionSocket status :=
  if response.isEmpty then
    waiting connecting MaxMessageSize bufferSize text text.length (events ++ [.stop])
  else
    opened MaxMessageSize bufferSize connectedAs request response text events

/-- The piece that completes the request, searched from the start of the first line. -/
theorem receiveRound_whole
    (hserves : ServesHandshake getBase64Hash connecting connectedAs readMessages)
    (htext : EndsWithFirstEmptyLine (arrived ++ bytes))
    (hfits : (arrived ++ bytes).length ≤ bufferSize / 4)
    {request : HandshakeRequest} {response : List UInt8}
    (hanswer : answerRequest getBase64Hash (arrived ++ bytes) = .ok (request, response)) :
    receiveRound readMessages (waiting connecting MaxMessageSize bufferSize arrived 0 events) bytes =
      some (answered connecting connectedAs MaxMessageSize bufferSize request response
        (arrived ++ bytes) events) := by
  have hscan := endsWithFirstEmptyLine_iff.mp htext
  have htake : (arrived ++ bytes).take (arrived ++ bytes).length = arrived ++ bytes :=
    List.take_length
  cases response with
  | nil =>
    exact receiveRound_refused hserves hfits hscan (Nat.le_refl _) (by rw [htake]; exact hanswer)
  | cons b response =>
    have hlength : (arrived ++ bytes).length = arrived.length + bytes.length := List.length_append
    have hfinish : (filled connecting MaxMessageSize bufferSize (bufferSize - arrived.length)
        (arrived ++ bytes) 0 events).processHeader (finishRequest getBase64Hash connectedAs) =
        some ((((filled connecting MaxMessageSize bufferSize (bufferSize - arrived.length)
          (arrived ++ bytes) (arrived ++ bytes).length events).updateForHeader.withStatus
            (connectedAs request)).raise (.send (b :: response))).raise .onOpen) := by
      rw [processHeader_found hscan, finishRequest, header_filled (Nat.le_refl _), htake, hanswer]
      rfl
    have hread := hserves.drained _ _ request rfl hfinish rfl (Nat.sub_self _)
      (by simp [raise, withStatus, updateForHeader, updateForDataRead, withOffset, filled, waiting,
        Frame.new])
    rw [receiveRound, fill_waiting (by omega)]
    simp only [Option.bind_eq_bind, Option.bind_some, hread]
    exact congrArg some (rewind_opened (by omega))

end Rounds

/-! ### A request that is met -/

/-- A request without its last line, the empty one. -/
def exampleLines : List UInt8 := ascii "GET /comms HTTP/1.1\r\nUpgrade: tcp\r\n"

theorem exampleRequest_ends : EndsWithFirstEmptyLine (exampleLines ++ crlf) :=
  endsWithFirstEmptyLine_iff.mpr (by decide +kernel)

theorem exampleRequest_answer : ∃ request response,
    answerRequest (fun _ => []) (exampleLines ++ crlf) = .ok (request, response) ∧
      response ≠ [] := by
  have hmet : (answerRequest (fun _ => []) (exampleLines ++ crlf)).result?.any
      (fun answer => !answer.2.isEmpty) = true := by decide +kernel
  obtain ⟨⟨request, response⟩, hresult, hne⟩ := (Option.any_eq_true _ _).mp hmet
  exact ⟨request, response, Outcome.result?_eq_some.mp hresult, by simpa using hne⟩

end LuPlatform.Socket
