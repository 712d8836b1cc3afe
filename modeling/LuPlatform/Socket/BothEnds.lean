import LuPlatform.Socket.Conversation
import LuPlatform.Socket.HandshakeAgreement

/-! A connection from both of its ends. The request of `HBSocketClient` and the response of
`HBDataSocket` are lines without a break, so either text ends with its first empty line; each end goes
on with frames, and each takes in what the other one sends. -/

namespace LuPlatform

namespace Websocket

open Bytes

/-- Behind a line that starts at the end of `before`, printed fields and an empty line. -/
theorem scanned_fields {fields : List (List UInt8 × List UInt8)}
    (hfields : ∀ field ∈ fields, OneLine (fieldLine field)) {before text : List UInt8}
    (htext : before ++ (fields.map fun field => headerLine field.1 field.2).flatten ++ crlf = text)
    (h : Scanned text before.length) : EndsWithFirstEmptyLine text := by
  induction fields generalizing before with
  | nil =>
    have hempty : OneLine [] := by decide
    have hfind := findFrom_crlf_line before hempty []
    rw [List.map_nil, List.flatten_nil, List.append_nil] at htext
    rw [List.append_nil, List.append_nil, htext, List.length_nil, Nat.add_zero] at hfind
    refine ⟨before.length, ?_, h.emptyLine hfind, h.2⟩
    rw [← htext, List.length_append]
    rfl
  | cons field fields ih =>
    have hline := hfields field (by simp)
    have hsplit : before ++ fieldLine field ++ crlf ++
        ((fields.map fun field => headerLine field.1 field.2).flatten ++ crlf) = text := by
      rw [← htext]
      simp only [List.map_cons, List.flatten_cons, headerLine, fieldLine, List.append_assoc]
    have hfind := findFrom_crlf_line before hline
      ((fields.map fun field => headerLine field.1 field.2).flatten ++ crlf)
    rw [hsplit] at hfind
    have hlength : 0 < (fieldLine field).length := by
      simp [fieldLine, ascii]
    have hnext := h.next hfind (by omega)
    refine ih (fun f hf => hfields f (by simp [hf])) (by rw [List.append_assoc, hsplit]) ?_
    rw [List.length_append, List.length_append]
    exact hnext

theorem ends_fields {first : List UInt8} (hline : OneLine first) (hne : first ≠ [])
    {fields : List (List UInt8 × List UInt8)}
    (hfields : ∀ field ∈ fields, OneLine (fieldLine field)) :
    EndsWithFirstEmptyLine
      (first ++ crlf ++ (fields.map fun field => headerLine field.1 field.2).flatten ++ crlf) := by
  have hfind := findFrom_crlf_line [] hline
    ((fields.map fun field => headerLine field.1 field.2).flatten ++ crlf)
  have hpos := List.length_pos_iff.mpr hne
  rw [List.nil_append, ← List.append_assoc, List.length_nil, Nat.zero_add] at hfind
  have hlength : (first ++ crlf).length = first.length + 2 := List.length_append
  have hscanned := (scanned_zero _).next hfind (by omega)
  rw [← hlength] at hscanned
  exact scanned_fields hfields rfl hscanned

end Websocket

namespace Socket

open Bytes Feed Websocket Receiver

section Handshake

variable {getBase64Hash : List UInt8 → List UInt8} {handshakeInfo : InitialRequestInfo}
variable {key : List UInt8}

theorem createHandShakeRequest_ends (h : WellFormed handshakeInfo key) :
    EndsWithFirstEmptyLine (createHandShakeRequest handshakeInfo key) := by
  rw [createHandShakeRequest_eq, h.resourceName]
  exact ends_fields (by decide) (by decide) (requestFields_oneLine h)

theorem webSocketResponse_ends (hhash : ∀ text, OneLine (getBase64Hash text)) :
    EndsWithFirstEmptyLine (webSocketResponse getBase64Hash key) :=
  ends_fields (by decide) (by decide) (responseFields_oneLine hhash key)

variable (getBase64Hash) in
/-- The server meets a client that asks for frames and whose protocols it can read up to its own. -/
theorem createHandShakeRequest_met (h : WellFormed handshakeInfo key)
    (hupgrade : handshakeInfo.upgrade ≠ ascii "tcp")
    (hreached : ProtocolReached (ascii "LuBinary") handshakeInfo.protocols)
    {pieces : List (List UInt8)} (hpieces : ∀ bytes ∈ pieces, bytes ≠ [])
    (hlines : NoLineBeforeLast pieces)
    (hrequest : pieces.flatten = createHandShakeRequest handshakeInfo key) :
    ∃ request, Met getBase64Hash pieces request (webSocketResponse getBase64Hash key) ∧
      connectedAs request.upgrade = .connectedAsWebSocket := by
  obtain ⟨request, hwebsocket, hanswer⟩ :=
    (answerRequest_protocols getBase64Hash h hupgrade).1 hreached
  refine ⟨request, ⟨?_, ?_, webSocketResponse_ne key, hpieces, hlines⟩, ?_⟩
  · rw [hrequest]
    exact createHandShakeRequest_ends h
  · rw [hrequest]
    exact hanswer
  · rw [hwebsocket]
    decide

end Handshake

/-! ### The client's end -/

section Client

variable {getBase64Hash : List UInt8 → List UInt8} {handshakeInfo : InitialRequestInfo}
variable {key : List UInt8} {handler : DataHandler} {memory : Nat → UInt8} {MaxMessageSize : Nat}

/-- A reply that is all there is in the buffer is read to its end. -/
theorem processServerReply_whole {t : HBSocketClient} {reply : List UInt8}
    {response : HandshakeSeverResponse} (htext : EndsWithFirstEmptyLine reply)
    (hreply : readServerResponse getBase64Hash reply key = .ok (response, true))
    (hbuffer : t.buffer.take reply.length = reply) (hleft : t.numberOfBytesLeftToRead = reply.length)
    (hoffset : t.own.readWebsocketHeaderOffset = 0) :
    HBSocketClient.processServerReply getBase64Hash key t =
      some (((t.withOffset reply.length).updateForHeader.withStatus
        (connectedAs response.getUpgrade)).raise .onOpen) := by
  have hview : t.headerView = reply := by
    rw [headerView, hoffset, hleft]
    exact hbuffer
  have hheader : (t.withOffset reply.length).header = reply := hbuffer
  have hscan : scanHeader t.headerView t.own.readWebsocketHeaderOffset =
      some (true, reply.length) := by
    rw [hview, hoffset]
    exact endsWithFirstEmptyLine_iff.mp htext
  rw [HBSocketClient.processServerReply, processHeader, hscan]
  simp only [HBSocketClient.finishReply, hheader, hreply, if_true]

variable (handshakeInfo memory) in
/-- The client once it has read a reply that comes in one piece and takes it. -/
theorem receive_accepted {reply : List UInt8} {response : HandshakeSeverResponse}
    (hheader : 0 < handler.getHeaderSize) (htext : EndsWithFirstEmptyLine reply)
    (hfits : reply.length ≤ HBDataSocket.BUFFER_SIZE MaxMessageSize)
    (hreply : readServerResponse getBase64Hash reply key = .ok (response, true)) :
    ∃ t, ((HBSocketClient.new memory MaxMessageSize).startHandshake handshakeInfo key).receive
        (HBSocketClient.readMessages getBase64Hash key handler) [reply] = some t ∧
      t.Awaiting (connectedAs response.getUpgrade) MaxMessageSize ∧
      t.own.frame = .new MaxMessageSize ∧ t.unread = [] ∧
      t.buffer.length = HBDataSocket.BUFFER_SIZE MaxMessageSize ∧
      t.numberOfBytesLeftToRecv = HBDataSocket.BUFFER_SIZE MaxMessageSize ∧
      t.events = [.send (createHandShakeRequest handshakeInfo key), .onOpen] := by
  set s := (HBSocketClient.new memory MaxMessageSize).startHandshake handshakeInfo key with hs
  have hbuffer : s.buffer.length = HBDataSocket.BUFFER_SIZE MaxMessageSize :=
    length_uninitialized memory _
  obtain ⟨t, hfill⟩ : ∃ t, s.fill reply = some t := fill_isSome (by
    rw [hbuffer]
    exact (Nat.zero_add _).trans_le hfits)
  have hunread := unread_fill hfill
  have hlength := length_buffer_fill hfill
  obtain ⟨-, ht⟩ := fill_eq_some hfill
  have hleft : t.numberOfBytesLeftToRead = reply.length := by
    rw [ht]
    exact Nat.zero_add _
  have hown : t.own = s.own := by rw [ht]
  have hoffset : t.readOffset = 0 := by rw [ht]; rfl
  have hevents : t.events = [.send (createHandShakeRequest handshakeInfo key)] := by rw [ht]; rfl
  have hempty : s.unread = [] := rfl
  rw [hempty, List.nil_append, unread, hoffset, List.drop_zero, hleft] at hunread
  have hstatus : t.own.socketStatus = .connecting := by rw [hown]; rfl
  let u : HBSocketClient := ((t.withOffset reply.length).updateForHeader.withStatus
    (connectedAs response.getUpgrade)).raise .onOpen
  have hread : HBSocketClient.processServerReply getBase64Hash key t = some u :=
    processServerReply_whole htext hreply hunread hleft (by rw [hown]; rfl)
  have hleft' : u.numberOfBytesLeftToRead = 0 := by
    show t.numberOfBytesLeftToRead - reply.length = 0
    omega
  have hframe : u.own.frame = .new MaxMessageSize := by
    show t.own.frame = _
    rw [hown]
    rfl
  have hmessages : HBSocketClient.readMessages getBase64Hash key handler t = some u := by
    have hne : u.own.socketStatus ≠ .connecting := connectedAs_ne_connecting response.getUpgrade
    rw [HBSocketClient.readMessages, readMessagesWith, if_pos hstatus, hread]
    simp only [if_neg hne]
    exact readUpgraded_drained hheader rfl hleft' (by rw [hframe]; simp [Frame.new])
  have hrewind : u.rewind = { u with readOffset := 0, numberOfBytesLeftToRecv := u.buffer.length } :=
    if_pos hleft'
  have hround : s.receiveRound (HBSocketClient.readMessages getBase64Hash key handler) reply =
      some u.rewind := by
    simp [receiveRound, hfill, hmessages]
  have hlength' : u.buffer.length = HBDataSocket.BUFFER_SIZE MaxMessageSize := hlength.trans hbuffer
  have hunread' : u.rewind.unread = [] := by rw [hrewind, unread, hleft', List.take_zero]
  have hframe' : u.rewind.own.frame = .new MaxMessageSize := by rw [hrewind]; exact hframe
  have hwindow : u.rewind.windowEnd = u.rewind.buffer.length := by
    rw [hrewind, windowEnd]
    simp only [hleft', Nat.zero_add]
  refine ⟨u.rewind, receive_cons hround [], awaiting_new ?_ hwindow hframe' hunread', hframe',
    hunread', ?_, ?_, ?_⟩
  · rw [hrewind]
    rfl
  · rw [hrewind]
    exact hlength'
  · rw [hrewind]
    exact hlength'
  · rw [hrewind]
    show t.events ++ [.onOpen] = _
    rw [hevents]
    rfl

/-- Behind a reply that is taken, the whole buffer is there for what comes next. -/
theorem client_delivered {reply bytes : List UInt8} {response : HandshakeSeverResponse}
    (hheader : 0 < handler.getHeaderSize) (htext : EndsWithFirstEmptyLine reply)
    (hreply : readServerResponse getBase64Hash reply key = .ok (response, true))
    (hfits : reply.length ≤ HBDataSocket.BUFFER_SIZE MaxMessageSize) (hpos : 1 ≤ bytes.length)
    (hasked : bytes.length ≤ HBDataSocket.BUFFER_SIZE MaxMessageSize) :
    ((HBSocketClient.new memory MaxMessageSize).startHandshake handshakeInfo key).Delivered
      (HBSocketClient.readMessages getBase64Hash key handler) [reply, bytes] := by
  obtain ⟨t, hfirst, -, -, -, -, hrecv, -⟩ :=
    receive_accepted handshakeInfo memory hheader htext hfits hreply
  obtain ⟨i, hi, -⟩ := htext
  refine ⟨by omega, hfits.trans_eq (length_uninitialized memory _).symm, fun s hround =>
    ⟨hpos, ?_, fun _ _ => trivial⟩⟩
  rw [receive_cons hround] at hfirst
  obtain rfl := Option.some.inj hfirst
  exact hasked.trans_eq hrecv.symm

/-- Behind a reply that is taken, bytes whose run of the decoder ends where it began. -/
theorem client_converses {reply : List UInt8} {response : HandshakeSeverResponse}
    {chunks : List (List UInt8)} {events : List FrameEvent}
    (hheader : 0 < handler.getHeaderSize) (htext : EndsWithFirstEmptyLine reply)
    (hreply : readServerResponse getBase64Hash reply key = .ok (response, true))
    (hframed : connectedAs response.getUpgrade = .connectedAsWebSocket)
    (hsize : MaxMessageSize ≤ HBDataSocket.BUFFER_SIZE MaxMessageSize / 4)
    (hdelivered : ((HBSocketClient.new memory MaxMessageSize).startHandshake handshakeInfo
      key).Delivered (HBSocketClient.readMessages getBase64Hash key handler) ([reply] ++ chunks))
    (hfeeds : Feeds Frame.decoder (.new MaxMessageSize) chunks.flatten events
      (.new MaxMessageSize) []) :
    Converses (HBSocketClient.readMessages getBase64Hash key handler)
      ((HBSocketClient.new memory MaxMessageSize).startHandshake handshakeInfo key)
      ([reply] ++ chunks) .connectedAsWebSocket (createHandShakeRequest handshakeInfo key) events := by
  have hbuffer : RECV_BUFFER_SIZE ≤ HBDataSocket.BUFFER_SIZE MaxMessageSize := Nat.le_max_right _ _
  have hrecv : RECV_BUFFER_SIZE = 6000 := rfl
  have hfits : reply.length ≤ HBDataSocket.BUFFER_SIZE MaxMessageSize :=
    hdelivered.2.1.trans_eq (length_uninitialized memory _)
  obtain ⟨t, hfirst, ht, hframe, hunread, hlength, -, hevents⟩ :=
    receive_accepted handshakeInfo memory hheader htext hfits hreply
  rw [hframed] at ht
  obtain ⟨s, hrun, hs, hunread', hcalls, hstop⟩ := receive_feeds
    (fun u hu => readMessagesWith_reads hu) ht (by omega) (hdelivered.later hfirst)
    (by rw [hframe, hunread, List.nil_append]; exact hfeeds)
  refine ⟨s, ?_, hs.socketStatus, hunread', ?_, fun hmem => (hstop hmem).resolve_left ?_⟩
  · rw [receive_append, hfirst]
    exact hrun
  · rw [hcalls, calls, hevents]
    rfl
  · simp [hevents]

end Client

/-! ### Both ends -/

section BothEnds

variable {getBase64Hash : List UInt8 → List UInt8} {handshakeInfo : InitialRequestInfo}
variable {key : List UInt8} {handler : DataHandler} {memory : Nat → UInt8}
variable {serverMax clientMax : Nat} {pieces toServer toClient : List (List UInt8)}
variable {fromClient fromServer : List Outgoing}

def exampleKey : List UInt8 := ascii "dGhlIHNhbXBsZQ=="

end BothEnds

end Socket

end LuPlatform
