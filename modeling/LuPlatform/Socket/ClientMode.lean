import LuPlatform.Socket.HandshakeRounds

/-! The mode a client enters. It goes by the reply alone: what `startHandshake` asked for is not kept,
and a reply that says "tcp" is accepted before anything else in it is looked at. -/

namespace LuPlatform.Socket

open Bytes Websocket Receiver

section Mode

variable (getBase64Hash : List UInt8 → List UInt8) (key : List UInt8)

/-- What a reply has to say for the client to enter a mode. -/
def Entered (reply : List UInt8) : SocketStatus → Prop
  | .connectedAsWebSocket => ∃ keyValue, readLines statusLine reply = some (.ok (some keyValue)) ∧
      keyValue.find (ascii "upgrade") = some (ascii "websocket") ∧
      keyValue.find (ascii "sec-websocket-accept") = some (getAcceptKey getBase64Hash key)
  | .connectedAsTCP => ∃ keyValue, readLines statusLine reply = some (.ok (some keyValue)) ∧
      keyValue.find (ascii "upgrade") = some (ascii "tcp")
  | _ => False

/-- After `arrived` the client still has all of it and has opened nothing, or it entered a mode for a
reply in front of it. -/
structure ModeOf (arrived : List UInt8) (s : HBSocketClient) : Prop where
  waits : s.own.socketStatus = .connecting →
    s.readOffset = 0 ∧ s.unread = arrived ∧ .onOpen ∉ s.events
  entered : s.own.socketStatus ≠ .connecting →
    ∃ reply, reply <+: arrived ∧ Entered getBase64Hash key reply s.own.socketStatus

end Mode

variable {getBase64Hash : List UInt8 → List UInt8} {key arrived : List UInt8} {s s' : HBSocketClient}

/-! ### The reply -/

theorem acceptResponse_upgrade {keyValue : KeyValue} {response : HandshakeSeverResponse}
    (h : acceptResponse getBase64Hash keyValue key = .ok (response, true)) :
    response.keyValue = keyValue ∧
      (keyValue.find (ascii "upgrade") = some (ascii "tcp") ∨
        keyValue.find (ascii "upgrade") = some (ascii "websocket") ∧
          keyValue.find (ascii "sec-websocket-accept") = some (getAcceptKey getBase64Hash key)) := by
  have haccept : ∀ protocols, acceptKey getBase64Hash ⟨protocols, keyValue⟩ key = .ok (response, true) →
      response.keyValue = keyValue ∧
        keyValue.find (ascii "sec-websocket-accept") = some (getAcceptKey getBase64Hash key) := by
    intro protocols h
    unfold acceptKey at h
    split at h
    · cases h
    · rename_i accept hfind
      simp only [Outcome.ok.injEq, Prod.mk.injEq, beq_iff_eq] at h
      obtain ⟨rfl, rfl⟩ := h
      exact ⟨rfl, hfind⟩
  unfold acceptResponse at h
  split at h
  · cases h
  · rename_i upgrade hupgrade
    split at h
    · rename_i htcp
      obtain rfl := (Prod.mk.inj (Outcome.ok.inj h)).1
      exact ⟨rfl, .inl (by rw [hupgrade, beq_iff_eq.mp htcp])⟩
    · split at h
      · cases h
      · rename_i hnot
        have hwebsocket : upgrade = ascii "websocket" := by simpa using hnot
        split at h
        · cases h
        · split at h
          · obtain ⟨hkeyValue, hkey⟩ := haccept _ h
            exact ⟨hkeyValue, .inr ⟨by rw [hupgrade, hwebsocket], hkey⟩⟩
          · obtain ⟨hkeyValue, hkey⟩ := haccept _ h
            exact ⟨hkeyValue, .inr ⟨by rw [hupgrade, hwebsocket], hkey⟩⟩
          · split at h
            · cases h
            · obtain ⟨hkeyValue, hkey⟩ := haccept _ h
              exact ⟨hkeyValue, .inr ⟨by rw [hupgrade, hwebsocket], hkey⟩⟩

/-- A reply that is accepted names the mode. -/
theorem entered_of_accepted {reply : List UInt8} {response : HandshakeSeverResponse}
    (h : readServerResponse getBase64Hash reply key = .ok (response, true)) :
    Entered getBase64Hash key reply (connectedAs response.getUpgrade) := by
  unfold readServerResponse at h
  split at h
  · rename_i keyValue hlines
    obtain ⟨hkeyValue, hupgrade⟩ := acceptResponse_upgrade h
    rw [HandshakeSeverResponse.getUpgrade, hkeyValue]
    obtain htcp | ⟨hwebsocket, haccept⟩ := hupgrade
    · rw [htcp]
      exact ⟨keyValue, hlines, htcp⟩
    · rw [hwebsocket]
      exact ⟨keyValue, hlines, hwebsocket, haccept⟩
  · cases h
  · cases h
  · cases h
  · cases h

/-! ### Rounds -/

/-- What follows the handshake does not change the mode. -/
theorem readUpgraded_status {handler : DataHandler} (h : readUpgraded handler s = some s') :
    s'.own.socketStatus = s.own.socketStatus := by
  unfold readUpgraded at h
  split at h
  · rw [(readMessages_consumes h).2]
  · exact processFrames_status h
  · obtain rfl := Option.some.inj h
    rfl

theorem ModeOf.processServerReply (h : ModeOf getBase64Hash key arrived s)
    (hconnecting : s.own.socketStatus = .connecting)
    (hreply : HBSocketClient.processServerReply getBase64Hash key s = some s') :
    ModeOf getBase64Hash key arrived s' ∧ (s'.own.socketStatus = .connecting →
      s'.buffer = s.buffer ∧ s'.numberOfBytesLeftToRead = s.numberOfBytesLeftToRead) := by
  obtain ⟨hoffset, hunread, hclosed⟩ := h.waits hconnecting
  have hwaits : ∀ offset, ModeOf getBase64Hash key arrived (s.withOffset offset) := fun offset =>
    ⟨fun _ => ⟨hoffset, hunread, hclosed⟩, fun hne => absurd hconnecting hne⟩
  have hstops : ∀ offset, ModeOf getBase64Hash key arrived ((s.withOffset offset).raise .stop) :=
    fun offset => ⟨fun _ => ⟨hoffset, hunread, by simp [raise, withOffset, hclosed]⟩,
      fun hne => absurd hconnecting hne⟩
  obtain ⟨found, offset, hscan⟩ := scanHeader_total s.headerView s.own.readWebsocketHeaderOffset
  simp only [HBSocketClient.processServerReply, processHeader, hscan] at hreply
  cases found with
  | false =>
    simp only at hreply
    split at hreply
    · obtain rfl := Option.some.inj hreply
      exact ⟨hstops offset, fun _ => ⟨rfl, rfl⟩⟩
    · obtain rfl := Option.some.inj hreply
      exact ⟨hwaits offset, fun _ => ⟨rfl, rfl⟩⟩
  | true =>
    have hle : offset ≤ s.numberOfBytesLeftToRead := by
      have hview := (scanHeader_bounds hscan).2 rfl
      rw [headerView, List.length_take] at hview
      omega
    have hheader : (s.withOffset offset).header = arrived.take offset := by
      rw [← hunread, unread, hoffset, List.drop_zero, List.take_take, Nat.min_eq_left hle]
      rfl
    simp only [HBSocketClient.finishReply, hheader] at hreply
    split at hreply
    · rename_i response accepted hresponse
      cases accepted with
      | false =>
        obtain rfl := Option.some.inj hreply
        exact ⟨hstops offset, fun _ => ⟨rfl, rfl⟩⟩
      | true =>
        obtain rfl := Option.some.inj hreply
        have hne := connectedAs_ne_connecting response.getUpgrade
        exact ⟨⟨fun heq => absurd heq hne,
          fun _ => ⟨arrived.take offset, List.take_prefix .., entered_of_accepted hresponse⟩⟩,
          fun heq => absurd heq hne⟩
    · cases hreply

theorem ModeOf.receiveRound {handler : DataHandler} {bytes : List UInt8}
    (h : ModeOf getBase64Hash key arrived s)
    (hround : Receiver.receiveRound (HBSocketClient.readMessages getBase64Hash key handler) s bytes =
      some s') :
    ModeOf getBase64Hash key (arrived ++ bytes) s' := by
  simp only [Receiver.receiveRound, Option.bind_eq_bind, Option.bind_eq_some_iff, Option.pure_def,
    Option.some.injEq] at hround
  obtain ⟨t, hfill, u, hread, rfl⟩ := hround
  have hunread := unread_fill hfill
  obtain ⟨hinside, ht⟩ := fill_eq_some hfill
  have hown : t.own = s.own := by rw [ht]
  have hevents : t.events = s.events := by rw [ht]
  have hoffset : t.readOffset = s.readOffset := by rw [ht]
  have hleft : t.numberOfBytesLeftToRead = s.numberOfBytesLeftToRead + bytes.length := by rw [ht]
  have hbuffer := length_buffer_fill hfill
  obtain ⟨hrewindOwn, hrewindEvents⟩ := rewind_own u
  have hfilled : ModeOf getBase64Hash key (arrived ++ bytes) t := by
    refine ⟨fun hconnecting => ?_, fun hne => ?_⟩
    · rw [hown] at hconnecting
      obtain ⟨hfront, hwaiting, hclosed⟩ := h.waits hconnecting
      exact ⟨hoffset.trans hfront, by rw [hunread, hwaiting], by rwa [hevents]⟩
    · rw [hown] at hne ⊢
      obtain ⟨reply, hreply, hentered⟩ := h.entered hne
      exact ⟨reply, hreply.trans (List.prefix_append _ _), hentered⟩
  -- past the handshake only the frames and messages are read
  have hdone : ∀ {v : HBSocketClient}, ModeOf getBase64Hash key (arrived ++ bytes) v →
      v.own.socketStatus ≠ .connecting → readUpgraded handler v = some u →
      ModeOf getBase64Hash key (arrived ++ bytes) u.rewind := by
    intro v hv hne hupgraded
    have hstatus := readUpgraded_status hupgraded
    refine ⟨fun hconnecting => absurd ?_ hne, fun _ => ?_⟩
    · rw [← hstatus, ← hrewindOwn]
      exact hconnecting
    · rw [hrewindOwn, hstatus]
      exact hv.entered hne
  unfold HBSocketClient.readMessages readMessagesWith at hread
  split at hread
  · rename_i hconnecting
    split at hread
    · cases hread
    · rename_i v hreply
      obtain ⟨hv, hsame⟩ := hfilled.processServerReply hconnecting hreply
      split at hread
      · rename_i hwaiting
        obtain rfl := Option.some.inj hread
        obtain ⟨hfront, hwhole, hclosed⟩ := hv.waits hwaiting
        obtain ⟨hsameBuffer, hsameLeft⟩ := hsame hwaiting
        have hinside' : v.readOffset + v.numberOfBytesLeftToRead ≤ v.buffer.length := by
          obtain ⟨hfront', _⟩ := hfilled.waits hconnecting
          rw [hsameBuffer, hsameLeft, hbuffer]
          omega
        refine ⟨fun _ => ?_, fun hne => absurd (hrewindOwn ▸ hwaiting) hne⟩
        rw [hrewindEvents]
        by_cases hfull : v.receiveBufferShiftSize < v.numberOfBytesLeftToRead
        · rw [rewind_overfull hfull]
          exact ⟨hfront, hwhole, hclosed⟩
        · obtain ⟨_, hzero, _, _, hrewindUnread, _⟩ := rewind_front hinside' (by omega)
          exact ⟨hzero, hrewindUnread.trans hwhole, hclosed⟩
      · rename_i hne
        exact hdone hv hne hread
  · rename_i hne
    exact hdone hfilled hne hread

theorem ModeOf.receive {handler : DataHandler} {chunks : List (List UInt8)}
    (h : ModeOf getBase64Hash key arrived s)
    (hreceive : Receiver.receive (HBSocketClient.readMessages getBase64Hash key handler) s chunks =
      some s') :
    ModeOf getBase64Hash key (arrived ++ chunks.flatten) s' := by
  induction chunks generalizing s arrived with
  | nil =>
    obtain rfl := Option.some.inj hreceive
    simpa using h
  | cons bytes chunks ih =>
    simp only [Receiver.receive, List.foldlM_cons, Option.bind_eq_bind, Option.bind_eq_some_iff]
      at hreceive
    obtain ⟨t, hround, hrest⟩ := hreceive
    rw [List.flatten_cons, ← List.append_assoc]
    exact ih (h.receiveRound hround) hrest

theorem modeOf_startHandshake (memory : Nat → UInt8) (MaxMessageSize : Nat)
    (initialRequestInfo : InitialRequestInfo) :
    ModeOf getBase64Hash key []
      ((HBSocketClient.new memory MaxMessageSize).startHandshake initialRequestInfo key) := by
  refine ⟨fun _ => ⟨rfl, List.take_zero, ?_⟩, fun hne => absurd rfl hne⟩
  simp [HBSocketClient.startHandshake, HBSocketClient.new, Receiver.new, raise]

/-- Whatever the server sends and however it is cut, the client calls `onOpen` only with a mode that a
reply in front of what arrived names, as a WebSocket only with the accept key of the key it sent. What
it asked for has no part in it. -/
theorem client_enters_mode (memory : Nat → UInt8) (MaxMessageSize : Nat)
    (initialRequestInfo : InitialRequestInfo) {handler : DataHandler} {calls : List (List (List UInt8))}
    (h : ((HBSocketClient.new memory MaxMessageSize).startHandshake initialRequestInfo key).receiveCalls
      (HBSocketClient.readMessages getBase64Hash key handler) calls = some s) :
    (s.own.socketStatus ≠ .connecting →
        ∃ reply, reply <+: calls.flatten.flatten ∧ Entered getBase64Hash key reply s.own.socketStatus) ∧
      (.onOpen ∈ s.events → s.own.socketStatus ≠ .connecting) := by
  rw [receiveCalls_flatten] at h
  have hmode := (modeOf_startHandshake memory MaxMessageSize initialRequestInfo).receive h
  rw [List.nil_append] at hmode
  exact ⟨hmode.entered, fun hopen hconnecting => (hmode.waits hconnecting).2.2 hopen⟩

/-! ### A reply that comes at once -/

theorem receive_reply {MaxMessageSize : Nat} (initialRequestInfo : InitialRequestInfo)
    {handler : DataHandler} {reply : List UInt8} {response : HandshakeSeverResponse}
    (hheader : 0 < handler.getHeaderSize)
    (htext : EndsWithFirstEmptyLine reply)
    (hfits : reply.length ≤ HBDataSocket.BUFFER_SIZE MaxMessageSize)
    (hresponse : readServerResponse getBase64Hash reply key = .ok (response, true)) :
    ∃ t, ((HBSocketClient.new (fun _ => 0) MaxMessageSize).startHandshake initialRequestInfo
        key).receiveCalls (HBSocketClient.readMessages getBase64Hash key handler) [[reply]] = some t ∧
      t.own = { socketStatus := connectedAs response.getUpgrade, frame := .new MaxMessageSize } ∧
      t.readOffset = 0 ∧ t.numberOfBytesLeftToRead = 0 ∧
      t.buffer.length = HBDataSocket.BUFFER_SIZE MaxMessageSize ∧ .onOpen ∈ t.events := by
  have hstart : (HBSocketClient.new (fun _ => 0) MaxMessageSize).startHandshake initialRequestInfo key =
      waiting .connecting MaxMessageSize (HBDataSocket.BUFFER_SIZE MaxMessageSize) [] 0
        [.send (createHandShakeRequest initialRequestInfo key)] := by
    simp [HBSocketClient.startHandshake, HBSocketClient.new, Receiver.new, uninitialized, raise, waiting,
      List.map_const']
  have hfill := @fill_waiting _ SocketStatus.connecting MaxMessageSize
    (HBDataSocket.BUFFER_SIZE MaxMessageSize) [] reply 0
    [.send (createHandShakeRequest initialRequestInfo key)]
    (show ([] : List UInt8).length + reply.length ≤ HBDataSocket.BUFFER_SIZE MaxMessageSize by
      rwa [List.length_nil, Nat.zero_add])
  rw [List.nil_append] at hfill
  set window := HBDataSocket.BUFFER_SIZE MaxMessageSize - ([] : List UInt8).length
  set events : List (SocketEvent FrameEvent) := [.send (createHandShakeRequest initialRequestInfo key)]
  let t (offset : Nat) : HBSocketClient := filled .connecting MaxMessageSize
    (HBDataSocket.BUFFER_SIZE MaxMessageSize) window reply offset events
  have hwhole : (t reply.length).header = reply := by
    rw [header_filled le_rfl, List.take_length]
  let u := ((t reply.length).updateForHeader.withStatus (connectedAs response.getUpgrade)).raise .onOpen
  have hreply : HBSocketClient.processServerReply getBase64Hash key (t 0) = some u := by
    have hfinish : HBSocketClient.processServerReply getBase64Hash key (t 0) =
        HBSocketClient.finishReply getBase64Hash key (t reply.length) :=
      processHeader_found (by rw [List.drop_zero]; exact endsWithFirstEmptyLine_iff.mp htext)
    rw [hfinish, HBSocketClient.finishReply, hwhole, hresponse]
    rfl
  have hread : HBSocketClient.readMessages getBase64Hash key handler (t 0) = some u := by
    have hne : u.own.socketStatus ≠ .connecting := connectedAs_ne_connecting response.getUpgrade
    rw [HBSocketClient.readMessages, readMessagesWith,
      if_pos (show (t 0).own.socketStatus = .connecting from rfl), hreply]
    simp only [if_neg hne]
    exact readUpgraded_drained hheader rfl (Nat.sub_self _)
      (show (Frame.new MaxMessageSize).opCode ≠ .close by simp [Frame.new])
  have hround : Receiver.receiveRound (HBSocketClient.readMessages getBase64Hash key handler)
      (waiting .connecting MaxMessageSize (HBDataSocket.BUFFER_SIZE MaxMessageSize) [] 0 events) reply =
        some u.rewind := by
    simp only [Receiver.receiveRound, hfill, Option.bind_eq_bind, Option.bind_some]
    rw [show filled .connecting MaxMessageSize (HBDataSocket.BUFFER_SIZE MaxMessageSize) window reply 0
      events = t 0 from rfl, hread]
    rfl
  obtain ⟨hown, hevents⟩ := rewind_own u
  have hrewind : u.rewind = { u with
      readOffset := 0
      numberOfBytesLeftToRecv := u.buffer.length } := if_pos (Nat.sub_self _)
  refine ⟨u.rewind, ?_, ?_, ?_, ?_, ?_, ?_⟩
  · rw [hstart, receiveCalls_flatten, List.flatten_singleton, receive_cons hround, receive_nil]
  · rw [hown]
    rfl
  · rw [hrewind]
  · rw [hrewind]
    exact Nat.sub_self _
  · rw [hrewind]
    show (reply ++ List.replicate (HBDataSocket.BUFFER_SIZE MaxMessageSize - reply.length) 0).length = _
    rw [List.length_append, List.length_replicate]
    omega
  · rw [hevents]
    exact List.mem_append_right _ (List.mem_singleton_self _)

/-- A request with nothing but the upgrade in it. -/
def upgradeInfo (upgrade : List UInt8) : InitialRequestInfo where
  resourceName := RESOURCE
  host := []
  upgrade
  origin := []
  wsVersion := ascii "13"
  extensions := []
  protocols := []
  headers := []

def tcpReply : List UInt8 := ascii "HTTP/1.1 101 x\r\nUpgrade: tcp\r\n\r\n"

def sampleKey : List UInt8 := ascii "dGhlIHNhbXBsZSBub25jZQ=="

def sampleAccept : List UInt8 := ascii "s3pPLMBiTxaQ9kYGzzhZRbK+xOo="

def webSocketReply : List UInt8 :=
  ascii "HTTP/1.1 101 x\r\nUpgrade: websocket\r\nConnection: Upgrade\r\nSec-WebSocket-Accept: " ++
    sampleAccept ++ ascii "\r\n\r\n"

variable (getBase64Hash key) in
theorem exists_accepted (reply upgrade : List UInt8)
    (h : (readServerResponse getBase64Hash reply key).result?.map
      (fun answer => (answer.1.getUpgrade, answer.2)) = some (upgrade, true)) :
    ∃ response, readServerResponse getBase64Hash reply key = .ok (response, true) ∧
      response.getUpgrade = upgrade := by
  obtain ⟨⟨response, accepted⟩, hresponse, hanswer⟩ := Option.map_eq_some_iff.mp h
  obtain ⟨hupgrade, rfl⟩ := Prod.mk.inj hanswer
  exact ⟨response, Outcome.result?_eq_some.mp hresponse, hupgrade⟩

/-- Whatever the client asks for, either reply is taken. -/
theorem receive_sample (upgrade : List UInt8) :
    (∃ s, ((HBSocketClient.new (fun _ => 0) 4096).startHandshake (upgradeInfo upgrade)
        sampleKey).receiveCalls (HBSocketClient.readMessages (fun _ => sampleAccept) sampleKey
          String.handler) [[tcpReply]] = some s ∧
        s.own.socketStatus = .connectedAsTCP ∧ .onOpen ∈ s.events) ∧
      ∃ s, ((HBSocketClient.new (fun _ => 0) 4096).startHandshake (upgradeInfo upgrade)
        sampleKey).receiveCalls (HBSocketClient.readMessages (fun _ => sampleAccept) sampleKey
          String.handler) [[webSocketReply]] = some s ∧
        s.own.socketStatus = .connectedAsWebSocket ∧ .onOpen ∈ s.events := by
  obtain ⟨tcp, htcp, hupgrade⟩ :=
    exists_accepted (fun _ => sampleAccept) sampleKey tcpReply (ascii "tcp") (by decide +kernel)
  obtain ⟨webSocket, hwebSocket, hupgrade'⟩ :=
    exists_accepted (fun _ => sampleAccept) sampleKey webSocketReply (ascii "websocket")
      (by decide +kernel)
  have hheader : 0 < String.handler.getHeaderSize := by decide
  have hsize : 200 ≤ HBDataSocket.BUFFER_SIZE 4096 := (by decide : 200 ≤ RECV_BUFFER_SIZE).trans
    (Nat.le_max_right _ _)
  constructor
  · obtain ⟨s, hs, hown, _, _, _, hopen⟩ := receive_reply (upgradeInfo upgrade) hheader
      (endsWithFirstEmptyLine_iff.mpr (by decide +kernel))
      ((by decide : tcpReply.length ≤ 200).trans hsize) htcp
    rw [hupgrade] at hown
    exact ⟨s, hs, congrArg Session.socketStatus hown, hopen⟩
  · obtain ⟨s, hs, hown, _, _, _, hopen⟩ := receive_reply (upgradeInfo upgrade) hheader
      (endsWithFirstEmptyLine_iff.mpr (by decide +kernel))
      ((by decide +kernel : webSocketReply.length ≤ 200).trans hsize) hwebSocket
    rw [hupgrade'] at hown
    exact ⟨s, hs, congrArg Session.socketStatus hown, hopen⟩

/-- A client that asked for a WebSocket and is answered with "tcp". -/
theorem client_enters_mode_tcp : ∃ s : HBSocketClient, s.own.socketStatus = .connectedAsTCP ∧
    ∃ reply, reply <+: [[tcpReply]].flatten.flatten ∧
      Entered (fun _ => sampleAccept) sampleKey reply s.own.socketStatus := by
  obtain ⟨s, hs, hstatus, hopen⟩ := (receive_sample []).1
  have hmode := client_enters_mode (fun _ => 0) 4096 (upgradeInfo []) hs
  exact ⟨s, hstatus, hmode.1 (hmode.2 hopen)⟩

/-- The mode is not the one that was asked for, in either direction. -/
theorem client_enters_other_mode :
    (¬ ∀ upgrade s, ((HBSocketClient.new (fun _ => 0) 4096).startHandshake (upgradeInfo upgrade)
        sampleKey).receiveCalls (HBSocketClient.readMessages (fun _ => sampleAccept) sampleKey
          String.handler) [[tcpReply]] = some s →
        s.own.socketStatus = .connectedAsTCP → upgrade = ascii "tcp") ∧
      ¬ ∀ upgrade s, ((HBSocketClient.new (fun _ => 0) 4096).startHandshake (upgradeInfo upgrade)
        sampleKey).receiveCalls (HBSocketClient.readMessages (fun _ => sampleAccept) sampleKey
          String.handler) [[webSocketReply]] = some s →
        s.own.socketStatus = .connectedAsWebSocket → upgrade = [] ∨ upgrade = ascii "websocket" := by
  constructor
  · intro hall
    obtain ⟨s, hs, hstatus, _⟩ := (receive_sample []).1
    exact absurd (hall [] s hs hstatus) (by decide)
  · intro hall
    obtain ⟨s, hs, hstatus, _⟩ := (receive_sample (ascii "tcp")).2
    exact absurd (hall (ascii "tcp") s hs hstatus) (by decide)

end LuPlatform.Socket
