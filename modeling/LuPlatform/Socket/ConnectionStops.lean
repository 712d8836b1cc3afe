import LuPlatform.Socket.ClientMode
import LuPlatform.Socket.RequestAnswers
import LuPlatform.Socket.ReceiveWindow
import LuPlatform.Websocket.FrameClosing

/-! When a connected socket is stopped. `readMessages` looks at the opcode that the frame is left with.
A close frame that was handled has been reset by then, and the socket goes on; a fragment of a message,
which breaks no rule, stops it. -/

namespace LuPlatform.Socket

open Bytes Websocket Receiver

section Arrival

variable {status : Type}

/-- The socket in `framed` when a chunk has just arrived, after any run of the receive loop. -/
def Arrives (readMessages : SessionSocket status → Option (SessionSocket status))
    (start : SessionSocket status) (framed : status) (t : SessionSocket status) : Prop :=
  ∃ s chunks chunk, start.receive readMessages chunks = some s ∧ s.own.socketStatus = framed ∧
    chunk ≠ [] ∧ s.fill chunk = some t

/-- The call stops the socket if it handles a close frame or hits a violation, and not if there are
only messages. -/
def StopsRightly (readMessages : SessionSocket status → Option (SessionSocket status))
    (t : SessionSocket status) : Prop :=
  ∃ u events, readMessages t = some u ∧ u.events = t.events ++ events ∧
    (t.own.frame.HandlesClose (.new t.unread) ∨ t.own.frame.HitsViolation (.new t.unread) →
      .stop ∈ events) ∧
    (t.own.frame.OnlyMessages (.new t.unread) → .stop ∉ events)

end Arrival

section Frames

variable {status : Type} {connecting framed : status} {s t : SessionSocket status}

/-- A call that handles a close frame is ended by something else, and one that collects a fragment has
handled a close frame before. -/
def ClosesOtherwise (t : SessionSocket status) : Prop :=
  (t.own.frame.HandlesClose (.new t.unread) →
    t.own.frame.HitsViolation (.new t.unread) ∨ t.own.frame.CollectsFragment (.new t.unread) ∨
      t.own.frame.LeavesClose (.new t.unread)) ∧
    (t.own.frame.CollectsFragment (.new t.unread) → t.own.frame.HandlesClose (.new t.unread))

theorem processFrames_events {p : Processing} {exit : Exit}
    (hcall : t.own.frame.processMessage (.new t.unread) = some (p, exit)) :
    ∃ u, t.processFrames = some u ∧ u.events = t.events ++ (p.events.map .onFrame ++
      if p.frame.opCode == .close then [.stop] else []) := by
  simp only [processFrames, hcall]
  split <;> exact ⟨_, rfl, by simp [raise, updateForDataRead]⟩

/-- Once the handshake is over a call is about frames only. -/
theorem stopsRightly_iff_of_ready {connecting : status} {framed : status → Prop}
    {readMessages : SessionSocket status → Option (SessionSocket status)}
    (ht : t.Ready connecting framed) (hleft : t.numberOfBytesLeftToRead ≠ 0)
    (hread : readMessages t = t.processFrames) :
    StopsRightly readMessages t ↔ ClosesOtherwise t := by
  have hlength := length_unread ht.inside
  have hdata : (SocketData.new t.unread).getDataLeftToRead = t.numberOfBytesLeftToRead := by
    rw [SocketData.getDataLeftToRead_new, hlength]
  have hframe : t.own.frame.Safe (SocketData.new t.unread).getDataLeftToRead := by
    rw [hdata]
    exact ht.frame
  obtain ⟨p, exit, hcall, _⟩ := Frame.processMessage_safe hframe (Nat.zero_le _)
  obtain ⟨u, hframes, hevents⟩ := processFrames_events hcall
  have hclose := Frame.processMessage_close_iff hframe (by rw [hdata]; exact hleft) hcall
  have hstop : .stop ∈ p.events.map SocketEvent.onFrame ++
      (if p.frame.opCode == .close then [.stop] else []) ↔ p.frame.opCode = .close := by
    by_cases hopCode : p.frame.opCode = .close <;> simp [hopCode]
  have hstops : StopsRightly readMessages t ↔
      (t.own.frame.HandlesClose (.new t.unread) ∨ t.own.frame.HitsViolation (.new t.unread) →
        p.frame.opCode = .close) ∧
      (t.own.frame.OnlyMessages (.new t.unread) → ¬ p.frame.opCode = .close) := by
    constructor
    · rintro ⟨u', events, hread', hevents', hright⟩
      obtain rfl := Option.some.inj ((hread.trans hframes).symm.trans hread')
      obtain rfl := List.append_cancel_left (hevents.symm.trans hevents')
      rwa [hstop] at hright
    · intro hright
      refine ⟨u, _, hread.trans hframes, hevents, fun hends => hstop.mpr (hright.1 hends),
        fun honly hmem => hright.2 honly (hstop.mp hmem)⟩
  rw [hstops, hclose, Frame.onlyMessages_iff]
  constructor
  · rintro ⟨hends, hspared⟩
    refine ⟨fun h => hends (.inl h), fun hfragment => ?_⟩
    by_contra hopen
    exact hspared ⟨hopen, hfragment.only⟩ (.inr (.inl hfragment))
  · rintro ⟨hended, hfragments⟩
    refine ⟨fun h => h.elim hended .inl, ?_⟩
    rintro ⟨hopen, hviolation, hleaves⟩ (h | h | h)
    · exact hviolation h
    · exact hopen (hfragments h)
    · exact hleaves h

/-- Where a chunk arrives there is something to read. -/
theorem Arrives.ready {connecting framed : status} {frames : status → Prop}
    {readMessages : SessionSocket status → Option (SessionSocket status)}
    {start t : SessionSocket status} (hI : Preserves readMessages (Ready connecting frames))
    (hstart : start.Ready connecting frames) (h : Arrives readMessages start framed t) :
    t.Ready connecting frames ∧ t.own.socketStatus = framed ∧ t.numberOfBytesLeftToRead ≠ 0 := by
  obtain ⟨s, chunks, chunk, hrun, hstatus, hchunk, hfill⟩ := h
  have hready := (hI.receive hstart hrun).fill hfill
  obtain ⟨_, rfl⟩ := fill_eq_some hfill
  have hpos := List.length_pos_iff.mpr hchunk
  refine ⟨hready, hstatus, ?_⟩
  simp only
  omega

end Frames

theorem webSocket_reads {getBase64Hash : List UInt8 → List UInt8} {t : WebSocket}
    (h : t.own.socketStatus = .connected) : WebSocket.readMessages getBase64Hash t = t.processFrames := by
  rw [WebSocket.readMessages, if_neg (by rw [h]; decide)]

theorem readMessagesWith_reads
    {processHandshake : SessionSocket SocketStatus → Option (SessionSocket SocketStatus)}
    {handler : DataHandler} {t : SessionSocket SocketStatus}
    (h : t.own.socketStatus = .connectedAsWebSocket) :
    readMessagesWith processHandshake handler t = t.processFrames := by
  rw [readMessagesWith, if_neg (by rw [h]; decide), readUpgraded, h]

section Sockets

variable (getBase64Hash : List UInt8 → List UInt8) (handler : DataHandler) (key : List UInt8)
variable (memory : Nat → UInt8) (MaxMessageSize : Nat) (initialRequestInfo : InitialRequestInfo)

end Sockets

/-! ### Connected sockets -/

/-- A chunk that arrives at a socket which has consumed what came before. -/
theorem arrives_of_drained {status : Type} {framed : status} {start s : SessionSocket status}
    {readMessages : SessionSocket status → Option (SessionSocket status)} {chunks : List (List UInt8)}
    {chunk : List UInt8} (hrun : start.receive readMessages chunks = some s)
    (hstatus : s.own.socketStatus = framed) (hoffset : s.readOffset = 0)
    (hleft : s.numberOfBytesLeftToRead = 0) (hroom : chunk.length ≤ s.buffer.length)
    (hchunk : chunk ≠ []) :
    ∃ t, Arrives readMessages start framed t ∧ t.own = s.own ∧ t.unread = chunk := by
  obtain ⟨t, ht⟩ : ∃ t, s.fill chunk = some t := fill_isSome (by omega)
  have hunread := unread_fill ht
  have hempty : s.unread = [] := by rw [unread, hleft, List.take_zero]
  rw [hempty, List.nil_append] at hunread
  refine ⟨t, ⟨s, chunks, chunk, hrun, hstatus, hchunk, ht⟩, ?_, hunread⟩
  obtain ⟨_, rfl⟩ := fill_eq_some ht
  rfl

theorem server_arrives {status : Type} {getBase64Hash : List UInt8 → List UInt8} {connecting : status}
    {connectedAs : HandshakeRequest → status}
    {readMessages : SessionSocket status → Option (SessionSocket status)}
    (hserves : ServesHandshake getBase64Hash connecting connectedAs readMessages)
    {MaxMessageSize bufferSize : Nat} {text response chunk : List UInt8} {request : HandshakeRequest}
    (htext : EndsWithFirstEmptyLine text) (hfits : text.length ≤ bufferSize / 4)
    (hanswer : answerRequest getBase64Hash text = .ok (request, response)) (hmet : response ≠ [])
    (hroom : chunk.length ≤ bufferSize) (hchunk : chunk ≠ []) :
    ∃ t, Arrives readMessages (waiting connecting MaxMessageSize bufferSize [] 0 [])
      (connectedAs request) t ∧ t.own.frame = .new MaxMessageSize ∧ t.unread = chunk := by
  rw [← List.nil_append text] at htext hfits hanswer
  have hround : receiveRound readMessages (waiting connecting MaxMessageSize bufferSize [] 0 []) text =
      some (answered connecting connectedAs MaxMessageSize bufferSize request response text []) :=
    receiveRound_whole hserves htext hfits hanswer
  have hne : ¬ response.isEmpty = true := by simpa using hmet
  rw [answered, if_neg hne] at hround
  obtain ⟨t, ht, hown, hunread⟩ := arrives_of_drained (receive_cons hround []) rfl rfl rfl
    (by simp only [opened, List.length_append, List.length_replicate, List.nil_append]; omega) hchunk
  exact ⟨t, ht, congrArg Session.frame hown, hunread⟩

/-- A request that both server sockets take for a WebSocket's. -/
def plainRequest : List UInt8 := requestWith (ascii "LuBinary") (ascii "13")

theorem plainRequest_answer : ∃ request response,
    answerRequest (fun _ => []) plainRequest = .ok (request, response) ∧ response ≠ [] ∧
      connectedAs request.upgrade = .connectedAsWebSocket := by
  have hmet : (answerRequest (fun _ => []) plainRequest).result?.any (fun answer =>
      !answer.2.isEmpty && connectedAs answer.1.upgrade == .connectedAsWebSocket) = true := by
    decide +kernel
  obtain ⟨⟨request, response⟩, hresult, hboth⟩ := (Option.any_eq_true _ _).mp hmet
  simp only [Bool.and_eq_true, Bool.not_eq_true', beq_iff_eq] at hboth
  exact ⟨request, response, Outcome.result?_eq_some.mp hresult, by simpa using hboth.1, hboth.2⟩

/-- Any of the three sockets, connected and new, where a short chunk arrives. -/
theorem exists_arrived {chunk : List UInt8} (hlength : chunk.length ≤ 100) (hchunk : chunk ≠ []) :
    (∃ t, Arrives (WebSocket.readMessages fun _ => []) (WebSocket.new 4096) .connected t ∧
      t.own.frame = .new 4096 ∧ t.unread = chunk) ∧
    (∃ t, Arrives (HBDataSocket.readMessages (fun _ => []) String.handler) (HBDataSocket.new 4096)
        .connectedAsWebSocket t ∧ t.own.frame = .new 4096 ∧ t.unread = chunk) ∧
    (∃ t, Arrives (HBSocketClient.readMessages (fun _ => sampleAccept) sampleKey String.handler)
        ((HBSocketClient.new (fun _ => 0) 4096).startHandshake (upgradeInfo []) sampleKey)
        .connectedAsWebSocket t ∧ t.own.frame = .new 4096 ∧ t.unread = chunk) := by
  obtain ⟨request, response, hanswer, hmet, hupgrade⟩ := plainRequest_answer
  have htext : EndsWithFirstEmptyLine plainRequest :=
    endsWithFirstEmptyLine_iff.mpr (by decide +kernel)
  have hsize : RECV_BUFFER_SIZE ≤ HBDataSocket.BUFFER_SIZE 4096 := Nat.le_max_right _ _
  have hrecv : RECV_BUFFER_SIZE = 6000 := rfl
  have htextLength : plainRequest.length ≤ 1000 := by decide +kernel
  have hheader : 0 < String.handler.getHeaderSize := by decide
  refine ⟨?_, ?_, ?_⟩
  · have hbuffer : WebSocket.BUFFER_SIZE = 819204 := rfl
    rw [WebSocket.new, new_waiting]
    exact server_arrives (webSocket_serves _) htext (by omega) hanswer hmet (by omega) hchunk
  · rw [HBDataSocket.new, new_waiting, ← hupgrade]
    exact server_arrives (hbDataSocket_serves _ hheader) htext (by omega) hanswer hmet (by omega) hchunk
  · obtain ⟨reply, hreply, hupgrade'⟩ := exists_accepted (fun _ => sampleAccept) sampleKey webSocketReply
      (ascii "websocket") (by decide +kernel)
    have hreplyLength : webSocketReply.length ≤ 200 := by decide +kernel
    obtain ⟨s, hs, hown, hoffset, hleft, hbuffer, _⟩ := receive_reply (upgradeInfo []) hheader
      (endsWithFirstEmptyLine_iff.mpr (by decide +kernel))
      (show webSocketReply.length ≤ HBDataSocket.BUFFER_SIZE 4096 by omega) hreply
    rw [receiveCalls_flatten] at hs
    rw [hupgrade'] at hown
    obtain ⟨t, ht, hown', hunread⟩ :=
      arrives_of_drained hs (congrArg Session.socketStatus hown) hoffset hleft (by omega) hchunk
    exact ⟨t, ht, congrArg Session.frame (hown'.trans hown), hunread⟩

section Sent

variable {status : Type} {readMessages : SessionSocket status → Option (SessionSocket status)}
variable {t : SessionSocket status}

theorem not_stopsRightly_close (hread : readMessages t = t.processFrames)
    (hframe : t.own.frame = .new 4096) (hunread : t.unread = [0x88, 0x00]) :
    ¬ StopsRightly readMessages t := by
  obtain ⟨p, hcall, hopCode⟩ : ∃ p, t.own.frame.processMessage (.new t.unread) = some (p, .needData) ∧
      p.frame.opCode = .reservedC := by
    rw [hframe, hunread]
    exact ⟨_, rfl, rfl⟩
  obtain ⟨u, hframes, hevents⟩ := processFrames_events hcall
  rintro ⟨u', events, hread', hevents', hends, _⟩
  obtain rfl := Option.some.inj ((hread.trans hframes).symm.trans hread')
  obtain rfl := List.append_cancel_left (hevents.symm.trans hevents')
  have hcloses : t.own.frame.HandlesClose (.new t.unread) := by
    rw [hframe, hunread]
    exact ⟨_, ⟨rfl, _, _, .start, by decide, by decide, rfl⟩, rfl, rfl⟩
  have hstop := hends (.inl hcloses)
  simp [hopCode] at hstop

theorem not_stopsRightly_fragment (hread : readMessages t = t.processFrames)
    (hframe : t.own.frame = .new 4096) (hunread : t.unread = [0x01, 0x00]) :
    ¬ StopsRightly readMessages t := by
  obtain ⟨p, hcall, hopCode⟩ : ∃ p, t.own.frame.processMessage (.new t.unread) = some (p, .tooBig) ∧
      p.frame.opCode = .close := by
    rw [hframe, hunread]
    exact ⟨_, rfl, rfl⟩
  obtain ⟨u, hframes, hevents⟩ := processFrames_events hcall
  rintro ⟨u', events, hread', hevents', _, hspared⟩
  obtain rfl := Option.some.inj ((hread.trans hframes).symm.trans hread')
  obtain rfl := List.append_cancel_left (hevents.symm.trans hevents')
  have honly : t.own.frame.OnlyMessages (.new t.unread) := by
    rw [hframe, hunread]
    have hreads : ∀ p g e, (Frame.new 4096).Reads (.new [0x01, 0x00]) p g e →
        g.processingState = .done ∧ g.isValid = true ∧ g.isOutOfPlace = false ∧ g.opCode ≠ .close := by
      rintro p g e ⟨hreached, _, _, hfound⟩
      obtain rfl | ⟨q, hagain, _⟩ := hreached.cases_again
      · obtain ⟨rfl, rfl⟩ := Prod.mk.inj (Option.some.inj hfound)
        exact ⟨rfl, rfl, rfl, by decide⟩
      · cases hagain
    refine ⟨by decide, ?_, ?_⟩
    · rintro g ⟨_, p, e, h⟩
      exact (hreads p g e h).2
    · rintro g ⟨_, p, e, h⟩
      exact (hreads p g e h).2.2.2
  exact hspared honly (by simp [hopCode])

end Sent

/-- Each of the three sockets, connected and new, gets `chunk` and is not stopped rightly. -/
def NoneStopsRightly (chunk : List UInt8) : Prop :=
  (∃ t, Arrives (WebSocket.readMessages fun _ => []) (WebSocket.new 4096) .connected t ∧
    t.unread = chunk ∧ ¬ StopsRightly (WebSocket.readMessages fun _ => []) t) ∧
  (∃ t, Arrives (HBDataSocket.readMessages (fun _ => []) String.handler) (HBDataSocket.new 4096)
      .connectedAsWebSocket t ∧
    t.unread = chunk ∧ ¬ StopsRightly (HBDataSocket.readMessages (fun _ => []) String.handler) t) ∧
  (∃ t, Arrives (HBSocketClient.readMessages (fun _ => sampleAccept) sampleKey String.handler)
      ((HBSocketClient.new (fun _ => 0) 4096).startHandshake (upgradeInfo []) sampleKey)
      .connectedAsWebSocket t ∧
    t.unread = chunk ∧
      ¬ StopsRightly (HBSocketClient.readMessages (fun _ => sampleAccept) sampleKey String.handler) t)

theorem noneStopsRightly_of {chunk : List UInt8} (hlength : chunk.length ≤ 100) (hchunk : chunk ≠ [])
    (hnot : ∀ {status : Type} {readMessages : SessionSocket status → Option (SessionSocket status)}
      {t : SessionSocket status}, readMessages t = t.processFrames → t.own.frame = .new 4096 →
      t.unread = chunk → ¬ StopsRightly readMessages t) : NoneStopsRightly chunk := by
  obtain ⟨⟨s, hs, hframe, hunread⟩, ⟨t, ht, hframe', hunread'⟩, ⟨u, hu, hframe'', hunread''⟩⟩ :=
    exists_arrived hlength hchunk
  have hstatus := (hs.ready (webSocket_preserves _) (new_ready _ _)).2.1
  have hstatus' := (ht.ready (hbDataSocket_preserves _ _) (new_ready _ _)).2.1
  have hstatus'' := (hu.ready (hbSocketClient_preserves _ _ _) ((new_ready _ _).raise _)).2.1
  exact ⟨⟨s, hs, hunread, hnot (webSocket_reads hstatus) hframe hunread⟩,
    ⟨t, ht, hunread', hnot (readMessagesWith_reads hstatus') hframe' hunread'⟩,
    ⟨u, hu, hunread'', hnot (readMessagesWith_reads hstatus'') hframe'' hunread''⟩⟩

end LuPlatform.Socket
