import LuPlatform.Socket.ClientMode
import LuPlatform.Socket.HandshakeAgreement
import LuPlatform.Socket.RequestAnswers

/-! The mode a server goes on in. Both server sockets send what the request parser answers, and it
answers a request for "tcp" with "tcp". Only one of them looks at the upgrade as well; the other one
expects frames whatever it has answered. -/

namespace LuPlatform.Socket

open Bytes Websocket Receiver

/-! ### The protocol of a text, and that of a socket -/

/-- The upgrade of a request or a response: the value of its first line with that name. -/
def upgradeOf (text : List UInt8) : Option (List UInt8) :=
  headerField (headLines text).tail (ascii "upgrade")

/-- How the bytes behind the handshake are decoded. -/
inductive Protocol where
  | rawTCP | webSocket
  deriving DecidableEq, Repr

def Protocol.ofUpgrade (upgrade : List UInt8) : Option Protocol :=
  if upgrade = ascii "tcp" then some rawTCP
  else if upgrade = ascii "websocket" then some webSocket
  else none

def Protocol.decode {status : Type} (handler : DataHandler) :
    Protocol → SessionSocket status → Option (SessionSocket status)
  | rawTCP => Receiver.readMessages handler
  | webSocket => processFrames

def WebSocket.protocol (s : WebSocket) : Option Protocol :=
  if s.own.socketStatus = .connecting then none else some .webSocket

def HBDataSocket.protocol (s : HBDataSocket) : Option Protocol :=
  match s.own.socketStatus with
  | .connectedAsTCP => some .rawTCP
  | .connectedAsWebSocket => some .webSocket
  | _ => none

theorem WebSocket.readMessages_protocol {getBase64Hash : List UInt8 → List UInt8} {s : WebSocket}
    {p : Protocol} (h : s.protocol = some p) (handler : DataHandler) :
    WebSocket.readMessages getBase64Hash s = p.decode handler s := by
  unfold WebSocket.protocol at h
  split at h
  · cases h
  · rename_i hstatus
    obtain rfl := Option.some.inj h
    exact if_neg hstatus

theorem HBDataSocket.readMessages_protocol {getBase64Hash : List UInt8 → List UInt8}
    {s : HBDataSocket} {p : Protocol} (h : s.protocol = some p) (handler : DataHandler) :
    HBDataSocket.readMessages getBase64Hash handler s = p.decode handler s := by
  unfold HBDataSocket.protocol at h
  unfold HBDataSocket.readMessages readMessagesWith readUpgraded
  split at h <;> rename_i hstatus
  · obtain rfl := Option.some.inj h
    simp only [hstatus, reduceCtorEq, if_false]
    rfl
  · obtain rfl := Option.some.inj h
    simp only [hstatus, reduceCtorEq, if_false]
    rfl
  · cases h

section Following

variable {status : Type}

/-- The socket as it begins to read the rest of a chunk, or a later chunk. -/
inductive Follows (readMessages : SessionSocket status → Option (SessionSocket status))
    (s : SessionSocket status) : SessionSocket status → Prop where
  | rest : Follows readMessages s s
  | chunk {t u v : SessionSocket status} (bytes : List UInt8) : Follows readMessages s t →
      readMessages t = some u → u.rewind.fill bytes = some v → Follows readMessages s v

/-- All that follows is decoded with the protocol that the response names. -/
def GoesOnAs (handler : DataHandler)
    (readMessages : SessionSocket status → Option (SessionSocket status))
    (protocol : SessionSocket status → Option Protocol) (response : List UInt8)
    (s : SessionSocket status) : Prop :=
  ∃ p, (upgradeOf response).bind Protocol.ofUpgrade = some p ∧
    ∀ t, Follows readMessages s t → protocol t = some p ∧ readMessages t = p.decode handler t

/-- The socket is connecting, and the header it finds is `text`. -/
def Requested (connecting : status) (text : List UInt8) (s : SessionSocket status) : Prop :=
  s.own.socketStatus = connecting ∧
    ∃ offset, scanHeader s.headerView s.own.readWebsocketHeaderOffset = some (true, offset) ∧
      (s.withOffset offset).header = text

/-- Nothing that follows changes a status that `readMessages` keeps. -/
theorem Follows.socketStatus {readMessages : SessionSocket status → Option (SessionSocket status)}
    {s t : SessionSocket status} (h : Follows readMessages s t)
    (hkeeps : ∀ u v, u.own.socketStatus = s.own.socketStatus → readMessages u = some v →
      v.own.socketStatus = u.own.socketStatus) : t.own.socketStatus = s.own.socketStatus := by
  induction h with
  | rest => rfl
  | @chunk t u v bytes _ hread hfill ih =>
    have hu := (hkeeps t u ih hread).trans ih
    obtain ⟨hown, _⟩ := rewind_own u
    obtain ⟨_, rfl⟩ := fill_eq_some hfill
    simp only [hown]
    exact hu

end Following

/-! ### The upgrade of the request and of the response -/

section Answer

variable {getBase64Hash : List UInt8 → List UInt8} {text response : List UInt8}
variable {request : HandshakeRequest}

/-- Of a text whose lines are all read the parser finds the upgrade. -/
theorem readLines_upgrade {keyValue : KeyValue}
    (h : readLines (requestLine RESOURCE) text = some (.ok (some keyValue))) :
    keyValue.find (ascii "upgrade") = upgradeOf text := by
  obtain ⟨last, hlast⟩ := readLines_scanned h
  rw [readLines_headLines hlast fun line keyValue hline => by simp [requestLine_keyValue hline]] at h
  unfold upgradeOf
  cases hlines : headLines text with
  | nil =>
    rw [hlines] at h
    obtain rfl := Option.some.inj (Outcome.ok.inj (Option.some.inj h))
    rfl
  | cons first lines =>
    rw [hlines, readHead] at h
    cases hfirst : requestLine RESOURCE first with
    | none => simp [hfirst] at h
    | some keyValue' =>
      obtain rfl := requestLine_keyValue hfirst
      simp only [hfirst, Option.some.injEq] at h
      have hcolons : ColonsInside lines := by
        by_contra hnot
        rw [readFields_thrown.mpr hnot] at h
        cases h
      rw [readFields_ok hcolons] at h
      split at h
      · obtain rfl := Option.some.inj (Outcome.ok.inj h)
        exact find_head (by decide)
      · cases h

/-- A response names one of the two upgrades. -/
theorem handshakeResponse_cases
    (hmet : handshakeResponse getBase64Hash request [13] (ascii "LuBinary") ≠ []) :
    handshakeResponse getBase64Hash request [13] (ascii "LuBinary") =
      if request.upgrade = ascii "tcp" then tcpResponse
      else webSocketResponse getBase64Hash request.key := by
  rw [webSocketResponse_eq]
  unfold handshakeResponse at hmet ⊢
  simp only [beq_iff_eq] at hmet ⊢
  split
  · rfl
  · rename_i hupgrade
    rw [if_neg hupgrade] at hmet
    split
    · rename_i hnone
      exact absurd (if_pos hnone) hmet
    · rfl

theorem answerWebSocket_cases {answered : HandshakeRequest} {protocols version : List UInt8}
    (h : answerWebSocket getBase64Hash request (ascii "LuBinary") [13] protocols version =
      .ok (answered, response)) (hmet : response ≠ []) :
    answered.upgrade = request.upgrade ∧
      response = handshakeResponse getBase64Hash answered [13] (ascii "LuBinary") := by
  simp only [answerWebSocket] at h
  split at h
  · cases h
  · split at h
    · cases h
    · split at h <;> obtain ⟨rfl, rfl⟩ := Prod.mk.inj (Outcome.ok.inj h)
      · exact absurd rfl hmet
      · exact ⟨rfl, rfl⟩

/-- What is answered goes by the upgrade that is asked for. -/
theorem answer_cases {keyValue : KeyValue}
    (h : answer getBase64Hash (ascii "LuBinary") [13] keyValue = .ok (request, response))
    (hmet : response ≠ []) :
    keyValue.find (ascii "upgrade") = some request.upgrade ∧
      (request.upgrade = ascii "tcp" ∧ response = tcpResponse ∨
        request.upgrade = ascii "websocket" ∧ response = webSocketResponse getBase64Hash request.key) := by
  have hrefused : ∀ {made : HandshakeRequest}, Outcome.ok (made, []) = .ok (request, response) → False := by
    intro made heq
    exact hmet (Prod.mk.inj (Outcome.ok.inj heq)).2.symm
  simp only [answer] at h
  split at h
  · exact (hrefused h).elim
  rename_i upgrade hupgrade
  rw [hupgrade]
  split at h
  · rename_i htcp
    obtain ⟨rfl, rfl⟩ := Prod.mk.inj (Outcome.ok.inj h)
    have htcp : upgrade = ascii "tcp" := by simpa using htcp
    refine ⟨rfl, .inl ⟨htcp, ?_⟩⟩
    rw [handshakeResponse_cases hmet]
    exact if_pos htcp
  split at h
  · exact (hrefused h).elim
  rename_i hwebSocket
  have hwebSocket : upgrade = ascii "websocket" := by simpa using hwebSocket
  split at h
  · exact (hrefused h).elim
  split at h
  · exact (hrefused h).elim
  split at h
  · exact (hrefused h).elim
  · exact (hrefused h).elim
  split at h
  · split at h
    · cases h
    · exact (hrefused h).elim
  · obtain ⟨hsame, hresponse⟩ := answerWebSocket_cases h hmet
    have hnot : request.upgrade ≠ ascii "tcp" := by
      rw [hsame]
      show upgrade ≠ ascii "tcp"
      rw [hwebSocket]
      decide
    rw [hresponse] at hmet
    rw [handshakeResponse_cases hmet, if_neg hnot] at hresponse
    exact ⟨congrArg some hsame.symm, .inr ⟨hsame.trans hwebSocket, hresponse⟩⟩

theorem answerRequest_upgrade (h : answerRequest getBase64Hash text = .ok (request, response))
    (hmet : response ≠ []) :
    upgradeOf text = some request.upgrade ∧
      (request.upgrade = ascii "tcp" ∧ response = tcpResponse ∨
        request.upgrade = ascii "websocket" ∧ response = webSocketResponse getBase64Hash request.key) := by
  unfold answerRequest getResponse at h
  split at h
  · rename_i keyValue hlines
    rw [← readLines_upgrade hlines]
    exact answer_cases h hmet
  · exact absurd (Prod.mk.inj (Outcome.ok.inj h)).2.symm hmet
  · cases h
  · cases h
  · cases h

theorem linesFrom_line (before : List UInt8) {line : List UInt8} (hline : OneLine line)
    (hne : line ≠ []) (after : List UInt8) (fuel : Nat) :
    linesFrom (before ++ line ++ crlf ++ after) (fuel + 1) before.length =
      line :: linesFrom (before ++ line ++ crlf ++ after) fuel (before ++ line ++ crlf).length := by
  have hpos := List.length_pos_iff.mpr hne
  have hread : ((before ++ line ++ crlf ++ after).drop before.length).take
      (before.length + line.length - before.length) = line := by
    rw [Nat.add_sub_cancel_left, List.append_assoc, List.append_assoc, List.drop_left, List.take_left]
  have hend : before.length + line.length + 2 = (before ++ line ++ crlf).length := by
    rw [List.length_append, List.length_append]
    rfl
  rw [linesFrom, findFrom_crlf_line before hline after]
  simp only [if_neg (show ¬ before.length + line.length = before.length by omega), hread, hend]

/-- An upgrade in the second line is found whatever follows it. -/
theorem upgradeOf_second {first value : List UInt8} (hfirst : OneLine first) (hne : first ≠ [])
    (hvalue : OneLine (fieldLine (ascii "Upgrade", value))) (after : List UInt8) :
    upgradeOf (first ++ crlf ++ headerLine (ascii "Upgrade") value ++ after) = some value := by
  obtain ⟨line, hline⟩ : ∃ line, fieldLine (ascii "Upgrade", value) = line := ⟨_, rfl⟩
  have hlineNe : line ≠ [] := by
    rw [← hline]
    exact List.cons_ne_nil _ _
  have htext : first ++ crlf ++ headerLine (ascii "Upgrade") value ++ after =
      first ++ crlf ++ line ++ crlf ++ after := by
    rw [← hline, headerLine, fieldLine]
    simp only [List.append_assoc]
  obtain ⟨fuel, hfuel⟩ : ∃ fuel, (first ++ crlf ++ line ++ crlf ++ after).length = fuel + 1 := by
    refine ⟨(first ++ crlf ++ line ++ crlf ++ after).length - 1, ?_⟩
    have hpos := List.length_pos_iff.mpr hne
    simp only [List.length_append]
    omega
  have hhead := linesFrom_line [] hfirst hne (line ++ crlf ++ after) (fuel + 1)
  have hsecond := linesFrom_line (first ++ crlf) (hline ▸ hvalue) hlineNe after fuel
  simp only [List.nil_append, List.length_nil, ← List.append_assoc] at hhead
  have hlines : (headLines (first ++ crlf ++ line ++ crlf ++ after)).tail =
      line :: linesFrom (first ++ crlf ++ line ++ crlf ++ after) fuel
        (first ++ crlf ++ line ++ crlf).length := by
    rw [headLines, hfuel, hhead, List.tail_cons, hsecond]
  have hfield : readField line = (ascii "upgrade", value) := by
    rw [← hline, readField_fieldLine (by decide)]
    rfl
  rw [htext, upgradeOf, hlines, headerField, List.map_cons, hfield]
  exact List.lookup_cons_self

theorem upgradeOf_response (h : answerRequest getBase64Hash text = .ok (request, response))
    (hmet : response ≠ []) : upgradeOf response = upgradeOf text := by
  obtain ⟨htext, ⟨hupgrade, rfl⟩ | ⟨hupgrade, rfl⟩⟩ := answerRequest_upgrade h hmet
  · rw [htext, hupgrade]
    decide +kernel
  · obtain ⟨after, hafter⟩ : ∃ after, webSocketResponse getBase64Hash request.key =
        ascii "HTTP/1.1 101 Switching Protocols" ++ crlf ++
          headerLine (ascii "Upgrade") (ascii "websocket") ++ after :=
      ⟨_, by simp only [webSocketResponse, responseFields, List.map_cons, List.flatten_cons,
        List.append_assoc]; rfl⟩
    rw [htext, hupgrade, hafter]
    exact upgradeOf_second (by decide) (by decide) (by decide) after

end Answer

/-! ### The mode -/

section Mode

variable {status : Type} {getBase64Hash : List UInt8 → List UInt8} {connecting : status}
variable {text response : List UInt8} {request : HandshakeRequest}

/-- The handshake of either server socket, at the end of a request that is met. -/
theorem processHeader_answered {connectedAs : HandshakeRequest → status} {s : SessionSocket status}
    (hs : Requested connecting text s)
    (hanswer : answerRequest getBase64Hash text = .ok (request, response)) (hmet : response ≠ []) :
    ∃ s', s.processHeader (finishRequest getBase64Hash connectedAs) = some s' ∧
      s'.own.socketStatus = connectedAs request ∧ SocketEvent.send response ∈ s'.events := by
  obtain ⟨_, offset, hscan, rfl⟩ := hs
  have hne : ¬ response.isEmpty = true := by simpa using hmet
  simp only [processHeader, hscan, finishRequest, hanswer, if_neg hne]
  refine ⟨_, rfl, rfl, ?_⟩
  simp [raise]

theorem readMessagesWith_connected
    {processHandshake : SessionSocket SocketStatus → Option (SessionSocket SocketStatus)}
    (handler : DataHandler) {s : SessionSocket SocketStatus} (h : s.own.socketStatus ≠ .connecting) :
    readMessagesWith processHandshake handler s = readUpgraded handler s := if_neg h

/-- No chunk changes the mode of an HBDataSocket. -/
theorem hbDataSocket_follows {handler : DataHandler} {s t : HBDataSocket}
    (h : Follows (HBDataSocket.readMessages getBase64Hash handler) s t)
    (hs : s.own.socketStatus ≠ .connecting) : t.own.socketStatus = s.own.socketStatus := by
  refine h.socketStatus fun u v hu hread => ?_
  rw [HBDataSocket.readMessages, readMessagesWith_connected handler (hu ▸ hs)] at hread
  exact readUpgraded_status hread

theorem webSocket_follows {s t : WebSocket}
    (h : Follows (WebSocket.readMessages getBase64Hash) s t) (hs : s.own.socketStatus ≠ .connecting) :
    t.own.socketStatus = s.own.socketStatus := by
  refine h.socketStatus fun u v hu hread => ?_
  rw [WebSocket.readMessages, if_neg (hu ▸ hs)] at hread
  exact processFrames_status hread

theorem hbDataSocket_handshake (handler : DataHandler) {s : HBDataSocket}
    (hs : Requested .connecting text s)
    (hanswer : answerRequest getBase64Hash text = .ok (request, response)) (hmet : response ≠ []) :
    ∃ s', HBDataSocket.processHandshake getBase64Hash s = some s' ∧
      s'.own.socketStatus = connectedAs request.upgrade ∧
      HBDataSocket.readMessages getBase64Hash handler s =
        HBDataSocket.readMessages getBase64Hash handler s' := by
  obtain ⟨s', hs', hstatus, _⟩ : ∃ s', HBDataSocket.processHandshake getBase64Hash s = some s' ∧
      s'.own.socketStatus = connectedAs request.upgrade ∧ SocketEvent.send response ∈ s'.events :=
    processHeader_answered hs hanswer hmet
  have hconnected : s'.own.socketStatus ≠ .connecting := by
    rw [hstatus]
    exact connectedAs_ne_connecting request.upgrade
  refine ⟨s', hs', hstatus, ?_⟩
  rw [HBDataSocket.readMessages, HBDataSocket.readMessages,
    readMessagesWith_connected handler hconnected, readMessagesWith, if_pos hs.1, hs']
  exact if_neg hconnected

theorem webSocket_handshake {s : WebSocket} (hs : Requested .connecting text s)
    (hanswer : answerRequest getBase64Hash text = .ok (request, response)) (hmet : response ≠ []) :
    ∃ s', WebSocket.processHandshake getBase64Hash s = some s' ∧
      s'.own.socketStatus ≠ .connecting ∧ SocketEvent.send response ∈ s'.events ∧
      WebSocket.readMessages getBase64Hash s = WebSocket.readMessages getBase64Hash s' := by
  obtain ⟨s', hs', hstatus, hsent⟩ : ∃ s', WebSocket.processHandshake getBase64Hash s = some s' ∧
      s'.own.socketStatus = .connected ∧ SocketEvent.send response ∈ s'.events :=
    processHeader_answered hs hanswer hmet
  have hconnected : s'.own.socketStatus ≠ .connecting := by
    rw [hstatus]
    decide
  refine ⟨s', hs', hconnected, hsent, ?_⟩
  rw [WebSocket.readMessages, WebSocket.readMessages, if_neg hconnected, if_pos hs.1, hs']
  exact if_neg hconnected

/-- An upgrade that is answered names the mode it leads to. -/
theorem protocol_connectedAs {upgrade : List UInt8}
    (hasked : upgrade = ascii "tcp" ∨ upgrade = ascii "websocket") :
    ∃ p, Protocol.ofUpgrade upgrade = some p ∧ ∀ t : HBDataSocket,
      t.own.socketStatus = connectedAs upgrade → HBDataSocket.protocol t = some p := by
  rcases hasked with rfl | rfl
  · refine ⟨.rawTCP, rfl, fun t ht => ?_⟩
    rw [HBDataSocket.protocol, ht]
    rfl
  · refine ⟨.webSocket, by decide, fun t ht => ?_⟩
    rw [HBDataSocket.protocol, ht]
    rfl

theorem hbDataSocket_goesOnAs (handler : DataHandler) {s : HBDataSocket} {upgrade : List UInt8}
    (hasked : upgrade = ascii "tcp" ∨ upgrade = ascii "websocket")
    (hstatus : s.own.socketStatus = connectedAs upgrade)
    (hresponse : upgradeOf response = some upgrade) :
    GoesOnAs handler (HBDataSocket.readMessages getBase64Hash handler) HBDataSocket.protocol response
      s := by
  obtain ⟨p, hnamed, hprotocol⟩ := protocol_connectedAs hasked
  have hconnected : s.own.socketStatus ≠ .connecting := by
    rw [hstatus]
    exact connectedAs_ne_connecting upgrade
  refine ⟨p, by rw [hresponse, Option.bind_some, hnamed], fun t ht => ?_⟩
  have ht' := hprotocol t ((hbDataSocket_follows ht hconnected).trans hstatus)
  exact ⟨ht', HBDataSocket.readMessages_protocol ht' handler⟩

theorem webSocket_goesOnAs_iff (handler : DataHandler) {s : WebSocket} {upgrade : List UInt8}
    (hasked : upgrade = ascii "tcp" ∨ upgrade = ascii "websocket")
    (hconnected : s.own.socketStatus ≠ .connecting) (hresponse : upgradeOf response = some upgrade) :
    GoesOnAs handler (WebSocket.readMessages getBase64Hash) WebSocket.protocol response s ↔
      upgrade ≠ ascii "tcp" := by
  have hframes : ∀ t, Follows (WebSocket.readMessages getBase64Hash) s t →
      WebSocket.protocol t = some .webSocket := by
    intro t ht
    have ht' := webSocket_follows ht hconnected
    exact if_neg (ht' ▸ hconnected)
  unfold GoesOnAs
  rw [hresponse, Option.bind_some]
  constructor
  · rintro ⟨p, hnamed, hall⟩ rfl
    obtain rfl := Option.some.inj ((hframes s .rest).symm.trans (hall s .rest).1)
    exact absurd hnamed (by decide)
  · intro hnot
    obtain rfl := hasked.resolve_left hnot
    exact ⟨.webSocket, by decide, fun t ht =>
      ⟨hframes t ht, WebSocket.readMessages_protocol (hframes t ht) handler⟩⟩

/-- The HBDataSocket goes on as its response says, the WebSocket unless it was asked for "tcp". -/
theorem goesOnAs_response (handler : DataHandler)
    (hanswer : answerRequest getBase64Hash text = .ok (request, response)) (hmet : response ≠ []) :
    (∀ s, Requested .connecting text s → ∃ s', HBDataSocket.processHandshake getBase64Hash s = some s' ∧
      HBDataSocket.readMessages getBase64Hash handler s =
        HBDataSocket.readMessages getBase64Hash handler s' ∧
      GoesOnAs handler (HBDataSocket.readMessages getBase64Hash handler) HBDataSocket.protocol response
        s') ∧
    (∀ s, Requested .connecting text s → ∃ s', WebSocket.processHandshake getBase64Hash s = some s' ∧
      WebSocket.readMessages getBase64Hash s = WebSocket.readMessages getBase64Hash s' ∧
      (GoesOnAs handler (WebSocket.readMessages getBase64Hash) WebSocket.protocol response s' ↔
        upgradeOf text ≠ some (ascii "tcp"))) := by
  obtain ⟨htext, hupgrade⟩ := answerRequest_upgrade hanswer hmet
  have hasked : request.upgrade = ascii "tcp" ∨ request.upgrade = ascii "websocket" :=
    hupgrade.imp And.left And.left
  have hresponse : upgradeOf response = some request.upgrade :=
    (upgradeOf_response hanswer hmet).trans htext
  constructor
  · intro s hs
    obtain ⟨s', hs', hstatus, hread⟩ := hbDataSocket_handshake handler hs hanswer hmet
    exact ⟨s', hs', hread, hbDataSocket_goesOnAs handler hasked hstatus hresponse⟩
  · intro s hs
    obtain ⟨s', hs', hconnected, _, hread⟩ := webSocket_handshake hs hanswer hmet
    refine ⟨s', hs', hread, ?_⟩
    rw [webSocket_goesOnAs_iff handler hasked hconnected hresponse, htext, ne_eq, ne_eq,
      Option.some.injEq]

end Mode

/-! ### A request for "tcp" -/

section Asked

variable {status : Type} {connecting : status} {MaxMessageSize bufferSize : Nat} {text : List UInt8}

/-- A new socket that is given a whole request finds it. -/
theorem requested_new (htext : EndsWithFirstEmptyLine text) (hfits : text.length ≤ bufferSize) :
    ∃ s : SessionSocket status, (Receiver.new (List.replicate bufferSize 0)
        { socketStatus := connecting, frame := .new MaxMessageSize } : SessionSocket status).fill text =
          some s ∧ Requested connecting text s := by
  rw [new_waiting]
  refine ⟨_, fill_waiting (by rwa [List.length_nil, Nat.zero_add]), rfl, text.length, ?_, ?_⟩
  · rw [headerView_filled]
    exact endsWithFirstEmptyLine_iff.mp htext
  · have hheader : (filled connecting MaxMessageSize bufferSize bufferSize text text.length []).header =
        text.take text.length := header_filled (Nat.le_refl _)
    exact hheader.trans List.take_length

end Asked

theorem exampleRequest_fits :
    (exampleLines ++ crlf).length ≤ WebSocket.BUFFER_SIZE ∧
      (exampleLines ++ crlf).length ≤ HBDataSocket.BUFFER_SIZE 4096 := by
  have hlength : (exampleLines ++ crlf).length ≤ 100 := by decide +kernel
  have hsize : RECV_BUFFER_SIZE ≤ HBDataSocket.BUFFER_SIZE 4096 := Nat.le_max_right _ _
  have hrecv : RECV_BUFFER_SIZE = 6000 := rfl
  have hbuffer : WebSocket.BUFFER_SIZE = 819204 := rfl
  exact ⟨by omega, by omega⟩

/-- An HBDataSocket that is asked for "tcp" says so and does so. -/
theorem goesOnAs_response_tcp : ∃ s s' response,
    (HBDataSocket.new 4096).fill (exampleLines ++ crlf) = some s ∧
      HBDataSocket.processHandshake (fun _ => []) s = some s' ∧ response ≠ [] ∧
      GoesOnAs String.handler (HBDataSocket.readMessages (fun _ => []) String.handler)
        HBDataSocket.protocol response s' := by
  obtain ⟨request, response, hanswer, hmet⟩ := exampleRequest_answer
  obtain ⟨s, hfill, hs⟩ := requested_new exampleRequest_ends exampleRequest_fits.2
  obtain ⟨s', hs', _, hgoes⟩ := (goesOnAs_response String.handler hanswer hmet).1 s hs
  exact ⟨s, s', response, hfill, hs', hmet, hgoes⟩

/-- A WebSocket that is asked for "tcp" says so and goes on with frames. -/
theorem webSocket_answers_tcp : ∃ s s' response,
    (WebSocket.new 4096).fill (exampleLines ++ crlf) = some s ∧
      WebSocket.processHandshake (fun _ => []) s = some s' ∧ SocketEvent.send response ∈ s'.events ∧
      upgradeOf response = some (ascii "tcp") ∧ WebSocket.protocol s' = some .webSocket ∧
      ¬ GoesOnAs String.handler (WebSocket.readMessages fun _ => []) WebSocket.protocol response s' := by
  obtain ⟨request, response, hanswer, hmet⟩ := exampleRequest_answer
  have htcp : upgradeOf response = some (ascii "tcp") := by
    rw [upgradeOf_response hanswer hmet]
    decide +kernel
  obtain ⟨s, hfill, hs⟩ : ∃ s, (WebSocket.new 4096).fill (exampleLines ++ crlf) = some s ∧
      Requested .connecting (exampleLines ++ crlf) s :=
    requested_new exampleRequest_ends exampleRequest_fits.1
  obtain ⟨s', hs', hconnected, hsent, _⟩ := webSocket_handshake hs hanswer hmet
  refine ⟨s, s', response, hfill, hs', hsent, htcp, if_neg hconnected, fun hgoes => ?_⟩
  exact (webSocket_goesOnAs_iff String.handler (.inl rfl) hconnected htcp).mp hgoes rfl

end LuPlatform.Socket
