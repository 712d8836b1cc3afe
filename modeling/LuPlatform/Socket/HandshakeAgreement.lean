import LuPlatform.Socket.WebSockets
import LuPlatform.Websocket.HeaderFields
import LuPlatform.Websocket.ProtocolList

/-! The client's request against the server's parser, and its response against the client's. The two
agree unless the server's list of the protocols ends before its own one: the parser takes an item
`null` for nothing, and the end of a C string for the end of the list. -/

namespace LuPlatform.Socket

open Bytes Utils Websocket

/-! ### The request -/

/-- The fields of a request in the order they are printed. -/
def requestFields (handshakeInfo : InitialRequestInfo) (key : List UInt8) :
    List (List UInt8 × List UInt8) :=
  [(ascii "Host", handshakeInfo.host),
    (ascii "Upgrade",
      if handshakeInfo.upgrade.isEmpty then ascii "websocket" else handshakeInfo.upgrade),
    (ascii "Connection", ascii "Upgrade"), (ascii "Sec-WebSocket-Key", key)] ++
  ((if handshakeInfo.origin.isEmpty then [] else [(ascii "Origin", handshakeInfo.origin)]) ++
  ((ascii "Sec-WebSocket-Version", handshakeInfo.wsVersion) ::
  ((if handshakeInfo.extensions.isEmpty then []
    else [(ascii "Sec-WebSocket-Extensions", handshakeInfo.extensions)]) ++
  ((if handshakeInfo.protocols.isEmpty then []
    else [(ascii "Sec-WebSocket-Protocol", List.intercalate separator handshakeInfo.protocols)]) ++
  handshakeInfo.headers))))

theorem createHandShakeRequest_eq (handshakeInfo : InitialRequestInfo) (key : List UInt8) :
    createHandShakeRequest handshakeInfo key =
      ascii "GET " ++ handshakeInfo.resourceName ++ ascii " HTTP/1.1" ++ crlf ++
        ((requestFields handshakeInfo key).map fun field => headerLine field.1 field.2).flatten ++
        crlf := by
  have hversion : ascii " HTTP/1.1\r\n" = ascii " HTTP/1.1" ++ crlf := by decide
  have hoptional : ∀ (absent : Bool) (name value : List UInt8),
      (if absent then [] else headerLine name value) =
        ((if absent then [] else [(name, value)]).map
          fun field : List UInt8 × List UInt8 => headerLine field.1 field.2).flatten := by
    intro absent name value
    cases absent
    · exact (List.append_nil _).symm
    · rfl
  simp only [createHandShakeRequest, requestFields, hversion, hoptional, separator, List.map_append,
    List.map_cons, List.map_nil, List.flatten_append, List.flatten_cons, List.flatten_nil,
    List.append_assoc, List.append_nil]

/-- What the client may ask for, and with which key. -/
structure WellFormed (handshakeInfo : InitialRequestInfo) (key : List UInt8) : Prop where
  resourceName : handshakeInfo.resourceName = RESOURCE
  upgrade : handshakeInfo.upgrade = [] ∨ handshakeInfo.upgrade = ascii "websocket" ∨
    handshakeInfo.upgrade = ascii "tcp"
  wsVersion : handshakeInfo.wsVersion = ascii "13"
  luBinary : ascii "LuBinary" ∈ handshakeInfo.protocols
  protocols : ∀ protocol ∈ handshakeInfo.protocols,
    protocol ≠ [] ∧ Unbroken protocol ∧ OneLine protocol
  host : OneLine handshakeInfo.host
  origin : OneLine handshakeInfo.origin
  extensions : OneLine handshakeInfo.extensions
  headers : ∀ header ∈ handshakeInfo.headers,
    header.1 ≠ [] ∧ OneLine header.1 ∧ OneLine header.2
  key : OneLine key

section Request

variable {handshakeInfo : InitialRequestInfo} {key : List UInt8}

theorem oneLine_intercalate {items : List (List UInt8)} (hitems : ∀ t ∈ items, OneLine t) :
    OneLine (List.intercalate separator items) := by
  induction items with
  | nil => decide
  | cons item items ih =>
    have hitem := hitems item (by simp)
    cases items with
    | nil => rwa [List.intercalate_singleton]
    | cons second items =>
      rw [List.intercalate_cons_cons]
      exact (hitem.append (by decide)).append (ih fun t ht => hitems t (by simp [ht]))

theorem requestFields_oneLine (h : WellFormed handshakeInfo key) :
    ∀ field ∈ requestFields handshakeInfo key, OneLine (fieldLine field) := by
  have hline : ∀ {name value : List UInt8}, OneLine name → OneLine value →
      OneLine (fieldLine (name, value)) :=
    fun hname hvalue => (hname.append (by decide)).append hvalue
  have hoptional : ∀ {absent : Bool} {name value : List UInt8}, OneLine name → OneLine value →
      ∀ field ∈ (if absent then [] else [(name, value)]), OneLine (fieldLine field) := by
    intro absent name value hname hvalue field hfield
    cases absent
    · obtain rfl := List.mem_singleton.mp hfield
      exact hline hname hvalue
    · exact absurd hfield List.not_mem_nil
  have hupgrade : OneLine (if handshakeInfo.upgrade.isEmpty then ascii "websocket"
      else handshakeInfo.upgrade) := by
    obtain hempty | hsocket | htcp := h.upgrade
    · rw [hempty]
      decide
    · rw [hsocket]
      decide
    · rw [htcp]
      decide
  intro field hfield
  simp only [requestFields, List.mem_append, List.mem_cons, List.not_mem_nil, or_false] at hfield
  obtain (rfl | rfl | rfl | rfl) | horigin | rfl | hextensions | hprotocols | hheader := hfield
  · exact hline (by decide) h.host
  · exact hline (by decide) hupgrade
  · exact hline (by decide) (by decide)
  · exact hline (by decide) h.key
  · exact hoptional (by decide) h.origin field horigin
  · exact hline (by decide) (by rw [h.wsVersion]; decide)
  · exact hoptional (by decide) h.extensions field hextensions
  · exact hoptional (by decide) (oneLine_intercalate fun t ht => (h.protocols t ht).2.2) field
      hprotocols
  · obtain ⟨_, hname, hvalue⟩ := h.headers field hheader
    exact hline hname hvalue

/-- The map the server reads from a request. -/
def requestKeyValue (handshakeInfo : InitialRequestInfo) (key : List UInt8) : KeyValue :=
  emplaceAll [(ascii "request-method", ascii "GET /comms HTTP/1.1")]
    ((requestFields handshakeInfo key).map fun field => readField (fieldLine field))

theorem readLines_request (h : WellFormed handshakeInfo key) :
    readLines (requestLine RESOURCE) (createHandShakeRequest handshakeInfo key) =
      some (.ok (some (requestKeyValue handshakeInfo key))) := by
  have hline : ascii "GET " ++ RESOURCE ++ ascii " HTTP/1.1" = ascii "GET /comms HTTP/1.1" := by
    decide
  rw [createHandShakeRequest_eq, h.resourceName, hline]
  exact readLines_fields (by decide) (by decide) (by decide) (by decide) (requestFields_oneLine h)

theorem lookup_optional (name value : List UInt8) (absent : Bool) {sought : List UInt8}
    (hne : (sought == toLower name) = false) (hname : 58 ∉ name) :
    ((if absent then [] else [(name, value)]).map
      fun field => readField (fieldLine field)).lookup sought = none := by
  cases absent
  · rw [if_neg Bool.false_ne_true, List.map_singleton, readField_fieldLine hname,
      List.lookup_cons, hne]
    rfl
  · rfl

/-- What is found under the names that the server asks for. -/
structure Asked (keyValue : KeyValue) (upgrade key protocols : List UInt8) : Prop where
  upgrade : keyValue.find (ascii "upgrade") = some upgrade
  key : keyValue.find (ascii "sec-websocket-key") = some key
  connection : keyValue.find (ascii "connection") = some (ascii "Upgrade")
  protocols : keyValue.find (ascii "sec-websocket-protocol") = some protocols
  version : keyValue.find (ascii "sec-websocket-version") = some (ascii "13")

theorem requestKeyValue_asked (h : WellFormed handshakeInfo key) :
    Asked (requestKeyValue handshakeInfo key)
      (if handshakeInfo.upgrade.isEmpty then ascii "websocket" else handshakeInfo.upgrade) key
      (List.intercalate separator handshakeInfo.protocols) := by
  have hprotocols : handshakeInfo.protocols.isEmpty = false := by
    simpa using List.ne_nil_of_mem h.luBinary
  -- the lines that are always there, and the two that may be missing, by their names
  have hfields : ∃ origin extensions rest : List (List UInt8 × List UInt8),
      (∀ sought, (sought == ascii "origin") = false → origin.lookup sought = none) ∧
      (∀ sought, (sought == ascii "sec-websocket-extensions") = false →
        extensions.lookup sought = none) ∧
      (requestFields handshakeInfo key).map (fun field => readField (fieldLine field)) =
        [(ascii "host", handshakeInfo.host),
          (ascii "upgrade",
            if handshakeInfo.upgrade.isEmpty then ascii "websocket" else handshakeInfo.upgrade),
          (ascii "connection", ascii "Upgrade"), (ascii "sec-websocket-key", key)] ++
        (origin ++ ((ascii "sec-websocket-version", ascii "13") :: (extensions ++
          ((ascii "sec-websocket-protocol",
            List.intercalate separator handshakeInfo.protocols) :: rest)))) := by
    refine ⟨_, _, handshakeInfo.headers.map fun field => readField (fieldLine field),
      fun sought hne => lookup_optional (ascii "Origin") handshakeInfo.origin
        handshakeInfo.origin.isEmpty hne (by decide),
      fun sought hne => lookup_optional (ascii "Sec-WebSocket-Extensions") handshakeInfo.extensions
        handshakeInfo.extensions.isEmpty hne (by decide), ?_⟩
    simp only [requestFields, hprotocols, h.wsVersion, List.map_append, List.map_cons, List.map_nil,
      Bool.false_eq_true, if_false]
    rw [readField_fieldLine (by decide), readField_fieldLine (by decide),
      readField_fieldLine (by decide), readField_fieldLine (by decide),
      readField_fieldLine (by decide), readField_fieldLine (by decide)]
    rfl
  obtain ⟨origin, extensions, rest, horigin, hextensions, hfields⟩ := hfields
  have hfind : ∀ sought, (requestKeyValue handshakeInfo key).find sought = _ :=
    fun sought => by rw [requestKeyValue, find_emplaceAll, hfields]
  have hversion : (requestKeyValue handshakeInfo key).find (ascii "sec-websocket-version") =
      (origin ++ _).lookup (ascii "sec-websocket-version") := hfind _
  have hprotocol : (requestKeyValue handshakeInfo key).find (ascii "sec-websocket-protocol") =
      (origin ++ _).lookup (ascii "sec-websocket-protocol") := hfind _
  rw [List.lookup_append, horigin _ (by decide), Option.none_or] at hversion hprotocol
  have hprotocol' : (requestKeyValue handshakeInfo key).find (ascii "sec-websocket-protocol") =
      (extensions ++ _).lookup (ascii "sec-websocket-protocol") := hprotocol
  rw [List.lookup_append, hextensions _ (by decide), Option.none_or] at hprotocol'
  exact ⟨hfind _, hfind _, hfind _, hprotocol', hversion⟩

end Request

/-! ### The response -/

section Response

variable (getBase64Hash : List UInt8 → List UInt8)

/-- The fields of a response to a WebSocket request. -/
def responseFields (key : List UInt8) : List (List UInt8 × List UInt8) :=
  [(ascii "Upgrade", ascii "websocket"), (ascii "Connection", ascii "Upgrade"),
    (ascii "Sec-WebSocket-Accept", getAcceptKey getBase64Hash key),
    (ascii "Sec-WebSocket-Protocol", ascii "LuBinary")]

def webSocketResponse (key : List UInt8) : List UInt8 :=
  ascii "HTTP/1.1 101 Switching Protocols" ++ crlf ++
    ((responseFields getBase64Hash key).map fun field => headerLine field.1 field.2).flatten ++ crlf

def tcpResponse : List UInt8 :=
  ascii "HTTP/1.1 101 Switching Protocols\r\nUpgrade: tcp\r\n\r\n"

theorem webSocketResponse_eq (key : List UInt8) :
    webSocketResponse getBase64Hash key =
      ascii "HTTP/1.1 101 Switching Protocols\r\nUpgrade: websocket\r\nConnection: Upgrade\r\n" ++
        ascii "Sec-WebSocket-Accept: " ++ getAcceptKey getBase64Hash key ++ crlf ++
        ascii "Sec-WebSocket-Protocol: " ++ ascii "LuBinary" ++ crlf ++ crlf := by
  have hhead : ascii
      "HTTP/1.1 101 Switching Protocols\r\nUpgrade: websocket\r\nConnection: Upgrade\r\n" =
      ascii "HTTP/1.1 101 Switching Protocols" ++ crlf ++
        headerLine (ascii "Upgrade") (ascii "websocket") ++
        headerLine (ascii "Connection") (ascii "Upgrade") := by decide +kernel
  have haccept : ascii "Sec-WebSocket-Accept: " = ascii "Sec-WebSocket-Accept" ++ ascii ": " := by
    decide
  have hprotocol : ascii "Sec-WebSocket-Protocol: " =
      ascii "Sec-WebSocket-Protocol" ++ ascii ": " := by decide
  rw [hhead, haccept, hprotocol]
  simp only [webSocketResponse, responseFields, List.map_cons, List.map_nil, List.flatten_cons,
    List.flatten_nil, headerLine, List.append_assoc, List.append_nil]

variable {getBase64Hash}

/-- The server answers with its own protocol if it finds it among those it collected. -/
theorem handshakeResponse_webSocket {request : HandshakeRequest}
    (htcp : (request.upgrade == ascii "tcp") = false)
    (hversions : request.websocketVersions = [13]) :
    handshakeResponse getBase64Hash request [13] (ascii "LuBinary") =
      if ascii "LuBinary" ∈ request.protocols then webSocketResponse getBase64Hash request.key
      else [] := by
  have hmatching : (listIntersection [13] [13]).isEmpty = false := by decide
  rw [webSocketResponse_eq]
  simp only [handshakeResponse, htcp, hversions, hmatching, Bool.false_eq_true, if_false,
    Bool.or_false]
  by_cases hmem : ascii "LuBinary" ∈ request.protocols
  · obtain ⟨found, hfound⟩ : ∃ found, request.protocols.find? (· == ascii "LuBinary") = some found :=
      Option.isSome_iff_exists.mp (List.find?_isSome.mpr ⟨_, hmem, beq_self_eq_true _⟩)
    have heq := List.find?_some hfound
    obtain rfl : found = ascii "LuBinary" := by simpa using heq
    rw [hfound, if_pos hmem]
    exact if_neg (by decide)
  · have hnone : request.protocols.find? (· == ascii "LuBinary") = none :=
      List.find?_eq_none.mpr fun protocol hprotocol heq => hmem (by
        obtain rfl : protocol = ascii "LuBinary" := by simpa using heq
        exact hprotocol)
    rw [hnone, if_neg hmem]
    rfl

/-- The version is read, and the response depends on the protocols that were collected. -/
theorem answerWebSocket_collected {request : HandshakeRequest}
    (htcp : (request.upgrade == ascii "tcp") = false) {protocols value : List UInt8}
    {parser : DelimiterTextParser}
    (hnext : (DelimiterTextParser.ofString protocols separator).next = .ok (value, parser))
    {collected : List (List UInt8)}
    (hcollect : collect DelimiterTextParser.next List.isEmpty (protocols.length + 1) value parser =
      collected) :
    answerWebSocket getBase64Hash request (ascii "LuBinary") [13] protocols (ascii "13") =
      .ok ({ request with protocols := collected, websocketVersions := [13] },
        if ascii "LuBinary" ∈ collected then webSocketResponse getBase64Hash request.key else []) := by
  obtain ⟨rest, hversion, hversions⟩ : ∃ rest,
      ((DelimiterTextParser.ofString protocols separator).nextLine (ascii "13")).nextInt =
        .ok (13, rest) ∧
      collect DelimiterTextParser.nextInt (· == 0) ((ascii "13").length + 1) 13 rest = [13] :=
    ⟨⟨separator, ascii "13", 4, 2, 2⟩, rfl, by decide⟩
  have hresponse := @handshakeResponse_webSocket getBase64Hash
    { request with protocols := collected, websocketVersions := [13] } htcp rfl
  rw [separator] at hnext hversion
  simp only [answerWebSocket, hnext, hversion, hversions, hcollect, hresponse]
  split
  · rename_i hempty
    rw [List.isEmpty_iff] at hempty
    rw [hempty, if_neg List.not_mem_nil]
  · rfl

/-- A response is made exactly if the parser reaches the server's protocol. -/
theorem answerWebSocket_protocols {request : HandshakeRequest}
    (htcp : (request.upgrade == ascii "tcp") = false) {protocols : List (List UInt8)}
    (hsome : protocols ≠ []) (hprotocols : ∀ t ∈ protocols, t ≠ [] ∧ Unbroken t) :
    (ProtocolReached (ascii "LuBinary") protocols →
      ∃ request' : HandshakeRequest, request'.upgrade = request.upgrade ∧
        answerWebSocket getBase64Hash request (ascii "LuBinary") [13]
          (List.intercalate separator protocols) (ascii "13") =
            .ok (request', webSocketResponse getBase64Hash request.key)) ∧
    (¬ ProtocolReached (ascii "LuBinary") protocols → ∀ request' response,
      answerWebSocket getBase64Hash request (ascii "LuBinary") [13]
        (List.intercalate separator protocols) (ascii "13") = .ok (request', response) →
          response = []) := by
  have hunbroken := unbroken_cutItems fun t ht => (hprotocols t ht).2
  have hreached : ascii "LuBinary" ∈ (cutItems protocols).takeWhile goesOn ↔
      ProtocolReached (ascii "LuBinary") protocols :=
    mem_collected_iff (by decide) fun t ht => (hprotocols t ht).1
  have hcount := length_cutItems_le protocols
  obtain ⟨item, items, hcut⟩ := List.exists_cons_of_ne_nil (cutItems_ne_nil hsome)
  rw [hcut] at hunbroken hreached hcount
  have hline : (DelimiterTextParser.ofString (List.intercalate separator protocols)
      separator).line.drop 0 = List.intercalate separator (item :: items) := by
    rw [← hcut, ← untilNul_intercalate]
    rfl
  by_cases hne : List.intercalate separator (item :: items) = []
  · -- the parser throws before anything is collected
    have hitem := eq_nil_of_intercalate hne
    have hmissed : ¬ ProtocolReached (ascii "LuBinary") protocols := by
      rw [← hreached, hitem]
      exact List.not_mem_nil
    refine ⟨fun h => absurd h hmissed, fun _ request' response h => ?_⟩
    have hnext := next_end (p := .ofString (List.intercalate separator protocols) separator) rfl
      (hline.trans hne)
    rw [separator] at hnext h
    rw [answerWebSocket, hnext] at h
    cases h
  · obtain ⟨parser, hnext, hdelimeter, _, hrest⟩ := next_intercalate
      (p := .ofString (List.intercalate separator protocols) separator) rfl hunbroken hline hne
    have hcollect := @collect_intercalate _ item _ hdelimeter
      (fun t ht => hunbroken t (by simp [ht])) hrest _
      (show items.length < (List.intercalate separator protocols).length + 1 by
        rw [List.length_cons] at hcount
        omega)
    have hanswer := @answerWebSocket_collected getBase64Hash _ htcp _ _ _ hnext _ hcollect
    refine ⟨fun h => ⟨{ request with
      protocols := (item :: items).takeWhile goesOn
      websocketVersions := [13] }, rfl, ?_⟩, fun h request' response heq => ?_⟩
    · rw [hanswer, if_pos (hreached.mpr h)]
    · rw [hanswer, if_neg (mt hreached.mp h)] at heq
      cases heq
      rfl

theorem answer_tcp {keyValue : KeyValue} {key protocols : List UInt8}
    (h : Asked keyValue (ascii "tcp") key protocols) :
    answer getBase64Hash (ascii "LuBinary") [13] keyValue =
      .ok ({ keyValue, upgrade := ascii "tcp" }, tcpResponse) := by
  simp only [answer, h.upgrade, handshakeResponse, beq_self_eq_true, if_true, tcpResponse]

theorem answer_webSocket {keyValue : KeyValue} {key protocols : List UInt8}
    (h : Asked keyValue (ascii "websocket") key protocols) (hsome : protocols ≠ []) :
    answer getBase64Hash (ascii "LuBinary") [13] keyValue =
      answerWebSocket getBase64Hash { keyValue, upgrade := ascii "websocket", key }
        (ascii "LuBinary") [13] protocols (ascii "13") := by
  have htcp : (ascii "websocket" == ascii "tcp") = false := by decide
  have hconnection : ((some (ascii "Upgrade")).map toLower != some (ascii "upgrade")) = false := by
    decide
  simp only [answer, h.upgrade, h.key, h.connection, h.protocols, h.version, htcp, hconnection,
    bne_self_eq_false, Bool.false_eq_true, if_false]

/-! ### The client reads it -/

theorem readServerResponse_tcp (key : List UInt8) :
    ∃ reply, readServerResponse getBase64Hash tcpResponse key = .ok (reply, true) ∧
      reply.getUpgrade = ascii "tcp" := by
  have hlines : readLines statusLine tcpResponse =
      some (.ok (some [(ascii "ServerResponse", ascii "101"), (ascii "upgrade", ascii "tcp")])) := by
    decide +kernel
  refine ⟨⟨[], [(ascii "ServerResponse", ascii "101"), (ascii "upgrade", ascii "tcp")]⟩, ?_, by decide⟩
  rw [readServerResponse, hlines]
  rfl

theorem responseFields_oneLine (hhash : ∀ text, OneLine (getBase64Hash text)) (key : List UInt8) :
    ∀ field ∈ responseFields getBase64Hash key, OneLine (fieldLine field) := by
  intro field hfield
  simp only [responseFields, List.mem_cons, List.not_mem_nil, or_false] at hfield
  obtain rfl | rfl | rfl | rfl := hfield
  · decide
  · decide
  · have hname : OneLine (ascii "Sec-WebSocket-Accept" ++ ascii ": ") := by decide
    exact hname.append (hhash _)
  · decide

theorem webSocketResponse_ne (key : List UInt8) : webSocketResponse getBase64Hash key ≠ [] := by
  intro hnil
  have hlength := congrArg List.length hnil
  simp [webSocketResponse, crlf, ascii] at hlength

theorem readServerResponse_webSocket (hhash : ∀ text, OneLine (getBase64Hash text))
    (key : List UInt8) :
    ∃ reply, readServerResponse getBase64Hash (webSocketResponse getBase64Hash key) key =
        .ok (reply, true) ∧ reply.getUpgrade = ascii "websocket" := by
  have hfirst : statusLine (ascii "HTTP/1.1 101 Switching Protocols") =
      some [(ascii "ServerResponse", ascii "101")] := by decide +kernel
  have hlines := readLines_fields hfirst (by decide) (by decide) (by decide)
    (responseFields_oneLine hhash key)
  have hread : (responseFields getBase64Hash key).map (fun field => readField (fieldLine field)) =
      [(ascii "upgrade", ascii "websocket"), (ascii "connection", ascii "Upgrade"),
        (ascii "sec-websocket-accept", getAcceptKey getBase64Hash key),
        (ascii "sec-websocket-protocol", ascii "LuBinary")] := by
    simp only [responseFields, List.map_cons, List.map_nil]
    rw [readField_fieldLine (by decide), readField_fieldLine (by decide),
      readField_fieldLine (by decide), readField_fieldLine (by decide)]
    rfl
  rw [hread] at hlines
  generalize hkeyValue : emplaceAll _ _ = keyValue at hlines
  have hfind : ∀ sought, keyValue.find sought = _ := fun sought => by
    rw [← hkeyValue, find_emplaceAll]
  have hupgrade : keyValue.find (ascii "upgrade") = some (ascii "websocket") := hfind _
  have hconnection : keyValue.find (ascii "connection") = some (ascii "Upgrade") := hfind _
  have haccept : keyValue.find (ascii "sec-websocket-accept") =
      some (getAcceptKey getBase64Hash key) := hfind _
  have hprotocol : keyValue.find (ascii "sec-websocket-protocol") = some (ascii "LuBinary") :=
    hfind _
  have htcp : (ascii "websocket" == ascii "tcp") = false := by decide
  have hlower : ((some (ascii "Upgrade")).map toLower != some (ascii "upgrade")) = false := by decide
  obtain ⟨value, parser, hnext⟩ : ∃ value parser,
      (DelimiterTextParser.ofString (ascii "LuBinary") (ascii ", ")).next = .ok (value, parser) :=
    ⟨_, _, rfl⟩
  obtain ⟨first, rest, hcons⟩ : ∃ first rest, ascii "LuBinary" = first :: rest := ⟨_, _, rfl⟩
  rw [hcons] at hprotocol hnext
  refine ⟨⟨collect DelimiterTextParser.next List.isEmpty ((first :: rest).length + 1) value parser,
    keyValue⟩, ?_, ?_⟩
  · rw [readServerResponse, webSocketResponse, hlines]
    simp only [acceptResponse, hupgrade, htcp, hconnection, hlower, hprotocol, hnext, acceptKey,
      haccept, bne_self_eq_false, beq_self_eq_true, Bool.false_eq_true, if_false]
  · rw [HandshakeSeverResponse.getUpgrade, hupgrade]
    rfl

end Response

/-! ### Agreement -/

/-- The server answers the request, the client accepts the answer, and both go on in one mode. -/
def Agrees (getBase64Hash : List UInt8 → List UInt8) (handshakeInfo : InitialRequestInfo)
    (key : List UInt8) : Prop :=
  ∃ request response reply,
    answerRequest getBase64Hash (createHandShakeRequest handshakeInfo key) =
      .ok (request, response) ∧ response ≠ [] ∧
    readServerResponse getBase64Hash response key = .ok (reply, true) ∧
    reply.getUpgrade = request.upgrade

/-- A client that asks for frames is answered exactly if the server's protocol is reached. -/
theorem answerRequest_protocols (getBase64Hash : List UInt8 → List UInt8)
    {handshakeInfo : InitialRequestInfo} {key : List UInt8} (h : WellFormed handshakeInfo key)
    (htcp : handshakeInfo.upgrade ≠ ascii "tcp") :
    (ProtocolReached (ascii "LuBinary") handshakeInfo.protocols →
      ∃ request : HandshakeRequest, request.upgrade = ascii "websocket" ∧
        answerRequest getBase64Hash (createHandShakeRequest handshakeInfo key) =
          .ok (request, webSocketResponse getBase64Hash key)) ∧
    (¬ ProtocolReached (ascii "LuBinary") handshakeInfo.protocols → ∀ request response,
      answerRequest getBase64Hash (createHandShakeRequest handshakeInfo key) =
        .ok (request, response) → response = []) := by
  have hasked := requestKeyValue_asked h
  have hupgrade : (if handshakeInfo.upgrade.isEmpty then ascii "websocket"
      else handshakeInfo.upgrade) = ascii "websocket" := by
    obtain hempty | hsocket | htcp' := h.upgrade
    · rw [hempty]
      rfl
    · rw [hsocket]
      rfl
    · exact absurd htcp' htcp
  rw [hupgrade] at hasked
  have hsome := List.ne_nil_of_mem h.luBinary
  have hitems : ∀ t ∈ handshakeInfo.protocols, t ≠ [] ∧ Unbroken t := fun t ht =>
    ⟨(h.protocols t ht).1, (h.protocols t ht).2.1⟩
  have hlist : List.intercalate separator handshakeInfo.protocols ≠ [] := by
    obtain ⟨item, items, hcons⟩ := List.exists_cons_of_ne_nil hsome
    intro hnil
    rw [hcons] at hnil
    exact (hitems item (by simp [hcons])).1 (eq_nil_of_intercalate hnil)
  have hnot : (ascii "websocket" == ascii "tcp") = false := by decide
  rw [answerRequest, getResponse, readLines_request h]
  simp only
  rw [answer_webSocket hasked hlist]
  exact @answerWebSocket_protocols getBase64Hash
    { keyValue := requestKeyValue handshakeInfo key, upgrade := ascii "websocket", key } hnot _
    hsome hitems

/-- The two ends agree exactly if the client asks for TCP, or the server's protocol is reached in its
list before an item that stands for nothing and before a NUL. -/
theorem agrees_iff {getBase64Hash : List UInt8 → List UInt8}
    (hhash : ∀ text, OneLine (getBase64Hash text)) {handshakeInfo : InitialRequestInfo}
    {key : List UInt8} (h : WellFormed handshakeInfo key) :
    Agrees getBase64Hash handshakeInfo key ↔
      handshakeInfo.upgrade = ascii "tcp" ∨
        ProtocolReached (ascii "LuBinary") handshakeInfo.protocols := by
  unfold Agrees
  by_cases htcp : handshakeInfo.upgrade = ascii "tcp"
  · have hasked := requestKeyValue_asked h
    have hrequest : answerRequest getBase64Hash (createHandShakeRequest handshakeInfo key) =
        answer getBase64Hash (ascii "LuBinary") [13] (requestKeyValue handshakeInfo key) := by
      rw [answerRequest, getResponse, readLines_request h]
    rw [htcp, if_neg (by decide)] at hasked
    obtain ⟨reply, hreply, hupgrade⟩ := @readServerResponse_tcp getBase64Hash key
    rw [hrequest]
    exact iff_of_true ⟨_, _, reply, answer_tcp hasked, by decide, hreply, hupgrade⟩ (.inl htcp)
  · obtain ⟨hreached, hmissed⟩ := answerRequest_protocols getBase64Hash h htcp
    constructor
    · rintro ⟨request, response, _, hanswer, hne, _⟩
      by_contra hnot
      exact hne (hmissed (fun hr => hnot (.inr hr)) request response hanswer)
    · rintro (h' | hr)
      · exact absurd h' htcp
      · obtain ⟨request, hrequest, hanswer⟩ := hreached hr
        obtain ⟨reply, hreply, hupgrade⟩ := readServerResponse_webSocket hhash key
        exact ⟨request, _, reply, hanswer, webSocketResponse_ne key, hreply,
          hupgrade.trans hrequest.symm⟩

/-- What a client asks for that speaks `protocols` and has nothing else to say. -/
def exampleInfo (protocols : List (List UInt8)) : InitialRequestInfo where
  resourceName := RESOURCE
  host := ascii "localhost"
  upgrade := []
  origin := []
  wsVersion := ascii "13"
  extensions := []
  protocols
  headers := []

theorem exampleInfo_wellFormed {protocols : List (List UInt8)}
    (hmem : ascii "LuBinary" ∈ protocols)
    (hprotocols : ∀ protocol ∈ protocols, protocol ≠ [] ∧ Unbroken protocol ∧ OneLine protocol) :
    WellFormed (exampleInfo protocols) (ascii "dGhlIHNhbXBsZQ==") where
  resourceName := rfl
  upgrade := .inl rfl
  wsVersion := rfl
  luBinary := hmem
  protocols := hprotocols
  host := show OneLine (ascii "localhost") by decide
  origin := show OneLine [] by decide
  extensions := show OneLine [] by decide
  headers := fun header hheader => absurd hheader List.not_mem_nil
  key := by decide

theorem agrees_iff_example :
    Agrees (fun _ => []) (exampleInfo [ascii "LuBinary"]) (ascii "dGhlIHNhbXBsZQ==") ↔
      (exampleInfo [ascii "LuBinary"]).upgrade = ascii "tcp" ∨
        ProtocolReached (ascii "LuBinary") (exampleInfo [ascii "LuBinary"]).protocols :=
  agrees_iff (fun _ => by decide) (exampleInfo_wellFormed (by decide) (by decide))

/-- A protocol `null` hides the ones behind it. -/
theorem null_protocol_refused :
    WellFormed (exampleInfo [ascii "null", ascii "LuBinary"]) (ascii "dGhlIHNhbXBsZQ==") ∧
      ¬ Agrees (fun _ => []) (exampleInfo [ascii "null", ascii "LuBinary"])
        (ascii "dGhlIHNhbXBsZQ==") := by
  refine ⟨exampleInfo_wellFormed (by decide) (by decide), ?_⟩
  rintro ⟨request, response, _, hanswer, hne, _⟩
  have hrefused : (answerRequest (fun _ => []) (createHandShakeRequest
      (exampleInfo [ascii "null", ascii "LuBinary"]) (ascii "dGhlIHNhbXBsZQ=="))).result?.all
      (fun answer => answer.2.isEmpty) = true := by decide +kernel
  rw [hanswer] at hrefused
  exact hne (by simpa [Outcome.result?] using hrefused)

end LuPlatform.Socket
