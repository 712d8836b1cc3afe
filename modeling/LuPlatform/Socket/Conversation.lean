import LuPlatform.Socket.ConnectionStops
import LuPlatform.Socket.HandshakeChunking
import LuPlatform.Websocket.FrameRoundTrip

/-! A whole conversation with a server socket: the request, and the frames behind it. Where a message
fits in a quarter of the buffer, a run of the receive loop is one run of the decoder, whatever the cut
of the bytes. A close frame that comes in pieces stops the socket on the way; nothing else does that
the decoder accepts. -/

namespace LuPlatform

namespace Websocket.Frame

open Feed

/-- What a reading frame waits for, it has room for. -/
theorem need_le {f : Frame} {n : Nat} (h : f.need = some n) : n ≤ max 8 f.maxAllowedMessageSize := by
  unfold need at h
  split at h
  case h_5 => cases h
  all_goals
    obtain rfl := Option.some.inj h
    first | omega | (split <;> omega)

/-- The header that was read is that of a close frame. -/
structure Closing (f : Frame) : Prop where
  opCode : f.opCode = .close
  header : f.processingState ≠ .readHeader

theorem reader_opCode {f : Frame} (h : f.processingState ≠ .readHeader) (d : SocketData) :
    (f.reader d).2.2 = .done ∧ (f.reader d).1.isValid = false ∨ (f.reader d).1.opCode = f.opCode := by
  unfold reader
  split
  case h_1 hstate => exact absurd hstate h
  case h_2 =>
    unfold readFramePayloadLength setError
    grind
  case h_3 =>
    unfold readFrameMask
    grind
  case h_4 =>
    unfold readFramePayload setError
    grind
  case h_5 => exact .inr rfl

/-- A close frame stays one until it is reported or refused, and a refused one is left as it is. -/
theorem consume_closing {f : Frame} {n : Nat} (hn : f.need = some n) (h : f.Closing)
    (bytes : List UInt8) :
    (f.consume bytes).1.Closing ∨ ∃ closeCode, .onClose closeCode ∈ (f.consume bytes).2 := by
  have hkept := reader_kept hn (.new bytes)
  have hopCode := reader_opCode h.header (.new bytes)
  rcases hreader : f.reader (.new bytes) with ⟨g, d, next⟩
  rw [hreader] at hkept hopCode
  rw [consume, hreader]
  by_cases hnext : next = .done
  · subst hnext
    change (settle (g.enter .done) d).1.Closing ∨
      ∃ closeCode, .onClose closeCode ∈ (settle (g.enter .done) d).2
    cases hvalid : (g.enter .done).isValid with
    | false =>
      rw [settle_refused hvalid]
      exact .inl ⟨rfl, by simp [enter]⟩
    | true =>
      have hclose : g.opCode = .close := by
        rcases hopCode with ⟨_, hinvalid⟩ | hsame
        · exact absurd (hinvalid.symm.trans hvalid) (by simp)
        · exact hsame.trans h.opCode
      have hcontrol : (g.enter .done).isControlFrame = true := by
        simp [isControlFrame, enter, hclose, OpCode.value]
      refine .inr ⟨receivedCloseCode (g.enter .done).length d.unread, ?_⟩
      rw [settle_control hvalid hcontrol]
      simp [processControlFrame, enter, hclose]
  · have hsame : g.opCode = .close := by
      rcases hopCode with ⟨hdone, _⟩ | hsame
      · exact absurd hdone hnext
      · exact hsame.trans h.opCode
    have hclosing : (g.enter next).Closing := ⟨hsame, hkept.next_ne⟩
    cases next <;> first | exact absurd rfl hnext | exact .inl hclosing

theorem feeds_closing {f g : Frame} {bytes rest : List UInt8} {events : List FrameEvent}
    (hfeeds : Feeds decoder f bytes events g rest) (h : f.Closing) :
    g.Closing ∨ ∃ closeCode, .onClose closeCode ∈ events := by
  induction hfeeds with
  | starve _ => exact .inl h
  | take hn _ _ ih =>
    rcases consume_closing hn h _ with hnext | ⟨closeCode, hmem⟩
    · rcases ih hnext with hlast | ⟨closeCode, hmem⟩
      · exact .inl hlast
      · exact .inr ⟨closeCode, List.mem_append_right _ hmem⟩
    · exact .inr ⟨closeCode, List.mem_append_left _ hmem⟩

/-- Where nothing is refused, a call that is left with the opcode of a close frame has begun one. -/
theorem feeds_close {f : Frame} {maxAllowedMessageSize : Nat} {bytes : List UInt8}
    {events : List FrameEvent} (hf : Unfragmented maxAllowedMessageSize f)
    (h : Feeds decoder f bytes events (new maxAllowedMessageSize) []) (hclose : f.opCode = .close) :
    ∃ closeCode, .onClose closeCode ∈ events := by
  have hheader : f.processingState ≠ .readHeader := by
    intro hstate
    rw [hf.fresh hstate] at hclose
    cases hclose
  rcases feeds_closing h ⟨hclose, hheader⟩ with hlast | hreported
  · exact absurd rfl hlast.header
  · exact hreported

/-- A frame that waits has fewer bytes before it than it can be asked to hold. -/
theorem starved_lt {f : Frame} {maxAllowedMessageSize left : Nat}
    (hf : Unfragmented maxAllowedMessageSize f) (hresting : f.Resting)
    (hstarved : decoder.Starved f left) : left < max 8 maxAllowedMessageSize := by
  obtain ⟨n, hn⟩ := hresting.1.need
  have hmissing := hstarved n hn
  have hneed := need_le hn
  rw [hf.maxAllowed] at hneed
  omega

/-- A call in the middle of a run that ends with a new frame: it makes the next callbacks of the run,
and what it leaves is where the run goes on. -/
theorem processMessage_goesOn {f : Frame} {maxAllowedMessageSize : Nat} {bytes later : List UInt8}
    {events : List FrameEvent} (hf : Unfragmented maxAllowedMessageSize f) (hresting : f.Resting)
    (h : Feeds decoder f (bytes ++ later) events (new maxAllowedMessageSize) []) :
    ∃ p exit rest, f.processMessage (.new bytes) = some (p, exit) ∧
      Inside (.new bytes) p.socketData ∧ Unfragmented maxAllowedMessageSize p.frame ∧
      p.frame.Resting ∧ decoder.Starved p.frame p.socketData.unread.length ∧
      events = p.events ++ rest ∧
      Feeds decoder p.frame (p.socketData.unread ++ later) rest (new maxAllowedMessageSize) [] := by
  obtain ⟨p, exit, hcall, hin, hreturns⟩ :=
    processMessage_feeds (d := .new bytes) hresting (Nat.zero_le _)
  obtain ⟨left, hfeeds, hleft⟩ := hreturns.feeds
  rw [SocketData.unread_new] at hfeeds
  obtain ⟨rest, hevents, hresume⟩ := hfeeds.resume h
  have hexit : exit = .needData := by
    by_contra hne
    have hdone := (hreturns.stale hne).1
    obtain ⟨_, hnew, _⟩ := hresume.unique (.starve (starved_done hdone _))
    rw [← hnew] at hdone
    cases hdone
  have hframe : Unfragmented maxAllowedMessageSize p.frame :=
    hfeeds.invariant _ (fun _ _ items hn hf => consume_unfragmented hn hf items) hf
  have hstarved := hfeeds.starved
  rw [hleft hexit] at hresume hstarved
  exact ⟨p, exit, rest, hcall, hin, hframe, hreturns.resting hexit, hstarved, hevents, hresume⟩

end Websocket.Frame

namespace Socket

open Bytes Feed Websocket Receiver

namespace Receiver

section Frames

variable {status : Type} {readMessages : SessionSocket status → Option (SessionSocket status)}
variable {mode : status} {MaxMessageSize : Nat} {s : SessionSocket status}

/-- What the socket sends and calls, besides its stops. -/
def calls (s : SessionSocket status) : List (SocketEvent FrameEvent) := s.events.filter (· ≠ .stop)

theorem calls_events {t : SessionSocket status} {events : List FrameEvent} {stopped : Bool}
    (h : t.events = s.events ++ (events.map .onFrame ++ if stopped then [.stop] else [])) :
    t.calls = s.calls ++ events.map .onFrame := by
  have hall : (events.map SocketEvent.onFrame).filter (· ≠ .stop) = events.map .onFrame := by
    rw [List.filter_eq_self]
    intro event hmem
    obtain ⟨event, -, rfl⟩ := List.mem_map.mp hmem
    rfl
  rw [calls, h, List.filter_append, List.filter_append, hall]
  cases stopped <;> simp [calls]

/-- What a call of `processMessage` leaves in the buffer. -/
theorem processFrames_spec {p : Processing} {exit : Exit}
    (hinside : s.readOffset + s.numberOfBytesLeftToRead ≤ s.buffer.length)
    (hcall : s.own.frame.processMessage (.new s.unread) = some (p, exit))
    (hin : Frame.Inside (.new s.unread) p.socketData) :
    ∃ t, s.processFrames = some t ∧ Consumes s t ∧ t.own = { s.own with frame := p.frame } ∧
      t.unread = p.socketData.unread ∧ t.events = s.events ++ (p.events.map .onFrame ++
        if p.frame.opCode == .close then [.stop] else []) := by
  have hlength := length_unread hinside
  have hdata : p.socketData.data.length = s.numberOfBytesLeftToRead := hin.length_eq.trans hlength
  have hoffset : p.socketData.readOffset ≤ s.numberOfBytesLeftToRead := hdata ▸ hin.offset_le
  have hfront : (s.buffer.take s.readOffset).length = s.readOffset := by
    rw [List.length_take]
    omega
  simp only [processFrames, hcall]
  generalize ht : updateForDataRead _ p.socketData.readOffset = t
  have hspec : Consumes s t ∧ t.own = { s.own with frame := p.frame } ∧
      t.unread = p.socketData.unread ∧ t.events = s.events ++ p.events.map .onFrame := by
    subst ht
    refine ⟨⟨?_, rfl, ?_⟩, rfl, ?_, rfl⟩
    · simp only [updateForDataRead, List.length_append, List.length_take, List.length_drop, hdata]
      omega
    · simp only [updateForDataRead]
      omega
    · rw [unread_updateForDataRead, SocketData.unread, unread]
      simp only
      rw [List.append_assoc, List.drop_left' hfront, ← hdata, List.take_left]
  obtain ⟨hconsumes, hown, hunread, hevents⟩ := hspec
  split
  · exact ⟨t.raise .stop, rfl, hconsumes.raise .stop, hown, hunread, by simp [raise, hevents]⟩
  · exact ⟨t, rfl, hconsumes, hown, hunread, by simp [hevents]⟩

variable (MaxMessageSize mode) in
/-- A framed socket between two calls of `recv`: the window ends with the buffer, and the frame cannot
move without another byte. -/
structure Awaiting (s : SessionSocket status) : Prop where
  socketStatus : s.own.socketStatus = mode
  window : s.windowEnd = s.buffer.length
  frame : Frame.Unfragmented MaxMessageSize s.own.frame
  resting : s.own.frame.Resting
  starved : Frame.decoder.Starved s.own.frame s.unread.length

theorem awaiting_new (hstatus : s.own.socketStatus = mode) (hwindow : s.windowEnd = s.buffer.length)
    (hframe : s.own.frame = .new MaxMessageSize) (hunread : s.unread = []) :
    s.Awaiting mode MaxMessageSize := by
  have hnew := Frame.new_resting MaxMessageSize
  refine ⟨hstatus, hwindow, ?_, ?_, ?_⟩ <;> rw [hframe]
  · exact ⟨rfl, fun _ => rfl, fun _ => rfl⟩
  · exact hnew
  · rw [hunread]
    exact hnew.starved

/-- What `recv` was asked for has room where the window ends with the buffer. -/
theorem fill_window {bytes : List UInt8} (hwindow : s.windowEnd = s.buffer.length)
    (hasked : bytes.length ≤ s.numberOfBytesLeftToRecv) :
    ∃ t, s.fill bytes = some t ∧ t.unread = s.unread ++ bytes ∧
      t.buffer.length = s.buffer.length ∧ t.own = s.own ∧ t.events = s.events ∧
      t.readOffset + t.numberOfBytesLeftToRead ≤ t.buffer.length := by
  unfold windowEnd at hwindow
  obtain ⟨t, hfill⟩ : ∃ t, s.fill bytes = some t := fill_isSome (by omega)
  have hunread := unread_fill hfill
  have hlength := length_buffer_fill hfill
  obtain ⟨hroom, rfl⟩ := fill_eq_some hfill
  refine ⟨_, hfill, hunread, hlength, rfl, rfl, ?_⟩
  rw [hlength]
  simp only
  omega

/-- One round is the next part of the run of the decoder over what is still to come. -/
theorem receiveRound_feeds
    (hread : ∀ t : SessionSocket status, t.own.socketStatus = mode → readMessages t = t.processFrames)
    (hs : s.Awaiting mode MaxMessageSize) (hsize : max 8 MaxMessageSize ≤ s.buffer.length / 4)
    {bytes later : List UInt8} {events : List FrameEvent}
    (hasked : bytes.length ≤ s.numberOfBytesLeftToRecv)
    (h : Feeds Frame.decoder s.own.frame (s.unread ++ bytes ++ later) events
      (.new MaxMessageSize) []) :
    ∃ t first rest, s.receiveRound readMessages bytes = some t ∧ t.Awaiting mode MaxMessageSize ∧
      t.buffer.length = s.buffer.length ∧ t.calls = s.calls ++ first.map .onFrame ∧
      (.stop ∈ t.events → .stop ∈ s.events ∨ ∃ closeCode, .onClose closeCode ∈ events) ∧
      events = first ++ rest ∧
      Feeds Frame.decoder t.own.frame (t.unread ++ later) rest (.new MaxMessageSize) [] := by
  obtain ⟨t, hfill, hunread, hlength, hown, hbefore, hinside⟩ := fill_window hs.window hasked
  rw [← hunread] at h
  obtain ⟨p, exit, rest, hcall, hin, hframe, hresting, hstarved, hevents, hresume⟩ :=
    Frame.processMessage_goesOn hs.frame hs.resting h
  obtain ⟨u, hframes, hconsumes, hown', hunread', hevents'⟩ :=
    processFrames_spec hinside (by rw [hown]; exact hcall) hin
  rw [hbefore, ← (rewind_own u).2] at hevents'
  have hinside' : u.readOffset + u.numberOfBytesLeftToRead ≤ u.buffer.length := by
    rw [hconsumes.end_eq, hconsumes.length_buffer]
    exact hinside
  have hquarter : u.numberOfBytesLeftToRead ≤ u.receiveBufferShiftSize := by
    have hmissing := Frame.starved_lt hframe hresting hstarved
    rw [← hunread', length_unread hinside'] at hmissing
    rw [receiveBufferShiftSize, hconsumes.length_buffer, hlength]
    omega
  obtain ⟨hlength', hoffset, hcount, hrecv, hunread'', hown'', -⟩ := rewind_front hinside' hquarter
  have hround : s.receiveRound readMessages bytes = some u.rewind := by
    have hstatus : t.own.socketStatus = mode := by rw [hown, hs.socketStatus]
    simp [receiveRound, hfill, hread t hstatus, hframes]
  have hkept : u.rewind.own.frame = p.frame := by rw [hown'', hown']
  refine ⟨u.rewind, p.events, rest, hround, ⟨?_, ?_, ?_, ?_, ?_⟩, ?_, calls_events hevents', ?_,
    hevents, ?_⟩
  · rw [hown'', hown', hown]
    exact hs.socketStatus
  · rw [windowEnd, hoffset, hcount, hrecv, hlength']
    omega
  · exact hkept ▸ hframe
  · exact hkept ▸ hresting
  · rw [hkept, hunread'', hunread']
    exact hstarved
  · rw [hlength', hconsumes.length_buffer, hlength]
  · intro hstop
    by_cases hclose : p.frame.opCode = .close
    · obtain ⟨closeCode, hmem⟩ := Frame.feeds_close hframe hresume hclose
      exact .inr ⟨closeCode, hevents ▸ List.mem_append_right _ hmem⟩
    · refine .inl ?_
      simpa [hevents', hclose] using hstop
  · rw [hkept, hunread'', hunread']
    exact hresume

/-- However the bytes are cut, the callbacks are those of the run. -/
theorem receive_feeds
    (hread : ∀ t : SessionSocket status, t.own.socketStatus = mode → readMessages t = t.processFrames)
    (hs : s.Awaiting mode MaxMessageSize) (hsize : max 8 MaxMessageSize ≤ s.buffer.length / 4)
    {chunks : List (List UInt8)} {events : List FrameEvent}
    (hdelivered : s.Delivered readMessages chunks)
    (h : Feeds Frame.decoder s.own.frame (s.unread ++ chunks.flatten) events
      (.new MaxMessageSize) []) :
    ∃ t, s.receive readMessages chunks = some t ∧ t.Awaiting mode MaxMessageSize ∧
      t.unread = [] ∧ t.calls = s.calls ++ events.map .onFrame ∧
      (.stop ∈ t.events → .stop ∈ s.events ∨ ∃ closeCode, .onClose closeCode ∈ events) := by
  induction chunks generalizing s events with
  | nil =>
    rw [List.flatten_nil, List.append_nil] at h
    obtain ⟨rfl, -, hunread⟩ := h.unique (.starve hs.starved)
    exact ⟨s, rfl, hs, hunread.symm, (List.append_nil _).symm, .inl⟩
  | cons bytes chunks ih =>
    obtain ⟨-, hasked, hlater⟩ := hdelivered
    rw [List.flatten_cons, ← List.append_assoc] at h
    obtain ⟨t, first, rest, hround, ht, hlength, hcalls, hstop, rfl, hrest⟩ :=
      receiveRound_feeds hread hs hsize hasked h
    obtain ⟨u, hrun, hu, hunread, hcalls', hstop'⟩ := ih ht (hlength ▸ hsize) (hlater t hround) hrest
    refine ⟨u, (receive_cons hround chunks).trans hrun, hu, hunread, ?_, fun hmem => ?_⟩
    · rw [hcalls', hcalls, List.map_append, List.append_assoc]
    · rcases hstop' hmem with hearlier | ⟨closeCode, hclose⟩
      · exact hstop hearlier
      · exact .inr ⟨closeCode, List.mem_append_right _ hclose⟩

theorem Delivered.later {σ ε : Type} {readMessages : Receiver σ ε → Option (Receiver σ ε)}
    {s t : Receiver σ ε} {chunks later : List (List UInt8)}
    (h : s.Delivered readMessages (chunks ++ later))
    (hrun : s.receive readMessages chunks = some t) : t.Delivered readMessages later := by
  induction chunks generalizing s with
  | nil => exact Option.some.inj hrun ▸ h
  | cons bytes chunks ih =>
    obtain ⟨u, hround, hrun⟩ := Option.bind_eq_some_iff.mp hrun
    exact ih (h.2.2 u hround) hrun

end Frames

end Receiver

/-! ### From the request on -/

/-- A request that is met, in pieces of which the last one holds the ends of all lines. -/
structure Met (getBase64Hash : List UInt8 → List UInt8) (pieces : List (List UInt8))
    (request : HandshakeRequest) (response : List UInt8) : Prop where
  ends : EndsWithFirstEmptyLine pieces.flatten
  answer : answerRequest getBase64Hash pieces.flatten = .ok (request, response)
  response_ne : response ≠ []
  pieces_ne : ∀ bytes ∈ pieces, bytes ≠ []
  lines : NoLineBeforeLast pieces

/-- On `chunks` the socket sends its part of the handshake, calls `onOpen` and then back for `events`,
and ends in `mode` with nothing left over. It is stopped only where a close frame is among the events. -/
def Converses {status : Type}
    (readMessages : SessionSocket status → Option (SessionSocket status))
    (socket : SessionSocket status) (chunks : List (List UInt8)) (mode : status)
    (sent : List UInt8) (events : List FrameEvent) : Prop :=
  ∃ s, socket.receive readMessages chunks = some s ∧ s.own.socketStatus = mode ∧ s.unread = [] ∧
    s.calls = .send sent :: .onOpen :: events.map .onFrame ∧
    (.stop ∈ s.events → ∃ closeCode, .onClose closeCode ∈ events)

section Conversation

variable {status : Type} {getBase64Hash : List UInt8 → List UInt8} {connecting : status}
variable {connectedAs : HandshakeRequest → status}
variable {readMessages : SessionSocket status → Option (SessionSocket status)}
variable {MaxMessageSize bufferSize : Nat} {pieces chunks : List (List UInt8)}
variable {request : HandshakeRequest} {response : List UInt8} {events : List FrameEvent}

theorem length_opened {text : List UInt8} (hfits : text.length ≤ bufferSize)
    (called : List (SocketEvent FrameEvent)) :
    (opened MaxMessageSize bufferSize connectedAs request response text called).buffer.length =
      bufferSize := by
  simp only [opened, List.length_append, List.length_replicate]
  omega

theorem opened_awaiting {text : List UInt8} (hfits : text.length ≤ bufferSize)
    (called : List (SocketEvent FrameEvent)) :
    (opened MaxMessageSize bufferSize connectedAs request response text called).Awaiting
      (connectedAs request) MaxMessageSize := by
  refine awaiting_new rfl ?_ rfl rfl
  rw [length_opened hfits]
  exact Nat.zero_add _

theorem Met.receive (h : Met getBase64Hash pieces request response)
    (hserves : ServesHandshake getBase64Hash connecting connectedAs readMessages)
    (hfits : pieces.flatten.length ≤ bufferSize / 4) :
    (waiting connecting MaxMessageSize bufferSize [] 0 []).receive readMessages pieces =
      some (opened MaxMessageSize bufferSize connectedAs request response pieces.flatten []) := by
  obtain ⟨-, hfirst⟩ | ⟨⟨i, hi⟩, -⟩ := receive_first_line MaxMessageSize hserves h.ends hfits
    h.answer h.pieces_ne (fun i hi => absurd hi.end_le (by simp)) (List.nil_append _)
  · have hresponse : ¬ response.isEmpty = true := by simpa using h.response_ne
    rw [hfirst, answered, if_neg hresponse]
  · exact absurd hi (h.lines i)

/-- The bytes that arrive next are as many as `recv` is asked for. -/
theorem Met.delivered {text bytes : List UInt8} (h : Met getBase64Hash [text] request response)
    (hserves : ServesHandshake getBase64Hash connecting connectedAs readMessages)
    (hfits : text.length ≤ bufferSize / 4) (hpos : 1 ≤ bytes.length)
    (hasked : bytes.length ≤ bufferSize) :
    (waiting connecting MaxMessageSize bufferSize [] 0 []).Delivered readMessages [text, bytes] := by
  have hfirst : (waiting connecting MaxMessageSize bufferSize [] 0 []).receive readMessages [text] =
      some (opened MaxMessageSize bufferSize connectedAs request response [text].flatten []) :=
    h.receive hserves (by rwa [List.flatten_singleton])
  have hpiece := List.length_pos_iff.mpr (h.pieces_ne text (List.mem_singleton_self text))
  refine ⟨hpiece, ?_, fun s hround => ⟨hpos, ?_, fun _ _ => trivial⟩⟩
  · simp only [waiting, List.length_nil]
    omega
  · rw [receive_cons hround] at hfirst
    obtain rfl := Option.some.inj hfirst
    exact hasked

/-- Behind the request, bytes whose run of the decoder ends where it began. -/
theorem Met.converses (h : Met getBase64Hash pieces request response)
    (hserves : ServesHandshake getBase64Hash connecting connectedAs readMessages)
    (hread : ∀ t : SessionSocket status, t.own.socketStatus = connectedAs request →
      readMessages t = t.processFrames)
    (hfits : max pieces.flatten.length MaxMessageSize ≤ bufferSize / 4) (hbuffer : 8 ≤ bufferSize / 4)
    (hdelivered : (waiting connecting MaxMessageSize bufferSize [] 0 []).Delivered readMessages
      (pieces ++ chunks))
    (hfeeds : Feeds Frame.decoder (.new MaxMessageSize) chunks.flatten events
      (.new MaxMessageSize) []) :
    Converses readMessages (waiting connecting MaxMessageSize bufferSize [] 0 []) (pieces ++ chunks)
      (connectedAs request) response events := by
  have hfirst : (waiting connecting MaxMessageSize bufferSize [] 0 []).receive readMessages pieces =
      some (opened MaxMessageSize bufferSize connectedAs request response pieces.flatten []) :=
    h.receive hserves (by omega)
  have hawaiting : (opened MaxMessageSize bufferSize connectedAs request response pieces.flatten
      []).Awaiting (connectedAs request) MaxMessageSize := opened_awaiting (by omega) []
  have hlength : (opened MaxMessageSize bufferSize connectedAs request response pieces.flatten
      []).buffer.length = bufferSize := length_opened (by omega) []
  obtain ⟨s, hrun, hs, hunread, hcalls, hstop⟩ := receive_feeds hread hawaiting (by omega)
    (hdelivered.later hfirst) hfeeds
  refine ⟨s, ?_, hs.socketStatus, hunread, hcalls, fun hmem => (hstop hmem).resolve_left ?_⟩
  · rw [receive_append, hfirst]
    exact hrun
  · simp [opened]

end Conversation

section Servers

variable {getBase64Hash : List UInt8 → List UInt8} {handler : DataHandler} {MaxMessageSize : Nat}
variable {pieces chunks : List (List UInt8)} {request : HandshakeRequest} {response : List UInt8}

variable (getBase64Hash handler MaxMessageSize pieces chunks request response) in
/-- Both server sockets converse in this way, the one that can also speak TCP if it is asked for
frames. The request and the largest message fit in a quarter of the buffer. -/
structure ServersConverse (events : List FrameEvent) : Prop where
  hbDataSocket : connectedAs request.upgrade = .connectedAsWebSocket →
    max pieces.flatten.length MaxMessageSize ≤ HBDataSocket.BUFFER_SIZE MaxMessageSize / 4 →
    (HBDataSocket.new MaxMessageSize).Delivered
      (HBDataSocket.readMessages getBase64Hash handler) (pieces ++ chunks) →
    Converses (HBDataSocket.readMessages getBase64Hash handler) (HBDataSocket.new MaxMessageSize)
      (pieces ++ chunks) .connectedAsWebSocket response events
  webSocket : max pieces.flatten.length MaxMessageSize ≤ WebSocket.BUFFER_SIZE / 4 →
    (WebSocket.new MaxMessageSize).Delivered (WebSocket.readMessages getBase64Hash)
      (pieces ++ chunks) →
    Converses (WebSocket.readMessages getBase64Hash) (WebSocket.new MaxMessageSize)
      (pieces ++ chunks) .connected response events

theorem Met.serversConverse (h : Met getBase64Hash pieces request response)
    (hheader : 0 < handler.getHeaderSize) {events : List FrameEvent}
    (hfeeds : Feeds Frame.decoder (.new MaxMessageSize) chunks.flatten events
      (.new MaxMessageSize) []) :
    ServersConverse getBase64Hash handler MaxMessageSize pieces chunks request response events where
  hbDataSocket hupgrade hfits hdelivered := by
    have hbuffer : RECV_BUFFER_SIZE ≤ HBDataSocket.BUFFER_SIZE MaxMessageSize := Nat.le_max_right _ _
    have hrecv : RECV_BUFFER_SIZE = 6000 := rfl
    rw [HBDataSocket.new, new_waiting] at hdelivered ⊢
    rw [← hupgrade]
    exact h.converses (hbDataSocket_serves getBase64Hash hheader)
      (fun t ht => readMessagesWith_reads (ht.trans hupgrade)) hfits (by omega) hdelivered hfeeds
  webSocket hfits hdelivered := by
    rw [WebSocket.new, new_waiting] at hdelivered ⊢
    exact h.converses (webSocket_serves getBase64Hash) (fun t ht => webSocket_reads ht) hfits
      (by decide) hdelivered hfeeds

theorem plainRequest_met : ∃ request response, Met (fun _ => []) [plainRequest] request response ∧
    connectedAs request.upgrade = .connectedAsWebSocket := by
  obtain ⟨request, response, hanswer, hresponse, hupgrade⟩ := plainRequest_answer
  have hone : [plainRequest].flatten = plainRequest := List.flatten_singleton
  refine ⟨request, response, ⟨?_, ?_, hresponse, by decide +kernel, ?_⟩, hupgrade⟩
  · rw [hone]
    exact endsWithFirstEmptyLine_iff.mpr (by decide +kernel)
  · rw [hone]
    exact hanswer
  · exact fun i hi => absurd hi.end_le (by simp)

/-- What follows `plainRequest` in one chunk comes within a quarter of either buffer. -/
theorem ServersConverse.plain {bytes : List UInt8} {events : List FrameEvent}
    (h : ServersConverse (fun _ => []) String.handler 125 [plainRequest] [bytes] request response events)
    (hmet : Met (fun _ => []) [plainRequest] request response)
    (hupgrade : connectedAs request.upgrade = .connectedAsWebSocket)
    (hpos : 1 ≤ bytes.length) (hshort : bytes.length ≤ 1500) :
    Converses (HBDataSocket.readMessages (fun _ => []) String.handler) (HBDataSocket.new 125)
        [plainRequest, bytes] .connectedAsWebSocket response events ∧
      Converses (WebSocket.readMessages fun _ => []) (WebSocket.new 125) [plainRequest, bytes]
        .connected response events := by
  have hlength : plainRequest.length ≤ 1000 := by decide +kernel
  have hone : [plainRequest].flatten = plainRequest := List.flatten_singleton
  have hsize : RECV_BUFFER_SIZE ≤ HBDataSocket.BUFFER_SIZE 125 := Nat.le_max_right _ _
  have hrecv : RECV_BUFFER_SIZE = 6000 := rfl
  have hbuffer : WebSocket.BUFFER_SIZE = 819204 := rfl
  refine ⟨h.hbDataSocket hupgrade (by rw [hone]; omega) ?_, h.webSocket (by rw [hone]; omega) ?_⟩
  · rw [HBDataSocket.new, new_waiting]
    exact hmet.delivered (hbDataSocket_serves _ (by decide)) (by omega) hpos (by omega)
  · rw [WebSocket.new, new_waiting]
    exact hmet.delivered (webSocket_serves _) (by omega) hpos (by omega)

/-- A masked text frame and a ping, as they arrive. -/
def exampleFrames : List (List UInt8 × FrameEvent) :=
  [([0x81, 0x85, 0x37, 0xfa, 0x21, 0x3d, 0x7f, 0x9f, 0x4d, 0x51, 0x58], .onData (ascii "Hello")),
    ([0x89, 0x00], .onPing [])]

/-- A message, and how the other end sends it. -/
structure Outgoing where
  opCode : OpCode
  isMessage : opCode = .text ∨ opCode = .binary
  mask : Bool
  generateRandomUint32 : Nat → Nat
  key_lt : ∀ i, generateRandomUint32 i < 2 ^ 32
  payload : List UInt8

/-- The bytes `sendMsg` hands to the socket. -/
def Outgoing.bytes (MaxMessageSize : Nat) (m : Outgoing) : List UInt8 :=
  (Frame.sendMsg MaxMessageSize m.opCode m.mask m.generateRandomUint32 m.payload).frames.flatten

theorem Outgoing.feeds {senderMax : Nat} (hpos : 1 ≤ senderMax) (hmax : senderMax < 2 ^ 31)
    (m : Outgoing) (hfits : m.payload.length ≤ min senderMax MaxMessageSize)
    (haccepted : Frame.LengthAccepted m.payload.length) :
    Feeds Frame.decoder (.new MaxMessageSize) (m.bytes senderMax) [.onData m.payload]
      (.new MaxMessageSize) [] := by
  have hsent : m.bytes senderMax = Frame.sentFrame m.opCode
      (Frame.sentKey m.mask (m.generateRandomUint32 0)) true m.payload := by
    rw [bytes, Frame.sendMsg_single hpos hmax (by omega), List.flatten_singleton]
  have hdelivered : Feeds Frame.decoder (Frame.fresh MaxMessageSize MaxMessageSize)
      (Frame.sentFrame m.opCode (Frame.sentKey m.mask (m.generateRandomUint32 0)) true m.payload)
      [.onData m.payload] (Frame.fresh MaxMessageSize MaxMessageSize).reset [] :=
    Frame.sentFrame_delivered m.isMessage (Frame.sentKey_lt m.mask (m.key_lt 0)) (by omega) haccepted
  rw [hsent]
  exact hdelivered

theorem feeds_sent {senderMax : Nat} (hpos : 1 ≤ senderMax) (hmax : senderMax < 2 ^ 31)
    (messages : List Outgoing)
    (hfits : ∀ m ∈ messages, m.payload.length ≤ min senderMax MaxMessageSize ∧
      Frame.LengthAccepted m.payload.length) :
    Feeds Frame.decoder (.new MaxMessageSize) (messages.map (Outgoing.bytes senderMax)).flatten
      (messages.map fun m => .onData m.payload) (.new MaxMessageSize) [] := by
  induction messages with
  | nil => exact .starve (Frame.new_resting MaxMessageSize).starved
  | cons m messages ih =>
    obtain ⟨hm, haccepted⟩ := hfits m (by simp)
    have hfirst := m.feeds hpos hmax hm haccepted
    have hlater := ih fun m' hmem => hfits m' (by simp [hmem])
    simpa using hfirst.append hlater

/-- A masked text and a binary message that is not masked. -/
def exampleMessages : List Outgoing :=
  [⟨.text, .inl rfl, true, fun _ => 0x37fa213d, fun _ => by decide, ascii "Hello"⟩,
    ⟨.binary, .inr rfl, false, fun _ => 0, fun _ => by decide, [7]⟩]

end Servers

end Socket

end LuPlatform
