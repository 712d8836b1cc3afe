import LuPlatform.Socket.HandshakeRounds

/-! A request that arrives in several pieces. The search resumes at the end of the last complete line,
but in a view that begins there it starts that far in again. So only a request whose lines all end in
its last piece is answered as if it had come at once. After any other cut a header that the search
finds is cut off before its end; it can only be refused, and a request that is met never is. -/

namespace LuPlatform.Socket

open Bytes Websocket Receiver

/-! ### Outcomes -/

/-- What the two ends of the connection and the callbacks see of a handshake. -/
structure HandshakeOutcome (status : Type) where
  socketStatus : status
  response : List UInt8
  consumed : Nat
  calls : List (SocketEvent FrameEvent)

def sentBytes : SocketEvent FrameEvent → List UInt8
  | .send bytes => bytes
  | _ => []

def isHandshakeCall : SocketEvent FrameEvent → Bool
  | .onOpen | .stop => true
  | _ => false

section Outcome

variable {status : Type}

def Receiver.outcome (received : Nat) (s : SessionSocket status) : HandshakeOutcome status where
  socketStatus := s.own.socketStatus
  response := s.events.flatMap sentBytes
  consumed := received - s.numberOfBytesLeftToRead
  calls := s.events.filter isHandshakeCall

/-- The pieces lead to the same outcome as all of them in one `recv`. -/
def SameOutcome (readMessages : SessionSocket status → Option (SessionSocket status))
    (socket : SessionSocket status) (chunks : List (List UInt8)) : Prop :=
  ∃ s t, receive readMessages socket chunks = some s ∧
    receive readMessages socket [chunks.flatten] = some t ∧
    s.outcome chunks.flatten.length = t.outcome chunks.flatten.length

end Outcome

/-- No line is complete before the last piece. -/
def NoLineBeforeLast (chunks : List (List UInt8)) : Prop :=
  ∀ i, ¬ CrlfAt chunks.dropLast.flatten i

/-- The ends of a header that the searches of the rounds find, once `arrived` was received and with the
search to be resumed at `offset`. -/
def headerEnds (arrived : List UInt8) (offset : Nat) : List (List UInt8) → List Nat
  | [] => []
  | bytes :: chunks =>
    match scanHeader ((arrived ++ bytes).drop offset) offset with
    | some (true, offset') => offset' :: headerEnds (arrived ++ bytes) offset' chunks
    | some (false, offset') => headerEnds (arrived ++ bytes) offset' chunks
    | none => []

/-- The searches find one end of a header, too early, but behind a line that is refused. -/
def RefusedEarly (chunks : List (List UInt8)) : Prop :=
  ∃ n, headerEnds [] 0 chunks = [n] ∧ n < chunks.flatten.length ∧
    RefusedLines (chunks.flatten.take n)

/-! ### Runs -/

section Runs

variable {status : Type} {getBase64Hash : List UInt8 → List UInt8} {connecting : status}
variable {connectedAs : HandshakeRequest → status}
variable {readMessages : SessionSocket status → Option (SessionSocket status)}
variable {MaxMessageSize bufferSize : Nat} {arrived bytes : List UInt8} {offset offset' : Nat}
variable {events : List (SocketEvent FrameEvent)}

variable (connecting MaxMessageSize bufferSize readMessages) in
/-- A run whose searches find the headers `ends`, each cut off before its end: it goes on as long as
they are refused. -/
def RunsPast (text : List UInt8) (ends : List Nat) (s : SessionSocket status)
    (chunks : List (List UInt8)) : Prop :=
  (∃ offset, receive readMessages s chunks = some (waiting connecting MaxMessageSize bufferSize text
      offset (s.events ++ List.replicate ends.length .stop)) ∧
    ∀ n ∈ ends, n < text.length ∧ RefusedLines (text.take n)) ∨
  (receive readMessages s chunks = none ∧ ∃ n ∈ ends, ¬ RefusedLines (text.take n))

variable {text : List UInt8} {chunks : List (List UInt8)}

/-- Once the search is resumed at an offset, it never reaches the end of the request. -/
theorem receive_resumed
    (hserves : ServesHandshake getBase64Hash connecting connectedAs readMessages)
    (htext : EndsWithFirstEmptyLine text) (hfits : text.length ≤ bufferSize / 4)
    (hchunks : ∀ bytes ∈ chunks, bytes ≠ []) (hoffset : 0 < offset)
    (hwhole : arrived ++ chunks.flatten = text) :
    RunsPast connecting readMessages MaxMessageSize bufferSize text
      (headerEnds arrived offset chunks)
      (waiting connecting MaxMessageSize bufferSize arrived offset events) chunks := by
  induction chunks generalizing arrived offset events with
  | nil =>
    rw [List.flatten_nil, List.append_nil] at hwhole
    refine .inl ⟨offset, ?_, fun n hn => absurd hn List.not_mem_nil⟩
    rw [hwhole]
    simp [headerEnds, waiting]
  | cons bytes chunks ih =>
    rw [List.flatten_cons, ← List.append_assoc] at hwhole
    have hbytes := hchunks bytes (by simp)
    have hpre : arrived ++ bytes <+: text := ⟨_, hwhole⟩
    have hfits' : (arrived ++ bytes).length ≤ bufferSize / 4 := hpre.length_le.trans hfits
    have hrest := fun b hb => hchunks b (List.mem_cons_of_mem _ hb)
    obtain ⟨found, offset', hscan⟩ := scanHeader_total ((arrived ++ bytes).drop offset) offset
    obtain ⟨hle, hinside⟩ := scanHeader_bounds hscan
    cases found with
    | false =>
      have hends : headerEnds arrived offset (bytes :: chunks) =
          headerEnds (arrived ++ bytes) offset' chunks := by
        rw [headerEnds, hscan]
      unfold RunsPast
      rw [hends, receive_cons (receiveRound_waits hserves hbytes hfits' hscan)]
      exact ih hrest (by omega) hwhole
    | true =>
      have hends : headerEnds arrived offset (bytes :: chunks) =
          offset' :: headerEnds (arrived ++ bytes) offset' chunks := by
        rw [headerEnds, hscan]
      have hpos : 0 < (arrived ++ bytes).length := by
        rw [List.length_append]
        have := List.length_pos_iff.mpr hbytes
        omega
      have hend := hinside rfl
      rw [List.length_drop] at hend
      have hshort : offset' < text.length := by
        have := hpre.length_le
        omega
      have htake : (arrived ++ bytes).take offset' = text.take offset' := by
        rw [← hwhole]
        exact (List.take_append_of_le_length (by omega)).symm
      unfold RunsPast
      rw [hends]
      obtain ⟨hrefused, hanswer⟩ | ⟨hrefused, hanswer⟩ :=
        answerRequest_cut getBase64Hash htext hshort
      · rw [receive_cons (receiveRound_refused hserves hfits' hscan (by omega)
          (by rw [htake]; exact hanswer))]
        obtain ⟨last, hrun, hall⟩ | ⟨hrun, n, hn, hbad⟩ := @ih (arrived ++ bytes) offset'
          (events ++ [.stop]) hrest (by omega) hwhole
        · refine .inl ⟨last, ?_, ?_⟩
          · rw [hrun]
            simp [waiting, List.replicate_succ]
          · exact List.forall_mem_cons.mpr ⟨⟨hshort, hrefused⟩, hall⟩
        · exact .inr ⟨hrun, n, List.mem_cons_of_mem _ hn, hbad⟩
      · refine .inr ⟨?_, offset', List.mem_cons_self, hrefused⟩
        have hround : receiveRound readMessages (waiting connecting MaxMessageSize bufferSize arrived
            offset events) bytes = none :=
          receiveRound_fails hserves hfits' hscan (by omega) (by rw [htake]; exact hanswer)
        simp [receive, hround]

variable (MaxMessageSize) in
/-- A run before the first line is complete: either the last piece completes it, and the whole
request is read, or its end is an offset from which the search is resumed. -/
theorem receive_first_line
    (hserves : ServesHandshake getBase64Hash connecting connectedAs readMessages)
    (htext : EndsWithFirstEmptyLine text) (hfits : text.length ≤ bufferSize / 4)
    {request : HandshakeRequest} {response : List UInt8}
    (hanswer : answerRequest getBase64Hash text = .ok (request, response))
    (hchunks : ∀ bytes ∈ chunks, bytes ≠ []) (hnone : ∀ i, ¬ CrlfAt arrived i)
    (hwhole : arrived ++ chunks.flatten = text) :
    ((∀ i, ¬ CrlfAt (arrived ++ chunks.dropLast.flatten) i) ∧
      receive readMessages (waiting connecting MaxMessageSize bufferSize arrived 0 []) chunks =
        some (answered connecting connectedAs MaxMessageSize bufferSize request response text [])) ∨
    ((∃ i, CrlfAt (arrived ++ chunks.dropLast.flatten) i) ∧
      RunsPast connecting readMessages MaxMessageSize bufferSize text (headerEnds arrived 0 chunks)
        (waiting connecting MaxMessageSize bufferSize arrived 0 []) chunks) := by
  induction chunks generalizing arrived with
  | nil =>
    obtain ⟨i, _, hi, _⟩ := htext
    rw [List.flatten_nil, List.append_nil] at hwhole
    exact absurd (hwhole ▸ hi.2) (hnone i)
  | cons bytes chunks ih =>
    rw [List.flatten_cons, ← List.append_assoc] at hwhole
    have hbytes := hchunks bytes (by simp)
    have hrest := fun b hb => hchunks b (List.mem_cons_of_mem _ hb)
    have hpre : arrived ++ bytes <+: text := ⟨_, hwhole⟩
    have hfits' : (arrived ++ bytes).length ≤ bufferSize / 4 := hpre.length_le.trans hfits
    cases chunks with
    | nil =>
      rw [List.flatten_nil, List.append_nil] at hwhole
      subst hwhole
      refine .inl ⟨by simpa using hnone, ?_⟩
      rw [receive_cons (receiveRound_whole hserves htext hfits hanswer)]
      rfl
    | cons next chunks =>
      have hlast : arrived ++ (bytes :: next :: chunks).dropLast.flatten =
          arrived ++ bytes ++ (next :: chunks).dropLast.flatten := by
        rw [List.dropLast_cons_cons, List.flatten_cons, List.append_assoc]
      have hshort : (arrived ++ bytes).length < text.length := by
        have hnext := List.length_pos_iff.mpr (hrest next (by simp))
        have hlength : (arrived ++ bytes ++ (next :: chunks).flatten).length =
            (arrived ++ bytes).length + (next :: chunks).flatten.length := List.length_append
        rw [hwhole, List.flatten_cons, (List.length_append : (next ++ _).length = _)] at hlength
        omega
      unfold RunsPast
      rw [hlast]
      by_cases hline : ∃ i, CrlfAt (arrived ++ bytes) i
      · obtain ⟨i, hi⟩ := hline
        obtain ⟨offset, hoffset, hscan⟩ := scanHeader_cut htext hpre hshort hi
        have hends : headerEnds arrived 0 (bytes :: next :: chunks) =
            headerEnds (arrived ++ bytes) offset (next :: chunks) := by
          rw [headerEnds, List.drop_zero, hscan]
        refine .inr ⟨⟨i, hi.of_front (List.prefix_append _ _)⟩, ?_⟩
        rw [hends, receive_cons (receiveRound_waits hserves hbytes hfits' hscan)]
        exact receive_resumed hserves htext hfits hrest hoffset hwhole
      · have hnone' : ∀ i, ¬ CrlfAt (arrived ++ bytes) i := fun i hi => hline ⟨i, hi⟩
        have hscan := scanHeader_no_line hnone'
        have hends : headerEnds arrived 0 (bytes :: next :: chunks) =
            headerEnds (arrived ++ bytes) 0 (next :: chunks) := by
          rw [headerEnds, List.drop_zero, hscan]
        rw [hends, receive_cons (receiveRound_waits hserves hbytes hfits' hscan)]
        exact ih hrest hnone' hwhole

variable (connecting connectedAs MaxMessageSize bufferSize) in
theorem outcome_answered (request : HandshakeRequest) (response text : List UInt8) :
    (answered connecting connectedAs MaxMessageSize bufferSize request response text []).outcome
        text.length =
      if response.isEmpty then ⟨connecting, [], 0, [.stop]⟩
      else ⟨connectedAs request, response, text.length, [.onOpen]⟩ := by
  unfold answered
  split
  · simp [outcome, waiting, sentBytes, isHandshakeCall]
  · simp [outcome, opened, sentBytes, isHandshakeCall]

/-- The outcome depends on the pieces unless the last one holds the ends of all lines, or the request
is refused early, and once. -/
theorem sameOutcome_iff
    (hserves : ServesHandshake getBase64Hash connecting connectedAs readMessages)
    (htext : EndsWithFirstEmptyLine chunks.flatten)
    (hfits : chunks.flatten.length ≤ bufferSize / 4) {request : HandshakeRequest}
    {response : List UInt8}
    (hanswer : answerRequest getBase64Hash chunks.flatten = .ok (request, response))
    (hchunks : ∀ bytes ∈ chunks, bytes ≠ []) :
    SameOutcome readMessages (waiting connecting MaxMessageSize bufferSize [] 0 []) chunks ↔
      NoLineBeforeLast chunks ∨ RefusedEarly chunks := by
  have hone : receive readMessages (waiting connecting MaxMessageSize bufferSize [] 0 [])
      [chunks.flatten] = some (answered connecting connectedAs MaxMessageSize bufferSize request
        response chunks.flatten []) := by
    rw [receive_cons (receiveRound_whole hserves htext hfits hanswer)]
    rfl
  have houtcome := outcome_answered connecting connectedAs MaxMessageSize bufferSize request response
    chunks.flatten
  obtain ⟨hnone, hrun⟩ | ⟨⟨i, hi⟩, hrun⟩ := receive_first_line MaxMessageSize hserves htext hfits
    hanswer hchunks (fun i hi => absurd hi.end_le (by simp)) (List.nil_append _)
  · exact iff_of_true ⟨_, _, hrun, hone, rfl⟩ (.inl hnone)
  have hline : ¬ NoLineBeforeLast chunks := fun h => h i hi
  constructor
  · rintro ⟨s, t, hs, ht, hsame⟩
    obtain rfl := Option.some.inj (ht.symm.trans hone)
    obtain ⟨offset, hrun, hall⟩ | ⟨hrun, _⟩ := hrun
    · obtain rfl := Option.some.inj (hs.symm.trans hrun)
      rw [houtcome] at hsame
      split at hsame
      · have hcalls := congrArg HandshakeOutcome.calls hsame
        have hone : (headerEnds [] 0 chunks).length = 1 := by
          have hlength := congrArg List.length hcalls
          simpa [outcome, waiting, List.filter_replicate, isHandshakeCall] using hlength
        obtain ⟨n, hn⟩ := List.length_eq_one_iff.mp hone
        exact .inr ⟨n, hn, hall n (by rw [hn]; exact List.mem_singleton_self n)⟩
      · have hstatus := congrArg HandshakeOutcome.socketStatus hsame
        exact absurd hstatus.symm (hserves.connected request)
    · rw [hs] at hrun
      cases hrun
  · rintro (h | ⟨n, hends, hn, hrefused⟩)
    · exact absurd h hline
    have hempty : response = [] := by
      have hlines : RefusedLines chunks.flatten := readLines_refused hrefused
      rw [answerRequest, getResponse, hlines] at hanswer
      cases hanswer
      rfl
    subst hempty
    obtain ⟨offset, hrun, _⟩ | ⟨_, m, hm, hbad⟩ := hrun
    · refine ⟨_, _, hrun, hone, ?_⟩
      rw [houtcome, hends]
      simp [outcome, waiting, sentBytes, isHandshakeCall]
    · rw [hends, List.mem_singleton] at hm
      exact absurd (hm ▸ hrefused) hbad

end Runs

/-- The outcome of the handshake of either server socket is that of the request in one piece exactly
when no line is complete before the last piece, or the request is refused early, and once. -/
theorem handshake_sameOutcome_iff (getBase64Hash : List UInt8 → List UInt8) {handler : DataHandler}
    (hheader : 0 < handler.getHeaderSize) (MaxMessageSize : Nat) {chunks : List (List UInt8)}
    (htext : EndsWithFirstEmptyLine chunks.flatten) {request : HandshakeRequest}
    {response : List UInt8}
    (hanswer : answerRequest getBase64Hash chunks.flatten = .ok (request, response))
    (hchunks : ∀ bytes ∈ chunks, bytes ≠ []) :
    (chunks.flatten.length ≤ HBDataSocket.BUFFER_SIZE MaxMessageSize / 4 →
      (SameOutcome (HBDataSocket.readMessages getBase64Hash handler)
          (HBDataSocket.new MaxMessageSize) chunks ↔
        NoLineBeforeLast chunks ∨ RefusedEarly chunks)) ∧
    (chunks.flatten.length ≤ WebSocket.BUFFER_SIZE / 4 →
      (SameOutcome (WebSocket.readMessages getBase64Hash) (WebSocket.new MaxMessageSize) chunks ↔
        NoLineBeforeLast chunks ∨ RefusedEarly chunks)) := by
  refine ⟨fun hfits => ?_, fun hfits => ?_⟩
  · rw [HBDataSocket.new, new_waiting]
    exact sameOutcome_iff (hbDataSocket_serves getBase64Hash hheader) htext hfits hanswer hchunks
  · rw [WebSocket.new, new_waiting]
    exact sameOutcome_iff (webSocket_serves getBase64Hash) htext hfits hanswer hchunks

/-- In two pieces, the first of which ends within the first line. -/
theorem handshake_sameOutcome_iff_example :
    (SameOutcome (HBDataSocket.readMessages (fun _ => []) String.handler) (HBDataSocket.new 4096)
        [(exampleLines ++ crlf).take 4, (exampleLines ++ crlf).drop 4] ↔
      NoLineBeforeLast [(exampleLines ++ crlf).take 4, (exampleLines ++ crlf).drop 4] ∨
        RefusedEarly [(exampleLines ++ crlf).take 4, (exampleLines ++ crlf).drop 4]) ∧
    (SameOutcome (WebSocket.readMessages fun _ => []) (WebSocket.new 4096)
        [(exampleLines ++ crlf).take 4, (exampleLines ++ crlf).drop 4] ↔
      NoLineBeforeLast [(exampleLines ++ crlf).take 4, (exampleLines ++ crlf).drop 4] ∨
        RefusedEarly [(exampleLines ++ crlf).take 4, (exampleLines ++ crlf).drop 4]) := by
  obtain ⟨request, response, hanswer, _⟩ := exampleRequest_answer
  have hflatten : [(exampleLines ++ crlf).take 4, (exampleLines ++ crlf).drop 4].flatten =
      exampleLines ++ crlf := by
    rw [List.flatten_cons, List.flatten_singleton, List.take_append_drop]
  have hends := exampleRequest_ends
  rw [← hflatten] at hends hanswer
  have hheader : 0 < String.handler.getHeaderSize := by decide
  have hboth := handshake_sameOutcome_iff (fun _ => []) hheader 4096 hends hanswer (by decide +kernel)
  rw [hflatten] at hboth
  exact ⟨hboth.1 (by decide +kernel), hboth.2 (by decide +kernel)⟩

/-- The request is met, but not when its empty line comes in a second piece. -/
theorem handshake_depends_on_pieces :
    EndsWithFirstEmptyLine [exampleLines, crlf].flatten ∧
      (∃ request response,
        answerRequest (fun _ => []) [exampleLines, crlf].flatten = .ok (request, response) ∧
          response ≠ []) ∧
      [exampleLines, crlf].flatten.length ≤ HBDataSocket.BUFFER_SIZE 4096 / 4 ∧
      ¬ SameOutcome (HBDataSocket.readMessages (fun _ => []) String.handler) (HBDataSocket.new 4096)
        [exampleLines, crlf] ∧
      ¬ SameOutcome (WebSocket.readMessages fun _ => []) (WebSocket.new 4096)
        [exampleLines, crlf] := by
  have hflatten : [exampleLines, crlf].flatten = exampleLines ++ crlf := by
    rw [List.flatten_cons, List.flatten_singleton]
  obtain ⟨request, response, hanswer, hmet⟩ := exampleRequest_answer
  have hline : ¬ NoLineBeforeLast [exampleLines, crlf] := fun h =>
    h 19 (crlfAt_iff.mpr (by decide +kernel))
  have hearly : ¬ RefusedEarly [exampleLines, crlf] := by
    rintro ⟨n, hends, _⟩
    have hnone : headerEnds [] 0 [exampleLines, crlf] = [] := by decide +kernel
    rw [hnone] at hends
    cases hends
  have hchunks : ∀ bytes ∈ [exampleLines, crlf], bytes ≠ [] := by decide +kernel
  have hends := exampleRequest_ends
  rw [← hflatten] at hends hanswer
  refine ⟨hends, ⟨request, response, hanswer, hmet⟩, by decide +kernel, ?_, ?_⟩
  · rw [HBDataSocket.new, new_waiting,
      sameOutcome_iff (hbDataSocket_serves _ (show 0 < String.handler.getHeaderSize by decide)) hends
        (by decide +kernel) hanswer hchunks]
    exact not_or.mpr ⟨hline, hearly⟩
  · rw [WebSocket.new, new_waiting,
      sameOutcome_iff (webSocket_serves _) hends (by decide +kernel) hanswer hchunks]
    exact not_or.mpr ⟨hline, hearly⟩

end LuPlatform.Socket
