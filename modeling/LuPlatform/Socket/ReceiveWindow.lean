import LuPlatform.Socket.WebSockets

/-! The window that is handed to `recv`. Every branch at the end of a round that moves the leftover
puts the window behind it, up to the end of the buffer. The branch for a leftover of more than a
quarter of the buffer does neither, and the window, which keeps its size, begins later: it sticks out
by as many bytes as the round received. -/

namespace LuPlatform.Socket

open Bytes Websocket

namespace Receiver

variable {σ ε : Type} (readMessages : Receiver σ ε → Option (Receiver σ ε))

/-- Before every call of `recv`, also the one after the last chunk, its window lies in the buffer. -/
def WindowsInside (s : Receiver σ ε) : List (List UInt8) → Prop
  | [] => s.windowEnd ≤ s.buffer.length
  | bytes :: chunks =>
    s.windowEnd ≤ s.buffer.length ∧
      ∀ s', s.receiveRound readMessages bytes = some s' → s'.WindowsInside chunks

/-- No round takes the branch that updates nothing: what `readMessages` leaves is never more than a
quarter of the buffer. -/
def NeverOverfull (s : Receiver σ ε) : List (List UInt8) → Prop
  | [] => True
  | bytes :: chunks =>
    (∀ t, (s.fill bytes).bind readMessages = some t →
      t.numberOfBytesLeftToRead ≤ t.receiveBufferShiftSize) ∧
      ∀ s', s.receiveRound readMessages bytes = some s' → s'.NeverOverfull chunks

variable {readMessages}

/-- What the loop relies on: an invariant under which `readMessages` consumes buffered bytes only. -/
structure Preserves (readMessages : Receiver σ ε → Option (Receiver σ ε))
    (I : Receiver σ ε → Prop) : Prop where
  inside : ∀ s, I s → s.readOffset + s.numberOfBytesLeftToRead ≤ s.buffer.length
  fill : ∀ s s' bytes, I s → s.fill bytes = some s' → I s'
  read : ∀ s s', I s → readMessages s = some s' → Consumes s s' ∧ I s'
  rewind : ∀ s, I s → I s.rewind

theorem Preserves.receive {I : Receiver σ ε → Prop} (hI : Preserves readMessages I)
    {s t : Receiver σ ε} {chunks : List (List UInt8)} (hs : I s)
    (h : s.receive readMessages chunks = some t) : I t := by
  induction chunks generalizing s with
  | nil => exact Option.some.inj h ▸ hs
  | cons bytes chunks ih =>
    obtain ⟨u, hround, hlater⟩ := Option.bind_eq_some_iff.mp h
    refine ih ?_ hlater
    unfold receiveRound at hround
    obtain ⟨v, hfill, hround⟩ := Option.bind_eq_some_iff.mp hround
    obtain ⟨w, hread, hround⟩ := Option.bind_eq_some_iff.mp hround
    obtain rfl := Option.some.inj hround
    exact hI.rewind w (hI.read v w (hI.fill s v bytes hs hfill) hread).2

theorem WindowsInside.here {s : Receiver σ ε} {chunks : List (List UInt8)}
    (h : s.WindowsInside readMessages chunks) : s.windowEnd ≤ s.buffer.length := by
  cases chunks with
  | nil => exact h
  | cons bytes chunks => exact h.1

/-- A round that leaves at most a quarter puts the window behind it; one that leaves more makes it
stick out. -/
theorem receiveRound_window {I : Receiver σ ε → Prop} (hI : Preserves readMessages I)
    {s t u : Receiver σ ε} {bytes : List UInt8} (hs : I s) (hwindow : s.windowEnd = s.buffer.length)
    (hpos : 1 ≤ bytes.length) (hfill : s.fill bytes = some t) (hread : readMessages t = some u) :
    s.receiveRound readMessages bytes = some u.rewind ∧ I u.rewind ∧
      (u.numberOfBytesLeftToRead ≤ u.receiveBufferShiftSize →
        u.rewind.windowEnd = u.rewind.buffer.length) ∧
      (u.receiveBufferShiftSize < u.numberOfBytesLeftToRead →
        u.rewind.buffer.length < u.rewind.windowEnd) := by
  obtain ⟨hconsumes, hu⟩ := hI.read t u (hI.fill s t bytes hs hfill) hread
  have hinside := hI.inside u hu
  refine ⟨by simp [receiveRound, hfill, hread], hI.rewind u hu, fun hle => ?_, fun hlt => ?_⟩
  · obtain ⟨hlength, hoffset, hleft, hrecv, _⟩ := rewind_front hinside hle
    rw [windowEnd, hoffset, hleft, hrecv, hlength]
    omega
  · have hend := hconsumes.end_eq
    have hrecv := hconsumes.leftToRecv
    have hlength := hconsumes.length_buffer
    rw [length_buffer_fill hfill] at hlength
    obtain ⟨_, rfl⟩ := fill_eq_some hfill
    rw [rewind_overfull hlt]
    unfold windowEnd at hwindow ⊢
    simp only at hend hrecv
    omega

theorem windowsInside_iff {I : Receiver σ ε → Prop} (hI : Preserves readMessages I)
    {s : Receiver σ ε} {chunks : List (List UInt8)} (hs : I s)
    (hwindow : s.windowEnd = s.buffer.length) (hdelivered : s.Delivered readMessages chunks) :
    s.WindowsInside readMessages chunks ↔ s.NeverOverfull readMessages chunks := by
  induction chunks generalizing s with
  | nil => exact ⟨fun _ => trivial, fun _ => hwindow.le⟩
  | cons bytes chunks ih =>
    obtain ⟨hpos, hasked, hrest⟩ := hdelivered
    obtain ⟨t, hfill⟩ : ∃ t, s.fill bytes = some t := by
      unfold windowEnd at hwindow
      exact fill_isSome (by omega)
    cases hread : readMessages t with
    | none =>
      have hround : s.receiveRound readMessages bytes = none := by
        simp [receiveRound, hfill, hread]
      simp [WindowsInside, NeverOverfull, hround, hfill, hread, hwindow]
    | some u =>
      obtain ⟨hround, hu, hfits, hfull⟩ := receiveRound_window hI hs hwindow hpos hfill hread
      have hwindows : s.WindowsInside readMessages (bytes :: chunks) ↔
          u.rewind.WindowsInside readMessages chunks := by
        simp [WindowsInside, hround, hwindow]
      have hnever : s.NeverOverfull readMessages (bytes :: chunks) ↔
          u.numberOfBytesLeftToRead ≤ u.receiveBufferShiftSize ∧
            u.rewind.NeverOverfull readMessages chunks := by
        simp [NeverOverfull, hround, hfill, hread]
      rw [hwindows, hnever]
      by_cases hle : u.numberOfBytesLeftToRead ≤ u.receiveBufferShiftSize
      · rw [ih hu (hfits hle) (hrest _ hround)]
        exact ⟨fun h => ⟨hle, h⟩, fun h => h.2⟩
      · have hout := hfull (by omega)
        exact ⟨fun h => absurd h.here (by omega), fun h => absurd h.1 hle⟩

end Receiver

/-! ### The four sockets -/

theorem dataSocket_preserves (handler : DataHandler) :
    Receiver.Preserves (σ := Unit) (ε := Empty) (Receiver.readMessages handler)
      fun s => s.readOffset + s.numberOfBytesLeftToRead ≤ s.buffer.length where
  inside _ h := h
  fill s s' bytes _ h := by
    have hlength := Receiver.length_buffer_fill h
    obtain ⟨hle, rfl⟩ := Receiver.fill_eq_some h
    rw [hlength]
    simp only
    omega
  read s s' hs h := by
    obtain ⟨hconsumes, _⟩ := Receiver.readMessages_consumes h
    exact ⟨hconsumes, by rw [hconsumes.end_eq, hconsumes.length_buffer]; exact hs⟩
  rewind s hs := by
    by_cases hfull : s.receiveBufferShiftSize < s.numberOfBytesLeftToRead
    · rw [Receiver.rewind_overfull hfull]
      exact hs
    · obtain ⟨hlength, hoffset, hleft, _⟩ := Receiver.rewind_front hs (by omega)
      omega

section Handshake

variable {status : Type} {connecting : status} {framed : status → Prop}
variable {getBase64Hash : List UInt8 → List UInt8}

open Receiver

theorem ready_preserves {readMessages : SessionSocket status → Option (SessionSocket status)}
    (read : ∀ s s' : SessionSocket status, s.Ready connecting framed → readMessages s = some s' →
      Consumes s s' ∧ s'.Ready connecting framed) :
    Preserves readMessages (Ready connecting framed) where
  inside _ h := h.inside
  fill _ _ _ hs h := hs.fill h
  read := read
  rewind _ h := h.rewind

theorem finishRequest_ready {connectedAs : HandshakeRequest → status} {s s' : SessionSocket status}
    (hs : s.Ready connecting framed) (hnot : ¬ framed s.own.socketStatus)
    (h : finishRequest getBase64Hash connectedAs s = some s') :
    Consumes s s' ∧ s'.Ready connecting framed := by
  unfold finishRequest at h
  split at h
  · rename_i request response _
    split at h <;> obtain rfl := Option.some.inj h
    · exact ⟨(Consumes.refl s).raise .stop, hs.raise .stop⟩
    · obtain ⟨hconsumes, hready⟩ := updateForHeader_ready hs hnot (connectedAs request)
      exact ⟨(hconsumes.raise _).raise _, (hready.raise _).raise _⟩
  · cases h

theorem webSocket_preserves (getBase64Hash : List UInt8 → List UInt8) :
    Preserves (WebSocket.readMessages getBase64Hash)
      (Ready .connecting (· ≠ WebSocket.SocketStatus.connecting)) := by
  refine ready_preserves fun s s' hs h => ?_
  unfold WebSocket.readMessages at h
  split at h
  · rename_i hstatus
    split at h
    · cases h
    · rename_i t hhandshake
      obtain ⟨ht, hready⟩ := processHeader_ready hs hstatus
        (fun t u ht hconnecting => finishRequest_ready ht (by simpa using hconnecting)) hhandshake
      split at h
      · obtain rfl := Option.some.inj h
        exact ⟨ht, hready⟩
      · rename_i hconnected
        obtain ⟨hu, hready'⟩ := processFrames_ready hready hconnected hconnected h
        exact ⟨ht.trans hu, hready'⟩
  · rename_i hstatus
    exact processFrames_ready hs hstatus hstatus h

/-- The two sockets that go on with frames or with raw messages are ready in this sense. -/
abbrev HBReady : SessionSocket SocketStatus → Prop :=
  Ready .connecting (· = .connectedAsWebSocket)

theorem readUpgraded_ready {handler : DataHandler} {s s' : SessionSocket SocketStatus}
    (hs : HBReady s) (hstatus : s.own.socketStatus ≠ .connecting)
    (h : readUpgraded handler s = some s') : Consumes s s' ∧ HBReady s' := by
  unfold readUpgraded at h
  split at h
  · rename_i hTCP
    obtain ⟨hconsumes, hown⟩ := readMessages_consumes h
    have hresting : s.own.frame.Resting := hs.resting (by rw [hTCP]; decide)
    refine ⟨hconsumes, ⟨?_, ?_, ?_, ?_, ?_⟩⟩
    · rw [hconsumes.end_eq, hconsumes.length_buffer]
      exact hs.inside
    · rw [hown, hs.offset_zero hstatus]
      exact Nat.zero_le _
    · rw [hown]
      exact hs.offset_zero
    · rw [hown]
      exact .inl hresting
    · rw [hown]
      exact hs.resting
  · rename_i hframed
    exact processFrames_ready hs hstatus hframed h
  · obtain rfl := Option.some.inj h
    exact ⟨(Consumes.refl s).raise .stop, hs.raise .stop⟩

theorem readMessagesWith_preserves
    {finish : SessionSocket SocketStatus → Option (SessionSocket SocketStatus)}
    (hfinish : ∀ t u, HBReady t → t.own.socketStatus = .connecting → finish t = some u →
      Consumes t u ∧ HBReady u) (handler : DataHandler) :
    Preserves (readMessagesWith (processHeader finish) handler) HBReady := by
  refine ready_preserves fun s s' hs h => ?_
  unfold readMessagesWith at h
  split at h
  · rename_i hstatus
    split at h
    · cases h
    · rename_i t hhandshake
      obtain ⟨ht, hready⟩ := processHeader_ready hs hstatus hfinish hhandshake
      split at h
      · obtain rfl := Option.some.inj h
        exact ⟨ht, hready⟩
      · rename_i hconnected
        obtain ⟨hu, hready'⟩ := readUpgraded_ready hready hconnected h
        exact ⟨ht.trans hu, hready'⟩
  · rename_i hstatus
    exact readUpgraded_ready hs hstatus h

theorem hbDataSocket_preserves (getBase64Hash : List UInt8 → List UInt8) (handler : DataHandler) :
    Preserves (HBDataSocket.readMessages getBase64Hash handler) HBReady :=
  readMessagesWith_preserves
    (fun _ _ ht hconnecting => finishRequest_ready ht (by rw [hconnecting]; decide)) handler

theorem hbSocketClient_preserves (getBase64Hash : List UInt8 → List UInt8) (key : List UInt8)
    (handler : DataHandler) :
    Preserves (HBSocketClient.readMessages getBase64Hash key handler) HBReady := by
  refine readMessagesWith_preserves (fun t u ht hconnecting h => ?_) handler
  unfold HBSocketClient.finishReply at h
  split at h
  · rename_i response accepted _
    split at h <;> obtain rfl := Option.some.inj h
    · obtain ⟨hconsumes, hready⟩ := updateForHeader_ready ht (by rw [hconnecting]; decide)
        (connectedAs response.getUpgrade)
      exact ⟨hconsumes.raise _, hready.raise _⟩
    · exact ⟨(Consumes.refl t).raise .stop, ht.raise .stop⟩
  · cases h

end Handshake

section Windows

variable (getBase64Hash : List UInt8 → List UInt8) (handler : DataHandler) (key : List UInt8)
variable (MaxMessageSize bufferSize : Nat) (memory : Nat → UInt8)

open Receiver

end Windows

section Overfull

open Receiver

variable {σ ε status : Type}

/-- A first chunk of more than a quarter of the buffer, nothing of which is consumed. -/
theorem first_chunk_outside {readMessages : Receiver σ ε → Option (Receiver σ ε)}
    {I : Receiver σ ε → Prop} (hI : Preserves readMessages I) {buffer : List UInt8} {own : σ}
    (hs : I (.new buffer own)) {bytes : List UInt8} (hquarter : buffer.length / 4 < bytes.length)
    (hfits : bytes.length ≤ buffer.length)
    (hread : ∀ t, (Receiver.new buffer own : Receiver σ ε).fill bytes = some t →
      ∃ u, readMessages t = some u ∧ u.numberOfBytesLeftToRead = t.numberOfBytesLeftToRead) :
    (Receiver.new buffer own).Delivered readMessages [bytes] ∧
      ¬ (Receiver.new buffer own).WindowsInside readMessages [bytes] := by
  have hdelivered : (Receiver.new buffer own).Delivered readMessages [bytes] :=
    delivered_single (by omega) hfits
  refine ⟨hdelivered, fun h => ?_⟩
  obtain ⟨t, ht⟩ : ∃ t, (Receiver.new buffer own : Receiver σ ε).fill bytes = some t :=
    fill_isSome (by simpa [Receiver.new] using hfits)
  obtain ⟨u, hu, hleft⟩ := hread t ht
  have hnever := ((windowsInside_iff hI hs (Nat.zero_add _) hdelivered).mp h).1 u (by simp [ht, hu])
  have hlength := (hI.read t u (hI.fill _ t bytes hs ht) hu).1.length_buffer
  rw [length_buffer_fill ht] at hlength
  obtain ⟨_, rfl⟩ := fill_eq_some ht
  simp only [receiveBufferShiftSize, hlength, hleft, Receiver.new] at hnever
  omega

theorem findFrom_crlf_zeros (n pos : Nat) : findFrom crlf (List.replicate n 0) pos = none := by
  cases h : findFrom crlf (List.replicate n 0) pos with
  | none => rfl
  | some i =>
    obtain ⟨_, _, ⟨rest, hpre⟩, _⟩ := findFrom_eq_some h
    have hmem : (13 : UInt8) ∈ List.replicate n (0 : UInt8) := by
      refine List.mem_of_mem_drop (i := i) ?_
      rw [← hpre]
      exact List.mem_append_left _ (by decide)
    exact absurd (List.eq_of_mem_replicate hmem) (by decide)

/-- Zero bytes end no line, so nothing is consumed. -/
theorem processHeader_zeros (finish : SessionSocket status → Option (SessionSocket status))
    {s : SessionSocket status} {n : Nat} (hview : s.headerView = List.replicate n 0)
    (hrecv : s.numberOfBytesLeftToRecv ≠ 0) :
    s.processHeader finish = some (s.withOffset s.own.readWebsocketHeaderOffset) := by
  have hscan : scanHeader s.headerView s.own.readWebsocketHeaderOffset =
      some (false, s.own.readWebsocketHeaderOffset) := by
    refine Loop.loop_leave ?_ _
    rw [scanRound, hview, findFrom_crlf_zeros]
  have hrecv' : ¬ (s.withOffset s.own.readWebsocketHeaderOffset).numberOfBytesLeftToRecv = 0 := hrecv
  simp only [processHeader, hscan, if_neg hrecv']

theorem zeros_outside {connecting : status} {framed : status → Prop}
    {readMessages : SessionSocket status → Option (SessionSocket status)}
    (hI : Preserves readMessages (Ready connecting framed))
    (hread : ∀ (t : SessionSocket status) (n : Nat), t.own.socketStatus = connecting →
      t.headerView = List.replicate n 0 → t.numberOfBytesLeftToRecv ≠ 0 →
        readMessages t = some (t.withOffset t.own.readWebsocketHeaderOffset))
    (MaxMessageSize : Nat) {buffer : List UInt8} (hbuffer : 2 ≤ buffer.length) :
    let s : SessionSocket status :=
      .new buffer { socketStatus := connecting, frame := .new MaxMessageSize }
    ∃ bytes, s.Delivered readMessages [bytes] ∧ ¬ s.WindowsInside readMessages [bytes] := by
  refine ⟨List.replicate (buffer.length / 4 + 1) 0, first_chunk_outside hI
    (new_ready buffer MaxMessageSize) (by simp) (by simp; omega) fun t ht => ?_⟩
  obtain ⟨_, rfl⟩ := fill_eq_some ht
  refine ⟨_, hread _ (buffer.length / 4 + 1) rfl ?_ ?_, rfl⟩
  · simp [headerView, Receiver.new]
  · simp only [Receiver.new]
    omega

theorem readMessagesWith_zeros
    (finish : SessionSocket SocketStatus → Option (SessionSocket SocketStatus))
    (handler : DataHandler) (t : SessionSocket SocketStatus) (n : Nat)
    (hstatus : t.own.socketStatus = .connecting) (hview : t.headerView = List.replicate n 0)
    (hrecv : t.numberOfBytesLeftToRecv ≠ 0) :
    readMessagesWith (processHeader finish) handler t =
      some (t.withOffset t.own.readWebsocketHeaderOffset) := by
  rw [readMessagesWith, if_pos hstatus, processHeader_zeros finish hview hrecv]
  exact if_pos hstatus

theorem webSocket_zeros (getBase64Hash : List UInt8 → List UInt8) (t : WebSocket) (n : Nat)
    (hstatus : t.own.socketStatus = .connecting) (hview : t.headerView = List.replicate n 0)
    (hrecv : t.numberOfBytesLeftToRecv ≠ 0) :
    WebSocket.readMessages getBase64Hash t =
      some (t.withOffset t.own.readWebsocketHeaderOffset) := by
  rw [WebSocket.readMessages, if_pos hstatus, WebSocket.processHandshake,
    processHeader_zeros _ hview hrecv]
  exact if_pos hstatus

/-- A message is waited for while fewer bytes than its header says are there. -/
theorem string_waits {t : DataSocket} {bytes : List UInt8} (hunread : t.unread = bytes)
    (hleft : t.numberOfBytesLeftToRead = bytes.length) (hheader : 4 ≤ bytes.length)
    (hsize : bytes.length < ofLittleEndian (bytes.take 4) % 2 ^ 32) :
    t.readMessages String.handler = some t := by
  have hread : t.expectedMsgSize String.handler = ofLittleEndian (bytes.take 4) % 2 ^ 32 := by
    rw [string_expectedMsgSize (by omega), hunread]
  have hround : readMessagesRound String.handler t = .leave t := by
    have hnonzero : ¬ t.expectedMsgSize String.handler = 0 := by omega
    have hmore : ¬ t.numberOfBytesLeftToRead ≥ t.expectedMsgSize String.handler := by omega
    rw [readMessagesRound, if_pos (by rw [hleft]; exact hheader)]
    simp only [if_neg hnonzero, if_neg hmore]
  exact Loop.loop_leave hround _

end Overfull

end LuPlatform.Socket
