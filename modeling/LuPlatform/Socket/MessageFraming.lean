import LuPlatform.Socket.DataSocket

/-! Messages behind a header, over any cut of their bytes. As long as no message is larger than a
quarter of the buffer, a round leaves less than one message behind, so the leftover always comes to
the front, and each message is delivered by the round that receives its last byte. -/

namespace LuPlatform.Socket

open Bytes Loop Receiver

/-- A message that starts with its own length, in four bytes. -/
structure SelfSized (message : List UInt8) : Prop where
  header : ofLittleEndian (message.take 4) = message.length
  headerSize_le : String.handler.getHeaderSize ≤ message.length

/-- A message of the `String` handler: it starts with its own length, in four bytes, and fits in a
quarter of the buffer. -/
structure WellSized (message : List UInt8) : Prop where
  header : ofLittleEndian (message.take 4) = message.length
  headerSize_le : String.handler.getHeaderSize ≤ message.length
  le_shiftSize : message.length ≤ String.BUFFER_SIZE / 4

theorem WellSized.selfSized {message : List UInt8} (h : WellSized message) : SelfSized message :=
  ⟨h.header, h.headerSize_le⟩

/-- Those of the messages that are complete once `n` bytes have arrived. -/
def completed : List (List UInt8) → (n : Nat) → List (List UInt8)
  | [], _ => []
  | message :: messages, n =>
    if message.length ≤ n then message :: completed messages (n - message.length) else []

/-- The messages of which a byte is missing after `n` bytes. -/
def pending (messages : List (List UInt8)) (n : Nat) : List (List UInt8) :=
  messages.drop (completed messages n).length

theorem completed_append_pending (messages : List (List UInt8)) (n : Nat) :
    completed messages n ++ pending messages n = messages := by
  induction messages generalizing n with
  | nil => rfl
  | cons message messages ih =>
    unfold pending completed
    split
    · simpa [pending] using ih (n - message.length)
    · rfl

theorem completed_zero {messages : List (List UInt8)}
    (hsize : ∀ message ∈ messages, SelfSized message) : completed messages 0 = [] := by
  cases messages with
  | nil => rfl
  | cons message messages =>
    have hlong : 4 ≤ message.length := (hsize message (by simp)).headerSize_le
    exact if_neg (by omega)

theorem completed_length_le (messages : List (List UInt8)) (n : Nat) :
    (completed messages n).flatten.length ≤ n := by
  induction messages generalizing n with
  | nil => simp [completed]
  | cons message messages ih =>
    unfold completed
    split
    · have := ih (n - message.length)
      simp only [List.flatten_cons, List.length_append]
      omega
    · simp

/-- More bytes complete more messages, counted from where the first ones end. -/
theorem completed_add (messages : List (List UInt8)) (n k : Nat) :
    completed messages (n + k) = completed messages n ++
      completed (pending messages n) (n - (completed messages n).flatten.length + k) := by
  induction messages generalizing n with
  | nil => rfl
  | cons message messages ih =>
    by_cases hle : message.length ≤ n
    · have hsub : n + k - message.length = n - message.length + k := by omega
      have hlength := completed_length_le messages (n - message.length)
      have hrest : n - (message.length + (completed messages (n - message.length)).flatten.length) =
          n - message.length - (completed messages (n - message.length)).flatten.length := by omega
      simp only [completed, pending, if_pos hle, if_pos (show message.length ≤ n + k by omega), hsub,
        List.cons_append, List.flatten_cons, List.length_append, List.length_cons, List.drop_succ_cons,
        hrest]
      rw [ih (n - message.length)]
      rfl
    · have hnone : completed (message :: messages) n = [] := if_neg hle
      simp [hnone, pending]

theorem completed_pending (messages : List (List UInt8)) (n : Nat) :
    completed (pending messages n) (n - (completed messages n).flatten.length) = [] := by
  have h := completed_add messages n 0
  simpa using h

/-- What is left of the bytes continues with the messages that are left. -/
theorem pending_flatten {messages : List (List UInt8)} {arrived later : List UInt8}
    (h : arrived ++ later = messages.flatten) :
    arrived.drop (completed messages arrived.length).flatten.length ++ later =
      (pending messages arrived.length).flatten := by
  have hsplit := congrArg List.flatten (completed_append_pending messages arrived.length)
  have hle := completed_length_le messages arrived.length
  rw [List.flatten_append, ← h] at hsplit
  rw [← List.drop_append_of_le_length hle, ← hsplit, List.drop_left]

/-- What is left of the bytes after the complete messages is less than a message. -/
theorem leftover_le {messages : List (List UInt8)} {bound n : Nat}
    (hsize : ∀ message ∈ messages, message.length ≤ bound) (hn : n ≤ messages.flatten.length) :
    n - (completed messages n).flatten.length ≤ bound := by
  induction messages generalizing n with
  | nil =>
    simp only [List.flatten_nil, List.length_nil] at hn
    omega
  | cons message messages ih =>
    have hfirst := hsize message (by simp)
    simp only [List.flatten_cons, List.length_append] at hn
    unfold completed
    split
    · have hrest := ih (fun m hm => hsize m (by simp [hm]))
        (show n - message.length ≤ messages.flatten.length by omega)
      simp only [List.flatten_cons, List.length_append]
      omega
    · simp only [List.flatten_nil, List.length_nil]
      omega

namespace Receiver

section Loop

variable {σ ε : Type}

/-- The header of a message is read before all of it is there. -/
theorem expectedMsgSize_eq {message rest later : List UInt8} {s : Receiver σ ε}
    (hmessage : SelfSized message) (hheader : 4 ≤ s.numberOfBytesLeftToRead)
    (hinside : s.readOffset + s.numberOfBytesLeftToRead ≤ s.buffer.length)
    (hstream : s.unread ++ later = message ++ rest) :
    s.expectedMsgSize String.handler = message.length := by
  have hlength := length_unread hinside
  have hlong : 4 ≤ message.length := hmessage.headerSize_le
  have htake : s.unread.take 4 = message.take 4 := by
    have h := congrArg (List.take 4) hstream
    rwa [List.take_append_of_le_length (by omega), List.take_append_of_le_length hlong] at h
  have hsmall : message.length < 256 ^ (message.take 4).length := by
    rw [← hmessage.header]
    exact ofLittleEndian_lt _
  rw [List.length_take, Nat.min_eq_left hlong] at hsmall
  rw [string_expectedMsgSize hheader, htake, hmessage.header]
  exact Nat.mod_eq_of_lt (hsmall.trans_eq (by decide))

theorem readMessagesRound_complete {message rest : List UInt8} {s : Receiver σ ε}
    (hmessage : SelfSized message)
    (hinside : s.readOffset + s.numberOfBytesLeftToRead ≤ s.buffer.length)
    (hunread : s.unread = message ++ rest) :
    readMessagesRound String.handler s =
      .again ((s.raise (.onData message)).updateForDataRead message.length) := by
  have hlength := length_unread hinside
  rw [hunread, List.length_append] at hlength
  have hlong : 4 ≤ message.length := hmessage.headerSize_le
  have hsize := expectedMsgSize_eq hmessage (by omega) hinside
    (show s.unread ++ [] = message ++ rest by rw [List.append_nil, hunread])
  have hread : String.handler.readMessage s.buffer s.readOffset message.length = message := by
    have htake : s.unread.take message.length = message := by rw [hunread, List.take_left]
    rwa [unread, List.take_take, Nat.min_eq_left (by omega)] at htake
  have hheader : s.numberOfBytesLeftToRead ≥ String.handler.getHeaderSize :=
    hmessage.headerSize_le.trans (by omega)
  rw [readMessagesRound, if_pos hheader]
  simp only [hsize, if_neg (show ¬ message.length = 0 by omega),
    if_pos (show s.numberOfBytesLeftToRead ≥ message.length by omega), hread]

theorem readMessagesRound_incomplete {message rest later : List UInt8} {s : Receiver σ ε}
    (hmessage : SelfSized message)
    (hinside : s.readOffset + s.numberOfBytesLeftToRead ≤ s.buffer.length)
    (hstream : s.unread ++ later = message ++ rest)
    (hshort : s.numberOfBytesLeftToRead < message.length) :
    readMessagesRound String.handler s = .leave s := by
  have hlong : 4 ≤ message.length := hmessage.headerSize_le
  unfold readMessagesRound
  split
  · rename_i hheader
    have hsize := expectedMsgSize_eq hmessage hheader hinside hstream
    simp only [hsize, if_neg (show ¬ message.length = 0 by omega),
      if_neg (show ¬ s.numberOfBytesLeftToRead ≥ message.length by omega)]
  · rfl

/-- The loop delivers the complete messages and leaves the rest. The induction is on the messages:
the header in front is always that of the first one. -/
theorem readMessages_completed {messages : List (List UInt8)} {s : Receiver σ ε}
    {later : List UInt8} (hsize : ∀ message ∈ messages, SelfSized message)
    (hinside : s.readOffset + s.numberOfBytesLeftToRead ≤ s.buffer.length)
    (hstream : s.unread ++ later = messages.flatten) {fuel : Nat}
    (hfuel : s.numberOfBytesLeftToRead < fuel) :
    ∃ t, loop (readMessagesRound String.handler) fuel s = some t ∧
      t.events = s.events ++ (completed messages s.numberOfBytesLeftToRead).map .onData ∧
      t.unread = s.unread.drop (completed messages s.numberOfBytesLeftToRead).flatten.length := by
  induction messages generalizing s fuel with
  | nil =>
    obtain ⟨fuel, rfl⟩ : ∃ k, fuel = k + 1 := ⟨fuel - 1, by omega⟩
    have hempty : s.numberOfBytesLeftToRead = 0 := by
      rw [← length_unread hinside, (List.append_eq_nil_iff.mp hstream).1]
      rfl
    have hround : readMessagesRound String.handler s = .leave s := by
      rw [readMessagesRound, if_neg (by rw [hempty]; decide)]
    exact ⟨s, loop_leave hround fuel, by simp [completed], by simp [completed]⟩
  | cons message messages ih =>
    obtain ⟨fuel, rfl⟩ : ∃ k, fuel = k + 1 := ⟨fuel - 1, by omega⟩
    have hmessage := hsize message (by simp)
    have hlength := length_unread hinside
    rw [List.flatten_cons] at hstream
    by_cases hcomplete : message.length ≤ s.numberOfBytesLeftToRead
    · obtain ⟨rest, hrest⟩ : ∃ rest, s.unread = message ++ rest := by
        have hpre : message <+: s.unread :=
          List.prefix_of_prefix_length_le ⟨_, hstream.symm⟩ ⟨later, rfl⟩ (by omega)
        exact hpre.imp fun _ => Eq.symm
      have hlong : 4 ≤ message.length := hmessage.headerSize_le
      have hround := readMessagesRound_complete hmessage hinside hrest
      set t := (s.raise (.onData message)).updateForDataRead message.length with ht
      have hleft : t.numberOfBytesLeftToRead = s.numberOfBytesLeftToRead - message.length := rfl
      have hoffset : t.readOffset = s.readOffset + message.length := rfl
      have hunread : t.unread = rest := by
        rw [ht, unread_updateForDataRead]
        exact (congrArg (List.drop message.length) hrest).trans List.drop_left
      have hstream' : t.unread ++ later = messages.flatten := by
        rw [hrest, List.append_assoc] at hstream
        rw [hunread]
        exact List.append_cancel_left hstream
      obtain ⟨u, hloop, hevents, hu⟩ := ih (fun m hm => hsize m (by simp [hm]))
        (by rw [hoffset, hleft, show t.buffer = s.buffer from rfl]; omega) hstream'
        (show t.numberOfBytesLeftToRead < fuel by omega)
      refine ⟨u, by rw [loop_again hround]; exact hloop, ?_, ?_⟩
      · rw [hevents, completed, if_pos hcomplete, hleft, List.map_cons, ← List.singleton_append,
          ← List.append_assoc]
        rfl
      · rw [hu, completed, if_pos hcomplete, hleft, hunread, hrest, List.flatten_cons,
          List.length_append, ← List.drop_drop, List.drop_left]
    · have hround := readMessagesRound_incomplete hmessage hinside hstream (by omega)
      exact ⟨s, loop_leave hround fuel, by simp [completed, hcomplete],
        by simp [completed, hcomplete]⟩

/-- The socket once it has received the bytes `arrived`. -/
structure Framed (messages : List (List UInt8)) (arrived : List UInt8) (s : Receiver σ ε) :
    Prop where
  buffer : s.buffer.length = String.BUFFER_SIZE
  front : s.readOffset = 0
  window : s.windowEnd = s.buffer.length
  events : s.events = (completed messages arrived.length).map .onData
  unread : s.unread = arrived.drop (completed messages arrived.length).flatten.length

theorem Framed.new {messages : List (List UInt8)} {buffer : List UInt8}
    (hsize : ∀ message ∈ messages, WellSized message) (hbuffer : buffer.length = String.BUFFER_SIZE)
    (own : σ) : (Receiver.new buffer own : Receiver σ ε).Framed messages [] := by
  refine ⟨hbuffer, rfl, Nat.zero_add _, ?_, ?_⟩ <;>
    rw [List.length_nil, completed_zero fun m hm => (hsize m hm).selfSized]
  · rfl
  · rfl

variable {messages : List (List UInt8)} {arrived : List UInt8} {s : Receiver σ ε}

theorem Framed.inside (hs : s.Framed messages arrived) :
    s.readOffset + s.numberOfBytesLeftToRead ≤ s.buffer.length := by
  have hwindow := hs.window
  unfold windowEnd at hwindow
  omega

theorem Framed.left (hs : s.Framed messages arrived) :
    s.numberOfBytesLeftToRead =
      arrived.length - (completed messages arrived.length).flatten.length := by
  rw [← length_unread hs.inside, hs.unread, List.length_drop]

/-- What the socket holds continues to the end of the stream. -/
theorem Framed.stream (hs : s.Framed messages arrived) {later : List UInt8}
    (harrived : arrived ++ later = messages.flatten) :
    s.unread ++ later = (pending messages arrived.length).flatten := by
  rw [hs.unread]
  exact pending_flatten harrived

/-- One `recv` delivers the messages it completes, and what is left of the others comes to the front
of the buffer. -/
theorem Framed.receiveRound {bytes later : List UInt8} (hs : s.Framed messages arrived)
    (hsize : ∀ message ∈ messages, WellSized message)
    (harrived : arrived ++ bytes ++ later = messages.flatten)
    (hasked : bytes.length ≤ s.numberOfBytesLeftToRecv) :
    ∃ s', Receiver.receiveRound (readMessages String.handler) s bytes = some s' ∧
      s'.Framed messages (arrived ++ bytes) := by
  obtain ⟨t, hfill⟩ : ∃ t, s.fill bytes = some t := by
    have hwindow := hs.window
    unfold windowEnd at hwindow
    exact fill_isSome (by omega)
  have htail := hs.stream ((List.append_assoc arrived bytes later).symm.trans harrived)
  have hunread := unread_fill hfill
  have hbuffer := length_buffer_fill hfill
  obtain ⟨hinside, ht⟩ := fill_eq_some hfill
  have hleft : t.numberOfBytesLeftToRead = s.numberOfBytesLeftToRead + bytes.length := by rw [ht]
  have hoffset : t.readOffset = s.readOffset := by rw [ht]
  have hpending : ∀ message ∈ pending messages arrived.length, SelfSized message :=
    fun message hmem => (hsize message (List.mem_of_mem_drop hmem)).selfSized
  obtain ⟨u, hloop, hevents, hrest⟩ := readMessages_completed hpending
    (show t.readOffset + t.numberOfBytesLeftToRead ≤ t.buffer.length by omega)
    (by rw [hunread, List.append_assoc, htail]) (Nat.lt_succ_self _)
  have hread : t.readMessages String.handler = some u := hloop
  -- The messages this round completes are counted from the end of the last complete one.
  have hcompleted : completed messages (arrived ++ bytes).length =
      completed messages arrived.length ++
        completed (pending messages arrived.length) t.numberOfBytesLeftToRead := by
    rw [List.length_append, completed_add, hleft, hs.left]
  have hunread' : u.unread = (arrived ++ bytes).drop
      (completed messages (arrived ++ bytes).length).flatten.length := by
    have hle := completed_length_le messages arrived.length
    rw [hrest, hunread, hs.unread, hcompleted, List.flatten_append, List.length_append,
      ← List.drop_append_of_le_length hle, List.drop_drop]
  obtain ⟨hconsumes, _⟩ := readMessages_consumes hread
  have hinside' : u.readOffset + u.numberOfBytesLeftToRead ≤ u.buffer.length := by
    rw [hconsumes.end_eq, hconsumes.length_buffer]
    omega
  have hfits : u.numberOfBytesLeftToRead ≤ u.receiveBufferShiftSize := by
    have hbound := leftover_le (n := (arrived ++ bytes).length)
      (fun m hm => (hsize m hm).le_shiftSize)
      (by rw [← harrived]; exact (List.prefix_append _ later).length_le)
    rw [← length_unread hinside', hunread', List.length_drop, receiveBufferShiftSize,
      hconsumes.length_buffer, hbuffer, hs.buffer]
    exact hbound
  obtain ⟨hlength, hfront, hleft', hrecv, hsame, _, hevents'⟩ := rewind_front hinside' hfits
  refine ⟨u.rewind, by simp [Receiver.receiveRound, hfill, hread], ?_, hfront, ?_, ?_, ?_⟩
  · rw [hlength, hconsumes.length_buffer, hbuffer, hs.buffer]
  · rw [windowEnd, hfront, hleft', hrecv, hlength]
    omega
  · rw [hevents', hevents, hcompleted, List.map_append, ← hs.events]
    simp only [ht]
  · rw [hsame, hunread']

theorem Framed.receive {chunks : List (List UInt8)} {later : List UInt8}
    (hs : s.Framed messages arrived) (hsize : ∀ message ∈ messages, WellSized message)
    (harrived : arrived ++ chunks.flatten ++ later = messages.flatten)
    (hdelivered : s.Delivered (readMessages String.handler) chunks) :
    ∃ s', Receiver.receive (readMessages String.handler) s chunks = some s' ∧
      s'.Framed messages (arrived ++ chunks.flatten) := by
  induction chunks generalizing s arrived with
  | nil => exact ⟨s, rfl, by simpa using hs⟩
  | cons bytes chunks ih =>
    obtain ⟨_, hasked, hrest⟩ := hdelivered
    rw [List.flatten_cons, ← List.append_assoc] at harrived
    obtain ⟨s', hround, hs'⟩ := hs.receiveRound hsize
      ((List.append_assoc _ _ _).symm.trans harrived) hasked
    obtain ⟨t, hreceive, ht⟩ := ih hs' harrived (hrest s' hround)
    refine ⟨t, by rw [receive_cons hround, hreceive], ?_⟩
    rwa [List.flatten_cons, ← List.append_assoc]

/-- Three quarters of the buffer are always free. -/
theorem Framed.delivered {chunks : List (List UInt8)} {later : List UInt8}
    (hs : s.Framed messages arrived) (hsize : ∀ message ∈ messages, WellSized message)
    (harrived : arrived ++ chunks.flatten ++ later = messages.flatten)
    (hchunks : ∀ bytes ∈ chunks, 1 ≤ bytes.length ∧
      bytes.length ≤ String.BUFFER_SIZE - String.BUFFER_SIZE / 4) :
    s.Delivered (readMessages String.handler) chunks := by
  induction chunks generalizing s arrived with
  | nil => trivial
  | cons bytes chunks ih =>
    obtain ⟨hpos, hle⟩ := hchunks bytes (by simp)
    rw [List.flatten_cons, ← List.append_assoc] at harrived
    have hbound := leftover_le (n := arrived.length) (fun m hm => (hsize m hm).le_shiftSize)
      (by rw [← harrived, List.append_assoc, List.append_assoc]
          exact (List.prefix_append _ _).length_le)
    have hasked : bytes.length ≤ s.numberOfBytesLeftToRecv := by
      have hwindow := hs.window
      have hbuffer := hs.buffer
      have hfront := hs.front
      have hleft := hs.left
      unfold windowEnd at hwindow
      omega
    refine ⟨hpos, hasked, fun s' hround => ?_⟩
    obtain ⟨t, ht, hframed⟩ := hs.receiveRound hsize
      ((List.append_assoc _ _ _).symm.trans harrived) hasked
    obtain rfl := Option.some.inj (hround.symm.trans ht)
    exact ih hframed harrived fun c hc => hchunks c (by simp [hc])

end Loop

end Receiver

/-- Over any cut of the messages into `recv`s and any division of these into calls of `Receive`,
exactly the complete messages are delivered, and the rest is in the buffer. -/
theorem receiveCalls_completed (memory : Nat → UInt8) {messages : List (List UInt8)}
    (hsize : ∀ message ∈ messages, WellSized message) {calls : List (List (List UInt8))}
    (hstream : calls.flatten.flatten <+: messages.flatten)
    (hdelivered : (DataSocket.new memory String.BUFFER_SIZE).Delivered
      (readMessages String.handler) calls.flatten) :
    ∃ s, (DataSocket.new memory String.BUFFER_SIZE).receiveCalls (readMessages String.handler)
        calls = some s ∧
      s.events = (completed messages calls.flatten.flatten.length).map .onData ∧
      s.unread = calls.flatten.flatten.drop
        (completed messages calls.flatten.flatten.length).flatten.length := by
  obtain ⟨later, hlater⟩ := hstream
  have hnew : (DataSocket.new memory String.BUFFER_SIZE).Framed messages [] :=
    Framed.new hsize (length_uninitialized memory String.BUFFER_SIZE) ()
  obtain ⟨s, hreceive, hs⟩ := hnew.receive hsize (by simpa using hlater) hdelivered
  rw [List.nil_append] at hs
  exact ⟨s, by rw [receiveCalls_flatten, hreceive], hs.events, hs.unread⟩

theorem receiveCalls_completed_two :
    ∃ s, (DataSocket.new (fun _ => 0) String.BUFFER_SIZE).receiveCalls (readMessages String.handler)
        [[[5, 0], [0, 0, 7, 6]], [[0, 0, 0, 9]]] = some s ∧
      s.events = [.onData [5, 0, 0, 0, 7]] ∧ s.unread = [6, 0, 0, 0, 9] := by
  have hsize : ∀ message ∈ [[5, 0, 0, 0, 7], [6, 0, 0, 0, 9, 8]], WellSized message := by
    intro message hmem
    simp only [List.mem_cons, List.not_mem_nil, or_false] at hmem
    obtain rfl | rfl := hmem <;> exact ⟨by decide, by decide, by decide⟩
  have hstream : ([] : List UInt8) ++ [[[5, 0], [0, 0, 7, 6]], [[0, 0, 0, 9]]].flatten.flatten ++ [8] =
      [[5, 0, 0, 0, 7], [6, 0, 0, 0, 9, 8]].flatten := by decide
  have hnew := Framed.new (ε := Empty) hsize (length_uninitialized (fun _ => 0) String.BUFFER_SIZE) ()
  exact receiveCalls_completed (fun _ => 0) hsize ⟨[8], hstream⟩
    (hnew.delivered hsize hstream (by decide))

end LuPlatform.Socket
