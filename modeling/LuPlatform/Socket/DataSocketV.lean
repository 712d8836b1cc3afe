import LuPlatform.Socket.MessageFraming
import LuPlatform.Socket.StringV

/-! `DataSocketV` over the `StringV` handler. Its `readMessages` does on the two buffers what that of
`DataSocket` does on one. A round leaves less than a message behind, so behind the unread bytes there
is always room, and when they all lie in the second buffer, it becomes the first. -/

namespace LuPlatform.Socket

open Bytes Loop StringV

structure DataSocketV where
  dataHandler : StringV
  readOffset : Nat := 0
  numberOfBytesLeftToRead : Nat := 0
  numberOfBytesLeftToRecv : Nat := getReceiveBufferSize
  events : List (SocketEvent Empty) := []
  deriving DecidableEq, Repr

namespace DataSocketV

def raise (s : DataSocketV) (event : SocketEvent Empty) : DataSocketV :=
  { s with events := s.events ++ [event] }

def updateForDataRead (s : DataSocketV) (size : Nat) : DataSocketV :=
  { s with
    readOffset := s.readOffset + size
    numberOfBytesLeftToRead := s.numberOfBytesLeftToRead - size }

/-- It leaves with `none` where it reads outside the buffers. -/
def readMessagesRound (s : DataSocketV) : Round DataSocketV (Option DataSocketV) :=
  if s.numberOfBytesLeftToRead ≥ getHeaderSize then
    match s.dataHandler.readHeader s.readOffset with
    | none => .leave none
    | some expectedMsgSize =>
      let s := if expectedMsgSize = 0 then s.raise .stop else s
      if s.numberOfBytesLeftToRead ≥ expectedMsgSize then
        match s.dataHandler.readMessage s.readOffset expectedMsgSize with
        | none => .leave none
        | some message => .again ((s.raise (.onData message)).updateForDataRead expectedMsgSize)
      else
        .leave (some s)
  else
    .leave (some s)

def readMessages (s : DataSocketV) : Option DataSocketV :=
  (loop readMessagesRound (s.numberOfBytesLeftToRead + 1) s).join

/-- The vector that the next `readv` gets. -/
def window (s : DataSocketV) : List IOVec :=
  getNumberOfBuffers (s.readOffset + s.numberOfBytesLeftToRead)

def fill (s : DataSocketV) (bytes : List UInt8) : Option DataSocketV := do
  let dataHandler ← s.dataHandler.readv s.window bytes
  return { s with
    dataHandler
    numberOfBytesLeftToRead := s.numberOfBytesLeftToRead + bytes.length }

/-- The end of a round of the loop. -/
def settle (s : DataSocketV) : DataSocketV :=
  if s.numberOfBytesLeftToRead = 0 then
    { s with
      readOffset := 0
      numberOfBytesLeftToRecv := getReceiveBufferSize }
  else if s.readOffset ≥ getSingleBufferSize then
    { s with
      dataHandler := s.dataHandler.swap
      readOffset := s.readOffset - getSingleBufferSize
      numberOfBytesLeftToRecv := getReceiveBufferSize - s.numberOfBytesLeftToRead }
  else
    s

/-- A call of `readv` that delivers bytes, and the rest of the round. -/
def receiveRound (s : DataSocketV) (bytes : List UInt8) : Option DataSocketV := do
  let s ← s.fill bytes
  let s ← s.readMessages
  return s.settle

/-- The data of the successive calls of `readv` in one call of `Receive`. -/
def receive (s : DataSocketV) (chunks : List (List UInt8)) : Option DataSocketV :=
  chunks.foldlM receiveRound s

def receiveCalls (s : DataSocketV) (calls : List (List (List UInt8))) : Option DataSocketV :=
  calls.foldlM receive s

/-- The constructor, over buffers that are not initialised. -/
def new (memory1 memory2 : Nat → UInt8) : DataSocketV where
  dataHandler := ⟨uninitialized memory1 BUFFER_SIZE, uninitialized memory2 BUFFER_SIZE⟩

/-- The next `readv` has room, inside the buffers and beside the unread bytes. -/
structure WindowFree (s : DataSocketV) : Prop where
  room : 0 < room s.window
  inside : ∀ v ∈ s.window, v.offset + v.len ≤ BUFFER_SIZE
  unread : ∀ v ∈ s.window, ∀ i < v.len, ∀ j < s.numberOfBytesLeftToRead,
    position (s.readOffset + j) ≠ (v.base, v.offset + i)

/-- Every `readv` delivers at least one byte and at most as many as its vector has room for. -/
def Delivered (s : DataSocketV) : List (List UInt8) → Prop
  | [] => True
  | bytes :: chunks =>
    1 ≤ bytes.length ∧ bytes.length ≤ room s.window ∧
      ∀ s', s.receiveRound bytes = some s' → s'.Delivered chunks

/-- Before every call of `readv`, also the one after the last chunk, its window is free. -/
def WindowsFree (s : DataSocketV) : List (List UInt8) → Prop
  | [] => s.WindowFree
  | bytes :: chunks => s.WindowFree ∧ ∀ s', s.receiveRound bytes = some s' → s'.WindowsFree chunks

/-! ### The two buffers as one -/

/-- The counters over one buffer, as `DataSocket` has them. -/
def joined (s : DataSocketV) : Receiver Unit Empty where
  buffer := s.dataHandler.bytes
  readOffset := s.readOffset
  numberOfBytesLeftToRead := s.numberOfBytesLeftToRead
  numberOfBytesLeftToRecv := s.numberOfBytesLeftToRecv
  own := ()
  events := s.events

def unread (s : DataSocketV) : List UInt8 := s.joined.unread

/-- The buffers are allocated and the unread bytes lie in them. -/
structure Inside (s : DataSocketV) : Prop where
  allocated : s.dataHandler.Allocated
  inside : s.readOffset + s.numberOfBytesLeftToRead ≤ getReceiveBufferSize

variable {s : DataSocketV}

theorem Inside.joined (hs : s.Inside) :
    s.joined.readOffset + s.joined.numberOfBytesLeftToRead ≤ s.joined.buffer.length :=
  hs.inside.trans_eq hs.allocated.length_bytes.symm

theorem Inside.readHeader (hs : s.Inside) (h : getHeaderSize ≤ s.numberOfBytesLeftToRead) :
    s.dataHandler.readHeader s.readOffset = some (s.joined.expectedMsgSize String.handler) := by
  have hinside := hs.inside
  have hheader : (s.joined.unread.take 4).length = 4 := by
    rw [List.length_take, Receiver.length_unread hs.joined]
    exact Nat.min_eq_left h
  have hsmall := ofLittleEndian_lt (s.joined.unread.take 4)
  rw [hheader] at hsmall
  rw [StringV.readHeader, copy_of_initial hs.allocated h hinside,
    Receiver.string_expectedMsgSize (s := s.joined) h, Nat.mod_eq_of_lt (hsmall.trans_eq (by decide))]
  rfl

theorem Inside.readMessage (hs : s.Inside) {size : Nat} (h : size ≤ s.numberOfBytesLeftToRead) :
    s.dataHandler.readMessage s.readOffset size =
      some (String.handler.readMessage s.joined.buffer s.readOffset size) := by
  have hinside := hs.inside
  rw [StringV.readMessage, copy_eq hs.allocated (by omega)]
  rfl

theorem Inside.raise (hs : s.Inside) (event : SocketEvent Empty) : (s.raise event).Inside :=
  ⟨hs.allocated, hs.inside⟩

theorem Inside.updateForDataRead (hs : s.Inside) {size : Nat} (h : size ≤ s.numberOfBytesLeftToRead) :
    (s.updateForDataRead size).Inside := by
  refine ⟨hs.allocated, ?_⟩
  have hinside := hs.inside
  simp only [DataSocketV.updateForDataRead]
  omega

/-- A round of `DataSocket` on the joined buffer is one of `DataSocketV`. -/
theorem readMessagesRound_joined (hs : s.Inside) (r : Round (Receiver Unit Empty) (Receiver Unit Empty))
    (h : Receiver.readMessagesRound String.handler s.joined = r) :
    (∃ s', s.readMessagesRound = .again s' ∧ r = .again s'.joined ∧ s'.Inside) ∨
      ∃ s', s.readMessagesRound = .leave (some s') ∧ r = .leave s'.joined ∧ s'.Inside := by
  subst h
  by_cases hheader : s.numberOfBytesLeftToRead ≥ getHeaderSize
  · set size := s.joined.expectedMsgSize String.handler with hsize
    obtain ⟨u, hu, hjoined, hinside, hhandler, hoffset, hleft⟩ : ∃ u : DataSocketV,
        (if size = 0 then s.raise .stop else s) = u ∧
        (if size = 0 then s.joined.raise .stop else s.joined) = u.joined ∧ u.Inside ∧
        u.dataHandler = s.dataHandler ∧ u.readOffset = s.readOffset ∧
        u.numberOfBytesLeftToRead = s.numberOfBytesLeftToRead := by
      by_cases hzero : size = 0
      · exact ⟨s.raise .stop, if_pos hzero, if_pos hzero, hs.raise .stop, rfl, rfl, rfl⟩
      · exact ⟨s, if_neg hzero, if_neg hzero, hs, rfl, rfl, rfl⟩
    have hround : s.readMessagesRound =
        if u.numberOfBytesLeftToRead ≥ size then
          match u.dataHandler.readMessage u.readOffset size with
          | none => .leave none
          | some message => .again ((u.raise (.onData message)).updateForDataRead size)
        else .leave (some u) := by
      rw [readMessagesRound, if_pos hheader, hs.readHeader hheader]
      simp only [hu, ← hsize]
    have hround' : Receiver.readMessagesRound String.handler s.joined =
        if u.numberOfBytesLeftToRead ≥ size then
          .again ((u.joined.raise (.onData
            (String.handler.readMessage u.joined.buffer u.readOffset size))).updateForDataRead size)
        else .leave u.joined := by
      rw [Receiver.readMessagesRound,
        if_pos (show s.joined.numberOfBytesLeftToRead ≥ String.handler.getHeaderSize from hheader)]
      simp only [← hsize, hjoined]
      rfl
    rw [hround, hround']
    by_cases hcomplete : u.numberOfBytesLeftToRead ≥ size
    · left
      rw [if_pos hcomplete, if_pos hcomplete, hinside.readMessage hcomplete]
      exact ⟨_, rfl, rfl, (hinside.raise _).updateForDataRead hcomplete⟩
    · right
      rw [if_neg hcomplete, if_neg hcomplete]
      exact ⟨u, rfl, rfl, hinside⟩
  · right
    refine ⟨s, if_neg hheader, ?_, hs⟩
    exact if_neg (show ¬ s.joined.numberOfBytesLeftToRead ≥ String.handler.getHeaderSize from hheader)

/-- `readMessages` is that of `DataSocket`. -/
theorem readMessages_joined (hs : s.Inside) {t : Receiver Unit Empty}
    (h : s.joined.readMessages String.handler = some t) :
    ∃ s', s.readMessages = some s' ∧ s'.joined = t ∧ s'.Inside := by
  obtain ⟨r, hloop, s', rfl, hjoined, hinside⟩ := loop_simulation
    (fun (s : DataSocketV) (t : Receiver Unit Empty) => t = s.joined ∧ s.Inside)
    (fun r t => ∃ s' : DataSocketV, r = some s' ∧ s'.joined = t ∧ s'.Inside) (s := s)
    (by
      rintro s t t' ⟨rfl, hs⟩ hround
      obtain ⟨s', hs', heq, hinside⟩ | ⟨s', hs', heq, _⟩ := readMessagesRound_joined hs _ hround
      · exact ⟨s', hs', Round.again.inj heq, hinside⟩
      · cases heq)
    (by
      rintro s t t' ⟨rfl, hs⟩ hround
      obtain ⟨s', hs', heq, _⟩ | ⟨s', hs', heq, hinside⟩ := readMessagesRound_joined hs _ hround
      · cases heq
      · exact ⟨some s', hs', s', rfl, (Round.leave.inj heq).symm, hinside⟩)
    ⟨rfl, hs⟩ h
  refine ⟨s', ?_, hjoined, hinside⟩
  rw [readMessages, show s.numberOfBytesLeftToRead + 1 = s.joined.numberOfBytesLeftToRead + 1 from rfl,
    hloop]
  rfl

/-- `readv` does what `recv` does on the joined buffer. -/
theorem fill_joined (hs : s.Inside) {bytes : List UInt8} (hroom : bytes.length ≤ room s.window) :
    ∃ s', s.fill bytes = some s' ∧ s.joined.fill bytes = some s'.joined ∧ s'.Inside := by
  have hinside := hs.inside
  rw [window, room_getNumberOfBuffers hinside] at hroom
  obtain ⟨dataHandler, hreadv, hallocated, hbytes⟩ := readv_eq hs.allocated
    (show s.readOffset + s.numberOfBytesLeftToRead + bytes.length ≤ getReceiveBufferSize by omega)
  refine ⟨{ s with
    dataHandler
    numberOfBytesLeftToRead := s.numberOfBytesLeftToRead + bytes.length }, ?_, ?_, hallocated, ?_⟩
  · simp [fill, window, hreadv]
  · have hlength := hs.allocated.length_bytes
    rw [Receiver.fill, if_pos (by simp only [joined]; omega)]
    simp only [joined, hbytes]
  · simp only
    omega

/-! ### The rounds -/

/-- The windows that `getNumberOfBuffers` sets up are free as long as an offset in the first buffer
leaves room. -/
theorem windowFree_of_room
    (hroom : s.readOffset + s.numberOfBytesLeftToRead < getReceiveBufferSize) : s.WindowFree := by
  have hsize : getReceiveBufferSize = BUFFER_SIZE + BUFFER_SIZE := rfl
  refine ⟨?_, fun v hv => ?_, fun v hv i hi j hj heq => ?_⟩
  · rw [window, room_getNumberOfBuffers hroom.le]
    omega
  · unfold window getNumberOfBuffers at hv
    split at hv
    · simp only [List.mem_cons, List.not_mem_nil, or_false] at hv
      obtain rfl | rfl := hv <;> simp only <;> omega
    · simp only [List.mem_cons, List.not_mem_nil, or_false] at hv
      obtain rfl | rfl := hv <;> simp only <;> omega
  · unfold window getNumberOfBuffers at hv
    unfold position at heq
    split at hv
    · simp only [List.mem_cons, List.not_mem_nil, or_false] at hv
      rw [if_pos (by omega)] at heq
      obtain rfl | rfl := hv
      · have hoffset := congrArg Prod.snd heq
        simp only at hoffset
        omega
      · cases congrArg Prod.fst heq
    · simp only [List.mem_cons, List.not_mem_nil, or_false] at hv
      obtain rfl | rfl := hv
      · simp only at hi
        omega
      · split at heq
        · cases congrArg Prod.fst heq
        · have hoffset := congrArg Prod.snd heq
          simp only at hoffset
          omega

/-- The end of a round puts the offset into the first buffer and keeps the unread bytes. -/
theorem settle_spec (hs : s.Inside) :
    s.settle.Inside ∧ s.settle.readOffset < BUFFER_SIZE ∧
      s.settle.numberOfBytesLeftToRead = s.numberOfBytesLeftToRead ∧
      s.settle.unread = s.unread ∧ s.settle.events = s.events := by
  have hsize : getReceiveBufferSize = BUFFER_SIZE + BUFFER_SIZE := rfl
  have hinside := hs.inside
  by_cases hzero : s.numberOfBytesLeftToRead = 0
  · have hsettle : s.settle = { s with
        readOffset := 0
        numberOfBytesLeftToRecv := getReceiveBufferSize } := if_pos hzero
    rw [hsettle]
    refine ⟨⟨hs.allocated, ?_⟩, (by decide : 0 < BUFFER_SIZE), rfl, ?_, rfl⟩
    · simp only
      omega
    · simp [unread, Receiver.unread, joined, hzero]
  · by_cases hswap : s.readOffset ≥ getSingleBufferSize
    · have hsettle : s.settle = { s with
          dataHandler := s.dataHandler.swap
          readOffset := s.readOffset - getSingleBufferSize
          numberOfBytesLeftToRecv := getReceiveBufferSize - s.numberOfBytesLeftToRead } := by
        rw [settle, if_neg hzero, if_pos hswap]
      rw [hsettle]
      have hsingle : getSingleBufferSize = BUFFER_SIZE := rfl
      have h₁ := hs.allocated.buffer1
      have h₂ := hs.allocated.buffer2
      refine ⟨⟨hs.allocated.swap, ?_⟩, ?_, rfl, ?_, rfl⟩
      · simp only
        omega
      · simp only
        omega
      -- the unread bytes all lie in the second buffer, which is now in front
      · have hgone : s.dataHandler.buffer1.drop s.readOffset = [] := List.drop_eq_nil_of_le (by omega)
        simp only [unread, Receiver.unread, joined, bytes, swap, hsingle]
        rw [List.drop_append_of_le_length (by omega), List.take_append_of_le_length
          (by rw [List.length_drop]; omega), List.drop_append, hgone, h₁, List.nil_append]
    · have hsettle : s.settle = s := by rw [settle, if_neg hzero, if_neg hswap]
      rw [hsettle]
      have hsingle : getSingleBufferSize = BUFFER_SIZE := rfl
      exact ⟨hs, by omega, rfl, rfl, rfl⟩

/-- A message that starts with its own length and fits in one of the buffers. -/
structure WellSized (message : List UInt8) : Prop where
  header : ofLittleEndian (message.take 4) = message.length
  headerSize_le : getHeaderSize ≤ message.length
  le_singleBufferSize : message.length ≤ getSingleBufferSize

theorem WellSized.selfSized {message : List UInt8} (h : WellSized message) : SelfSized message :=
  ⟨h.header, h.headerSize_le⟩

/-- The socket once it has received the bytes `arrived`. -/
structure Framed (messages : List (List UInt8)) (arrived : List UInt8) (s : DataSocketV) : Prop where
  inside : s.Inside
  front : s.readOffset < BUFFER_SIZE
  events : s.events = (completed messages arrived.length).map .onData
  unread : s.unread = arrived.drop (completed messages arrived.length).flatten.length

theorem new_inside (memory1 memory2 : Nat → UInt8) : (DataSocketV.new memory1 memory2).Inside := by
  refine ⟨⟨?_, ?_⟩, Nat.zero_le _⟩ <;> simp only [DataSocketV.new, length_uninitialized]

theorem Framed.new {messages : List (List UInt8)} (hsize : ∀ message ∈ messages, WellSized message)
    (memory1 memory2 : Nat → UInt8) : (DataSocketV.new memory1 memory2).Framed messages [] := by
  have hnone := completed_zero fun m hm => (hsize m hm).selfSized
  refine ⟨new_inside memory1 memory2, (by decide : 0 < BUFFER_SIZE), ?_, ?_⟩
  · rw [List.length_nil, hnone]
    rfl
  · rw [List.length_nil, hnone]
    rfl

section Framed

variable {messages : List (List UInt8)} {arrived : List UInt8}

theorem Framed.left (hs : s.Framed messages arrived) :
    s.numberOfBytesLeftToRead =
      arrived.length - (completed messages arrived.length).flatten.length := by
  have hlength := Receiver.length_unread hs.inside.joined
  rw [show s.joined.unread = s.unread from rfl, hs.unread, List.length_drop] at hlength
  exact hlength.symm

/-- What is unread is less than a message, so that there is room behind it. -/
theorem Framed.windowFree {later : List UInt8} (hs : s.Framed messages arrived)
    (hsize : ∀ message ∈ messages, WellSized message) (harrived : arrived ++ later = messages.flatten) :
    s.WindowFree := by
  have hbound := leftover_le (n := arrived.length) (fun m hm => (hsize m hm).le_singleBufferSize)
    (by rw [← harrived]; exact (List.prefix_append _ _).length_le)
  have htwo : getReceiveBufferSize = getSingleBufferSize + BUFFER_SIZE := rfl
  have hfront := hs.front
  have hleft := hs.left
  exact windowFree_of_room (by omega)

theorem Framed.receiveRound {bytes later : List UInt8} (hs : s.Framed messages arrived)
    (hsize : ∀ message ∈ messages, WellSized message)
    (harrived : arrived ++ bytes ++ later = messages.flatten) (hroom : bytes.length ≤ room s.window) :
    ∃ s', s.receiveRound bytes = some s' ∧ s'.Framed messages (arrived ++ bytes) := by
  obtain ⟨t, hfill, hjoined, ht⟩ := fill_joined hs.inside hroom
  have hle := completed_length_le messages arrived.length
  have hunread : t.joined.unread = s.unread ++ bytes := Receiver.unread_fill hjoined
  have hleft : t.joined.numberOfBytesLeftToRead = s.numberOfBytesLeftToRead + bytes.length := by
    rw [(Receiver.fill_eq_some hjoined).2]
    rfl
  have hevents : t.joined.events = s.events := by
    rw [(Receiver.fill_eq_some hjoined).2]
    rfl
  have hstream : t.joined.unread ++ later = (pending messages arrived.length).flatten := by
    have hsplit := congrArg List.flatten (completed_append_pending messages arrived.length)
    rw [List.flatten_append, ← harrived, List.append_assoc] at hsplit
    rw [hunread, hs.unread, List.append_assoc, ← List.drop_append_of_le_length hle, ← hsplit,
      List.drop_left]
  obtain ⟨u, hloop, hevents', hrest⟩ := Receiver.readMessages_completed
    (fun m hm => (hsize m (List.mem_of_mem_drop hm)).selfSized) ht.joined hstream (Nat.lt_succ_self _)
  obtain ⟨u, hread, rfl, hu⟩ := readMessages_joined ht hloop
  -- the messages that this round completes are counted from the end of the last complete one
  have hcompleted : completed messages (arrived ++ bytes).length =
      completed messages arrived.length ++
        completed (pending messages arrived.length) t.joined.numberOfBytesLeftToRead := by
    rw [List.length_append, completed_add, hleft, hs.left]
  obtain ⟨hinside, hfront, _, hunread', hsettled⟩ := settle_spec hu
  refine ⟨u.settle, by simp [DataSocketV.receiveRound, hfill, hread], hinside, hfront, ?_, ?_⟩
  · rw [hsettled, hcompleted, List.map_append, ← hs.events, ← hevents]
    exact hevents'
  · rw [hunread', hcompleted, List.flatten_append, List.length_append, ← List.drop_drop,
      List.drop_append_of_le_length hle, ← hs.unread, ← hunread]
    exact hrest

theorem Framed.receive {chunks : List (List UInt8)} {later : List UInt8}
    (hs : s.Framed messages arrived) (hsize : ∀ message ∈ messages, WellSized message)
    (harrived : arrived ++ chunks.flatten ++ later = messages.flatten)
    (hdelivered : s.Delivered chunks) :
    s.WindowsFree chunks ∧
      ∃ s', s.receive chunks = some s' ∧ s'.Framed messages (arrived ++ chunks.flatten) := by
  induction chunks generalizing s arrived with
  | nil => exact ⟨hs.windowFree hsize (by simpa using harrived), s, rfl, by simpa using hs⟩
  | cons bytes chunks ih =>
    obtain ⟨_, hroom, hrest⟩ := hdelivered
    rw [List.flatten_cons, ← List.append_assoc] at harrived
    have hfree := hs.windowFree hsize
      (show arrived ++ (bytes ++ (chunks.flatten ++ later)) = messages.flatten by
        rw [← harrived]
        simp only [List.append_assoc])
    obtain ⟨s', hround, hs'⟩ := hs.receiveRound hsize
      ((List.append_assoc _ _ _).symm.trans harrived) hroom
    obtain ⟨hwindows, t, hreceive, ht⟩ := ih hs' harrived (hrest s' hround)
    refine ⟨⟨hfree, fun u hu => ?_⟩, t, by simpa [DataSocketV.receive, hround] using hreceive, ?_⟩
    · obtain rfl := Option.some.inj (hround.symm.trans hu)
      exact hwindows
    · rwa [List.flatten_cons, ← List.append_assoc]

end Framed

theorem receiveCalls_flatten (s : DataSocketV) (calls : List (List (List UInt8))) :
    s.receiveCalls calls = s.receive calls.flatten := by
  induction calls generalizing s with
  | nil => rfl
  | cons call calls ih =>
    rw [List.flatten_cons, DataSocketV.receive, List.foldlM_append]
    simp only [receiveCalls, DataSocketV.receive, List.foldlM_cons] at ih ⊢
    exact congrArg _ (funext ih)

/-- Over any cut of the messages into `readv`s and any division of these into calls of `Receive`, every
window is free, exactly the complete messages are delivered, and the rest is in the buffers. -/
theorem receiveCalls_delivered (memory1 memory2 : Nat → UInt8) {messages : List (List UInt8)}
    (hsize : ∀ message ∈ messages, WellSized message) {calls : List (List (List UInt8))}
    (hstream : calls.flatten.flatten <+: messages.flatten)
    (hdelivered : (new memory1 memory2).Delivered calls.flatten) :
    (new memory1 memory2).WindowsFree calls.flatten ∧
      ∃ s, (new memory1 memory2).receiveCalls calls = some s ∧
        s.events = (completed messages calls.flatten.flatten.length).map .onData ∧
        s.unread = calls.flatten.flatten.drop
          (completed messages calls.flatten.flatten.length).flatten.length := by
  obtain ⟨later, hlater⟩ := hstream
  have hnew := Framed.new hsize memory1 memory2
  obtain ⟨hwindows, s, hreceive, hs⟩ := hnew.receive hsize (by simpa using hlater) hdelivered
  rw [List.nil_append] at hs
  exact ⟨hwindows, s, by rw [receiveCalls_flatten, hreceive], hs.events, hs.unread⟩

/-- A message and the beginning of another one. -/
theorem receiveCalls_delivered_first :
    (new (fun _ => 0) (fun _ => 0)).WindowsFree [[5, 0, 0, 0, 7, 6, 0]] ∧
      ∃ s, (new (fun _ => 0) (fun _ => 0)).receiveCalls [[[5, 0, 0, 0, 7, 6, 0]]] = some s ∧
        s.events = [.onData [5, 0, 0, 0, 7]] ∧ s.unread = [6, 0] := by
  have hsize : ∀ message ∈ [[5, 0, 0, 0, 7], [6, 0, 0, 0, 9, 8]], WellSized message := by
    intro message hmem
    simp only [List.mem_cons, List.not_mem_nil, or_false] at hmem
    obtain rfl | rfl := hmem <;> exact ⟨by decide, by decide, by decide⟩
  have hroom : room (new (fun _ => 0) (fun _ => 0)).window = getReceiveBufferSize :=
    room_getNumberOfBuffers (Nat.zero_le _)
  have hstream : [[[5, 0, 0, 0, 7, 6, 0]]].flatten.flatten <+:
      ([[5, 0, 0, 0, 7], [6, 0, 0, 0, 9, 8]] : List (List UInt8)).flatten := ⟨[0, 0, 9, 8], by decide⟩
  exact receiveCalls_delivered (fun _ => 0) (fun _ => 0) hsize hstream
    ⟨by decide, by rw [hroom]; decide, fun _ _ => trivial⟩

end DataSocketV

end LuPlatform.Socket
