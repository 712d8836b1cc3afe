import LuPlatform.Library.TransitionSystem
import LuPlatform.Library.Bytes
import LuPlatform.Socket.ReceiveLoop

/-! `EventChannel`: threads write events into a pipe and the thread that owns the channel calls a
handler for each of them. A read may cut an event anywhere. What it leaves is less than an event and
always comes to the front of the buffer. -/

namespace LuPlatform.Thread

open Bytes Loop Socket Transition

/-- `EventData`, packed. -/
structure EventData where
  eventType : BitVec 32
  channelID : BitVec 32
  data : BitVec 64
  deriving DecidableEq, Repr

inductive EventCallback where
  | onNewConnection (data : BitVec 64)
  | onAppMsg (data : BitVec 64) (channelID : BitVec 32)
  deriving DecidableEq, Repr

namespace EventData

/-- The values of `EventType`. -/
def NewConnection : BitVec 32 := 1#32

def AppMessage : BitVec 32 := 2#32

def size : Nat := 16

def toBytes (event : EventData) : List UInt8 :=
  toLittleEndian 4 event.eventType.toNat ++ toLittleEndian 4 event.channelID.toNat ++
    toLittleEndian 8 event.data.toNat

def ofBytes (bytes : List UInt8) : EventData where
  eventType := BitVec.ofNat 32 (ofLittleEndian (bytes.take 4))
  channelID := BitVec.ofNat 32 (ofLittleEndian ((bytes.drop 4).take 4))
  data := BitVec.ofNat 64 (ofLittleEndian (bytes.drop 8))

/-- What `readMessages` calls for an event. -/
def callback (event : EventData) : Option EventCallback :=
  if event.eventType = NewConnection then
    some (.onNewConnection event.data)
  else if event.eventType = AppMessage then
    some (.onAppMsg event.data event.channelID)
  else
    none

@[simp] theorem length_toBytes (event : EventData) : event.toBytes.length = size := by
  simp [toBytes, size]

theorem ofBytes_toBytes (event : EventData) : ofBytes event.toBytes = event := by
  have htype : event.toBytes.take 4 = toLittleEndian 4 event.eventType.toNat := by
    rw [toBytes, List.append_assoc, List.take_left' (length_toLittleEndian ..)]
  have hrest : event.toBytes.drop 4 =
      toLittleEndian 4 event.channelID.toNat ++ toLittleEndian 8 event.data.toNat := by
    rw [toBytes, List.append_assoc, List.drop_left' (length_toLittleEndian ..)]
  have hdata : event.toBytes.drop 8 = toLittleEndian 8 event.data.toNat := by
    rw [toBytes, List.drop_left' (by simp)]
  obtain ⟨eventType, channelID, data⟩ := event
  have htypeLt := eventType.isLt
  have hchannelLt := channelID.isLt
  have hdataLt := data.isLt
  simp only [ofBytes, htype, hrest, hdata, List.take_left' (length_toLittleEndian ..),
    ofLittleEndian_toLittleEndian]
  simp only [EventData.mk.injEq]
  refine ⟨BitVec.eq_of_toNat_eq ?_, BitVec.eq_of_toNat_eq ?_, BitVec.eq_of_toNat_eq ?_⟩ <;>
    rw [BitVec.toNat_ofNat] <;> omega

end EventData

/-- The buffer with its counters, and the callbacks made so far. -/
abbrev EventChannel := Receiver (List EventCallback) Empty

namespace EventChannel

def BUFFER_SIZE : Nat := EventData.size * 200

def READ_BUFFER_SHIFT_SIZE : Nat := EventData.size * 10

def readMessagesRound (s : EventChannel) : Round EventChannel EventChannel :=
  if s.numberOfBytesLeftToRead < EventData.size then
    .leave s
  else
    let eventData := EventData.ofBytes ((s.buffer.drop s.readOffset).take EventData.size)
    let s := s.updateForDataRead EventData.size
    .again { s with own := s.own ++ eventData.callback.toList }

def readMessages (s : EventChannel) : Option EventChannel :=
  loop readMessagesRound (s.numberOfBytesLeftToRead + 1) s

/-- The end of a round of the loop. -/
def shift (s : EventChannel) : EventChannel :=
  if s.numberOfBytesLeftToRead = 0 then
    { s with
      readOffset := 0
      numberOfBytesLeftToRecv := BUFFER_SIZE }
  else if s.numberOfBytesLeftToRead ≤ READ_BUFFER_SHIFT_SIZE then
    { s with
      buffer := s.unread ++ s.buffer.drop s.numberOfBytesLeftToRead
      readOffset := 0
      numberOfBytesLeftToRecv := BUFFER_SIZE - s.numberOfBytesLeftToRead }
  else
    s

/-- A call of `read` that delivers bytes, and the rest of the round. -/
def receiveRound (s : EventChannel) (bytes : List UInt8) : Option EventChannel := do
  let s ← s.fill bytes
  let s ← EventChannel.readMessages s
  return s.shift

/-- The buffer is an array that is not initialised. -/
def new (buffer : List UInt8) : EventChannel := Receiver.new buffer []

end EventChannel

/-- A channel with its pipe. `written` is what the threads have written, in the order in which it
reached the pipe. -/
structure EventPipe (T : Type) where
  channel : EventChannel
  pipe : List UInt8
  written : List (T × EventData)

namespace EventPipe

variable {T : Type}

structure Initial (s : EventPipe T) : Prop where
  channel : ∃ buffer : List UInt8, buffer.length = EventChannel.BUFFER_SIZE ∧
    s.channel = EventChannel.new buffer
  pipe : s.pipe = []
  written : s.written = []

/-- Any thread notifies, or the owner of the channel reads some of the bytes in the pipe. -/
inductive Step : EventPipe T → EventPipe T → Prop
  | notify (s) (t : T) (event : EventData) :
      Step s { s with
        pipe := s.pipe ++ event.toBytes
        written := s.written ++ [(t, event)] }
  | receive (s) (count : Nat) (channel : EventChannel) : 1 ≤ count → count ≤ s.pipe.length →
      count ≤ s.channel.numberOfBytesLeftToRecv →
      s.channel.receiveRound (s.pipe.take count) = some channel →
      Step s { s with
        channel
        pipe := s.pipe.drop count }

variable (T) in
def system : TransitionSystem (EventPipe T) := ⟨Initial, Step⟩

def events (s : EventPipe T) : List EventData := s.written.map Prod.snd

/-- How many of the written bytes have been read. -/
def bytesRead (s : EventPipe T) : Nat := s.events.length * EventData.size - s.pipe.length

/-- The callbacks for the events of which all bytes have been read. -/
def due (s : EventPipe T) : List EventCallback :=
  (s.events.take (s.bytesRead / EventData.size)).filterMap EventData.callback

end EventPipe

/-! ### One round -/

namespace EventChannel

open Receiver

variable {s : EventChannel}

theorem readMessagesRound_event {event : EventData} {rest : List UInt8}
    (hinside : s.readOffset + s.numberOfBytesLeftToRead ≤ s.buffer.length)
    (hunread : s.unread = event.toBytes ++ rest) :
    readMessagesRound s = .again { s.updateForDataRead EventData.size with
      own := s.own ++ event.callback.toList } := by
  have hlength := length_unread hinside
  rw [hunread, List.length_append, EventData.length_toBytes] at hlength
  have hbytes : (s.buffer.drop s.readOffset).take EventData.size = event.toBytes := by
    have htake : s.unread.take EventData.size = event.toBytes := by
      rw [hunread, List.take_left' (EventData.length_toBytes event)]
    rwa [unread, List.take_take, Nat.min_eq_left (by omega)] at htake
  rw [readMessagesRound, if_neg (by omega)]
  simp only [hbytes, EventData.ofBytes_toBytes]
  rfl

/-- `readMessages` makes the callbacks of the whole events in front, and leaves the rest. The induction
is on these events. -/
theorem readMessages_events {events : List EventData} {rest : List UInt8} {fuel : Nat}
    (hinside : s.readOffset + s.numberOfBytesLeftToRead ≤ s.buffer.length)
    (hunread : s.unread = events.flatMap EventData.toBytes ++ rest) (hrest : rest.length < EventData.size)
    (hfuel : s.numberOfBytesLeftToRead < fuel) :
    ∃ t, loop readMessagesRound fuel s = some t ∧ t.buffer = s.buffer ∧
      t.own = s.own ++ events.filterMap EventData.callback ∧ t.unread = rest ∧
      t.readOffset + t.numberOfBytesLeftToRead = s.readOffset + s.numberOfBytesLeftToRead := by
  induction events generalizing s fuel with
  | nil =>
    obtain ⟨fuel, rfl⟩ : ∃ k, fuel = k + 1 := ⟨fuel - 1, by omega⟩
    have hlength := length_unread hinside
    rw [hunread, List.flatMap_nil, List.nil_append] at hlength
    have hround : readMessagesRound s = .leave s := if_pos (by omega)
    exact ⟨s, loop_leave hround fuel, rfl, by simp, by simpa using hunread, rfl⟩
  | cons event events ih =>
    obtain ⟨fuel, rfl⟩ : ∃ k, fuel = k + 1 := ⟨fuel - 1, by omega⟩
    rw [List.flatMap_cons, List.append_assoc] at hunread
    have hround := readMessagesRound_event hinside hunread
    have hlength := length_unread hinside
    rw [hunread, List.length_append, EventData.length_toBytes] at hlength
    have hpositive : 0 < EventData.size := by decide
    set t : EventChannel := { s.updateForDataRead EventData.size with
      own := s.own ++ event.callback.toList } with ht
    have hoffset : t.readOffset = s.readOffset + EventData.size := rfl
    have hleft : t.numberOfBytesLeftToRead = s.numberOfBytesLeftToRead - EventData.size := rfl
    have hbuffer : t.buffer = s.buffer := rfl
    have hunread' : t.unread = events.flatMap EventData.toBytes ++ rest := by
      have hdrop := unread_updateForDataRead s EventData.size
      rw [hunread, List.drop_left' (EventData.length_toBytes event)] at hdrop
      exact hdrop
    have hinside' : t.readOffset + t.numberOfBytesLeftToRead ≤ t.buffer.length := by
      rw [hoffset, hleft, hbuffer]
      omega
    have hfuel' : t.numberOfBytesLeftToRead < fuel := by omega
    obtain ⟨u, hloop, hbuffer', hown, hrest', hend⟩ := ih hinside' hunread' hfuel'
    refine ⟨u, by rw [loop_again hround]; exact hloop, hbuffer'.trans hbuffer, ?_, hrest', by omega⟩
    rw [hown, show t.own = s.own ++ event.callback.toList from rfl, List.append_assoc]
    cases hcallback : event.callback with
    | none => simp [hcallback]
    | some callback => simp [hcallback]

/-- Less than an event is left, and the window is behind it up to the end of the buffer. -/
structure Ready (s : EventChannel) : Prop where
  buffer : s.buffer.length = BUFFER_SIZE
  front : s.readOffset = 0
  left : s.numberOfBytesLeftToRead < EventData.size
  leftToRecv : s.numberOfBytesLeftToRecv = BUFFER_SIZE - s.numberOfBytesLeftToRead

theorem Ready.new {buffer : List UInt8} (h : buffer.length = BUFFER_SIZE) :
    (EventChannel.new buffer).Ready :=
  ⟨h, rfl, (by decide : 0 < EventData.size), h⟩

theorem Ready.inside (h : s.Ready) : s.readOffset + s.numberOfBytesLeftToRead ≤ s.buffer.length := by
  have hleft := h.left
  have hsize : EventData.size ≤ BUFFER_SIZE := by decide
  rw [h.buffer, h.front]
  omega

theorem shift_ready (hbuffer : s.buffer.length = BUFFER_SIZE)
    (hleft : s.numberOfBytesLeftToRead < EventData.size)
    (hinside : s.readOffset + s.numberOfBytesLeftToRead ≤ s.buffer.length) :
    s.shift.Ready ∧ s.shift.unread = s.unread ∧ s.shift.own = s.own := by
  have hlength := length_unread hinside
  have hsmall : s.numberOfBytesLeftToRead ≤ READ_BUFFER_SHIFT_SIZE :=
    hleft.le.trans (by decide)
  by_cases hzero : s.numberOfBytesLeftToRead = 0
  · have hshift : s.shift = { s with
        readOffset := 0
        numberOfBytesLeftToRecv := BUFFER_SIZE } := if_pos hzero
    rw [hshift]
    exact ⟨⟨hbuffer, rfl, hleft, by simp only [hzero]; rfl⟩, by simp [unread, hzero], rfl⟩
  · have hshift : s.shift = { s with
        buffer := s.unread ++ s.buffer.drop s.numberOfBytesLeftToRead
        readOffset := 0
        numberOfBytesLeftToRecv := BUFFER_SIZE - s.numberOfBytesLeftToRead } := by
      rw [shift, if_neg hzero, if_pos hsmall]
    rw [hshift]
    refine ⟨⟨?_, rfl, hleft, rfl⟩, ?_, rfl⟩
    · simp only [List.length_append, hlength, List.length_drop]
      omega
    · conv => lhs; rw [unread, List.drop_zero, ← hlength]
      exact List.take_left

/-- A read makes the callbacks of the events it completes. -/
theorem Ready.receiveRound (h : s.Ready) {bytes rest : List UInt8} {events : List EventData}
    (hasked : bytes.length ≤ s.numberOfBytesLeftToRecv)
    (hbytes : s.unread ++ bytes = events.flatMap EventData.toBytes ++ rest)
    (hrest : rest.length < EventData.size) :
    ∃ t, EventChannel.receiveRound s bytes = some t ∧ t.Ready ∧ t.unread = rest ∧
      t.own = s.own ++ events.filterMap EventData.callback := by
  have hleftToRecv := h.leftToRecv
  have hfront := h.front
  have hbuffer := h.buffer
  have hroom : s.readOffset + s.numberOfBytesLeftToRead + bytes.length ≤ s.buffer.length := by
    have := h.inside
    omega
  obtain ⟨t, hfill⟩ := fill_isSome hroom
  have hunread := unread_fill hfill
  have hbuffer' := length_buffer_fill hfill
  obtain ⟨hinside, ht⟩ := fill_eq_some hfill
  have hoffset : t.readOffset = s.readOffset := by rw [ht]
  have hleft : t.numberOfBytesLeftToRead = s.numberOfBytesLeftToRead + bytes.length := by rw [ht]
  have hown : t.own = s.own := by rw [ht]
  obtain ⟨u, hloop, hsame, hcallbacks, hrest', hend⟩ := readMessages_events (s := t)
    (by omega) (hunread.trans hbytes) hrest (Nat.lt_succ_self _)
  have hinside' : u.readOffset + u.numberOfBytesLeftToRead ≤ u.buffer.length := by
    rw [hend, hsame]
    omega
  have hleft' : u.numberOfBytesLeftToRead < EventData.size := by
    rw [← length_unread hinside', hrest']
    exact hrest
  obtain ⟨hready, hunread', hown'⟩ := shift_ready (by rw [hsame, hbuffer', hbuffer]) hleft' hinside'
  refine ⟨u.shift, ?_, hready, hunread'.trans hrest', by rw [hown', hcallbacks, hown]⟩
  have hread : EventChannel.readMessages t = some u := hloop
  simp [EventChannel.receiveRound, hfill, hread]

end EventChannel

/-! ### All runs -/

/-- The bytes of events, cut anywhere: some whole events and less than another one. -/
theorem exists_whole {events : List EventData} {bytes later : List UInt8}
    (h : bytes ++ later = events.flatMap EventData.toBytes) :
    ∃ n ≤ events.length, ∃ rest, bytes = (events.take n).flatMap EventData.toBytes ++ rest ∧
      rest ++ later = (events.drop n).flatMap EventData.toBytes ∧ rest.length < EventData.size := by
  induction events generalizing bytes with
  | nil =>
    obtain ⟨rfl, rfl⟩ := List.append_eq_nil_iff.mp h
    exact ⟨0, le_rfl, [], rfl, rfl, by decide⟩
  | cons event events ih =>
    by_cases hshort : bytes.length < EventData.size
    · exact ⟨0, Nat.zero_le _, bytes, rfl, h, hshort⟩
    · rw [List.flatMap_cons] at h
      obtain ⟨bytes', rfl⟩ : event.toBytes <+: bytes :=
        List.prefix_of_prefix_length_le ⟨_, h.symm⟩ ⟨later, rfl⟩
          (by rw [EventData.length_toBytes]; omega)
      rw [List.append_assoc] at h
      obtain ⟨n, hn, rest, hbytes, hlater, hrest⟩ := ih (List.append_cancel_left h)
      refine ⟨n + 1, by simpa using hn, rest, ?_, by simpa using hlater, hrest⟩
      rw [List.take_succ_cons, List.flatMap_cons, List.append_assoc, hbytes]

namespace EventPipe

variable {T : Type} {s s' : EventPipe T}

/-- The first `n` events have been handled, and the bytes of the others are in the buffer and the
pipe. -/
structure Handled (s : EventPipe T) (n : Nat) : Prop where
  le : n ≤ s.events.length
  callbacks : s.channel.own = (s.events.take n).filterMap EventData.callback
  stream : s.channel.unread ++ s.pipe = (s.events.drop n).flatMap EventData.toBytes

def Delivering (s : EventPipe T) : Prop := s.channel.Ready ∧ ∃ n, s.Handled n

theorem Initial.delivering (h : s.Initial) : s.Delivering := by
  obtain ⟨buffer, hlength, hchannel⟩ := h.channel
  refine ⟨hchannel ▸ EventChannel.Ready.new hlength, 0, Nat.zero_le _, ?_, ?_⟩
  · rw [hchannel]
    rfl
  · rw [hchannel, h.pipe, events, h.written]
    rfl

/-- Whatever is read of the bytes in the pipe is handled. -/
theorem Delivering.receive (h : s.Delivering) {count : Nat}
    (hasked : count ≤ s.channel.numberOfBytesLeftToRecv) :
    ∃ channel, s.channel.receiveRound (s.pipe.take count) = some channel ∧
      Delivering { s with channel, pipe := s.pipe.drop count } := by
  obtain ⟨hready, n, hn, hcallbacks, hstream⟩ := h
  have hbytes : s.channel.unread ++ s.pipe.take count ++ s.pipe.drop count =
      (s.events.drop n).flatMap EventData.toBytes := by
    rw [List.append_assoc, List.take_append_drop, hstream]
  obtain ⟨m, hm, rest, hwhole, hrest, hshort⟩ := exists_whole hbytes
  obtain ⟨channel, hround, hready', hunread, hown⟩ := hready.receiveRound
    (by rw [List.length_take]; omega) hwhole hshort
  refine ⟨channel, hround, hready', n + m, ?_, ?_, ?_⟩
  · rw [List.length_drop] at hm
    simp only [events] at *
    omega
  · rw [hown, hcallbacks, ← List.filterMap_append, ← List.take_add]
    rfl
  · rw [hunread, hrest, List.drop_drop]
    rfl

theorem Step.delivering (hstep : Step s s') (h : s.Delivering) : s'.Delivering := by
  cases hstep with
  | notify t event =>
    obtain ⟨hready, n, hn, hcallbacks, hstream⟩ := h
    have hevents : (s.written ++ [(t, event)]).map Prod.snd = s.events ++ [event] := by
      rw [List.map_append]
      rfl
    refine ⟨hready, n, ?_, ?_, ?_⟩
    · rw [events, hevents, List.length_append]
      exact Nat.le_add_right_of_le hn
    · rw [events, hevents, List.take_append_of_le_length hn]
      exact hcallbacks
    · rw [events, hevents, List.drop_append_of_le_length hn, List.flatMap_append, ← hstream]
      simp
  | receive count channel hpos hpipe hasked hround =>
    obtain ⟨channel', hround', hdelivering⟩ := h.receive hasked
    obtain rfl := Option.some.inj (hround.symm.trans hround')
    exact hdelivering

open TransitionSystem Receiver

theorem delivering_of_reachable (h : (system T).Reachable s) : s.Delivering :=
  h.invariant (I := Delivering) (fun _ => Initial.delivering) fun _ _ _ hs hstep =>
    Step.delivering hstep hs

theorem length_flatMap_toBytes (events : List EventData) :
    (events.flatMap EventData.toBytes).length = events.length * EventData.size := by
  induction events with
  | nil => simp
  | cons event events ih =>
    rw [List.flatMap_cons, List.length_append, EventData.length_toBytes, ih, List.length_cons]
    ring

/-- How many events have been handled is given by the bytes that have been read. -/
theorem Handled.eq (h : s.Handled n) (hready : s.channel.Ready) :
    n = s.bytesRead / EventData.size := by
  have hlength := congrArg List.length h.stream
  rw [List.length_append, length_unread hready.inside, length_flatMap_toBytes, List.length_drop,
    Nat.sub_mul] at hlength
  have hle := Nat.mul_le_mul_right EventData.size h.le
  have hleft := hready.left
  have hread : s.bytesRead = s.channel.numberOfBytesLeftToRead + EventData.size * n := by
    rw [bytesRead, Nat.mul_comm EventData.size]
    omega
  rw [hread, Nat.add_mul_div_left _ _ (by decide), Nat.div_eq_of_lt hleft, Nat.zero_add]

/-- In every state that threads which notify and reads which cut their events anywhere lead to, the
next read has a window in the buffer, whatever it delivers is handled, and the callbacks are those of
the events that have been read, once each and in the order of the writes; with an empty pipe these
are all events. -/
theorem delivered_of_reachable (h : (system T).Reachable s) :
    0 < s.channel.numberOfBytesLeftToRecv ∧ s.channel.windowEnd ≤ s.channel.buffer.length ∧
      (∀ count ≤ s.channel.numberOfBytesLeftToRecv,
        ∃ channel, s.channel.receiveRound (s.pipe.take count) = some channel) ∧
      s.channel.own = s.due ∧
      (s.pipe = [] → s.channel.own = s.events.filterMap EventData.callback) := by
  have hdelivering := delivering_of_reachable h
  obtain ⟨hready, n, hhandled⟩ := delivering_of_reachable h
  have hdue : s.channel.own = s.due := by
    rw [due, ← hhandled.eq hready, hhandled.callbacks]
  have hbuffer := hready.buffer
  have hleft := hready.left
  have hleftToRecv := hready.leftToRecv
  have hsize : EventData.size ≤ EventChannel.BUFFER_SIZE := by decide
  refine ⟨by omega, ?_, fun count hasked => ?_, hdue, fun hempty => ?_⟩
  · have hfront := hready.front
    unfold windowEnd
    omega
  · obtain ⟨channel, hround, _⟩ := hdelivering.receive hasked
    exact ⟨channel, hround⟩
  · have hall : s.bytesRead / EventData.size = s.events.length := by
      rw [bytesRead, hempty, List.length_nil, Nat.sub_zero, Nat.mul_div_cancel _ (by decide)]
    rw [hdue, due, hall, List.take_length]

/-- One event that one read takes out of the pipe. -/
theorem delivered_of_reachable_once : ∃ s : EventPipe Bool,
    s.events = [⟨EventData.AppMessage, 7#32, 9#64⟩] ∧ s.channel.own = [.onAppMsg 9#64 7#32] := by
  let start : EventPipe Bool := ⟨EventChannel.new (List.replicate EventChannel.BUFFER_SIZE 0), [], []⟩
  have hstart : (system Bool).Reachable start :=
    .initial ⟨⟨_, List.length_replicate, rfl⟩, rfl, rfl⟩
  have hnotify := hstart.reaches (.step (.refl start)
    (.notify start true ⟨EventData.AppMessage, 7#32, 9#64⟩))
  have hasked : 16 ≤ start.channel.numberOfBytesLeftToRecv := by
    change 16 ≤ (List.replicate EventChannel.BUFFER_SIZE 0).length
    rw [List.length_replicate]
    decide
  obtain ⟨channel, hround, _⟩ := (delivering_of_reachable hnotify).receive hasked
  have hread := hnotify.reaches (.step (.refl _) (.receive _ 16 channel (by decide) (by decide)
    hasked hround))
  exact ⟨_, rfl, (delivered_of_reachable hread).2.2.2.2 rfl⟩

end EventPipe

end LuPlatform.Thread
