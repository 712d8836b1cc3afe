import LuPlatform.Websocket.FrameChunking
import LuPlatform.Websocket.FrameWire

/-! What `sendMsg` sends comes back as one message exactly when it takes one frame and the receiver
accepts that frame's length. With a second frame nothing comes back at all: the first one is a
fragment, `append` answers `true` once it has collected it, and `processMessage` takes that answer
for a failure. -/

namespace LuPlatform.Websocket

open Crypto (DataWrap)
open Bytes Feed

/-- A ping or pong frame, masked or not. -/
structure PingPong where
  opCode : OpCode
  isPingPong : opCode = .ping ∨ opCode = .pong
  maskingKey : Option Nat
  payload : List UInt8
  short : payload.length ≤ 125

def PingPong.bytes (c : PingPong) : List UInt8 :=
  Frame.wireHeader c.opCode c.payload.length c.maskingKey true ++
    maskPayload (c.maskingKey.getD 0) c.payload

/-- Frames with control frames between them. -/
def interleave : (frames : List (List UInt8)) → (between : List (List PingPong)) → List UInt8
  | [], _ => []
  | [frame], _ => frame
  | frame :: frames, [] => frame ++ interleave frames []
  | frame :: frames, controls :: between =>
    frame ++ (controls.map PingPong.bytes).flatten ++ interleave frames between

/-- The payloads of the `onData` callbacks. -/
def messages (events : List FrameEvent) : List (List UInt8) :=
  events.filterMap fun
    | .onData payload => some payload
    | _ => none

namespace Frame

/-- A fresh frame. The constructor takes the limit and the capacity of the reassembly buffer from one
variable, of which only the limit is a reference. -/
def fresh (maxAllowedMessageSize capacity : Nat) : Frame :=
  { new maxAllowedMessageSize with message := .new capacity }

/-- Given in one call, the bytes make one `onData` callback, with this payload. -/
def Delivers (f : Frame) (bytes payload : List UInt8) : Prop :=
  ∃ p exit, f.processMessage (.new bytes) = some (p, exit) ∧ messages p.events = [payload]

/-- However they are cut into calls, the bytes make one `onData` callback, with this payload. -/
def DeliversInChunks (f : Frame) (bytes payload : List UInt8) : Prop :=
  ∀ chunks : List (List UInt8), chunks.flatten = bytes →
    ∃ g left calls, f.processChunks [] chunks = some (g, left, calls) ∧
      messages (callbacks calls) = [payload]

/-! ### What is sent -/

section Sent

variable {MaxMessageSize : Nat} {firstOpCode : OpCode} {mask : Bool}
variable {generateRandomUint32 : Nat → Nat}

/-- The key the receiver sees: none when the key drawn is zero. -/
def sentKey (mask : Bool) (key : Nat) : Option Nat := if mask = true ∧ key ≠ 0 then some key else none

/-- A frame as `sendMsg` writes it. -/
def sentFrame (opCode : OpCode) (maskingKey : Option Nat) (lastFrame : Bool)
    (payload : List UInt8) : List UInt8 :=
  wireHeader opCode payload.length maskingKey lastFrame ++
    maskPayload (maskingKey.getD 0) payload

/-- A round sends the next bytes of the buffer as one frame. -/
theorem sendFrame_frames (numFrames : BitVec 32) (s : Sending) (i : Nat) {part : List UInt8}
    (hmax : MaxMessageSize < 2 ^ 31)
    (hpart : (s.buffer.drop s.currentPosition).take (min s.bytesLeft MaxMessageSize) = part)
    (hlength : part.length = min s.bytesLeft MaxMessageSize) :
    (sendFrame MaxMessageSize firstOpCode mask generateRandomUint32 numFrames s i).frames =
      s.frames ++ [sentFrame (if i = 0 then firstOpCode else .continuation)
        (sentKey mask (generateRandomUint32 i)) ((i : Int) == numFrames.toInt - 1) part] := by
  have hword : part.length ≤ 0x7FFFFFFFFFFFFFFF := by omega
  have hkey : (if mask = true then generateRandomUint32 i else 0) =
      (sentKey mask (generateRandomUint32 i)).getD 0 ∧
      (if (if mask = true then generateRandomUint32 i else 0) = 0 then none
        else some (if mask = true then generateRandomUint32 i else 0)) =
        sentKey mask (generateRandomUint32 i) := by
    unfold sentKey
    grind
  have hdata : (if mask = true then maskPayload (if mask = true then generateRandomUint32 i else 0) part
      else part) = maskPayload ((sentKey mask (generateRandomUint32 i)).getD 0) part := by
    rw [← hkey.1]
    cases mask <;> simp
  have hempty : ∀ bytes : List UInt8, bytes.length = part.length →
      (if part.length > 0 then bytes else []) = bytes := by
    intro bytes hbytes
    split
    · rfl
    · exact (List.length_eq_zero_iff.mp (by omega)).symm
  rw [← hlength] at hpart
  simp only [sendFrame, ← hlength, getFrameHeader_contents hword, hkey.2, hpart]
  rw [hdata, hempty _ (by simp)]
  rfl

/-- The first round sends the first `MaxMessageSize` bytes. -/
theorem sendFrame_first (numFrames : BitVec 32) (payload : List UInt8)
    (hmax : MaxMessageSize < 2 ^ 31) :
    (sendFrame MaxMessageSize firstOpCode mask generateRandomUint32 numFrames
      ⟨payload, 0, payload.length, []⟩ 0).frames =
      [sentFrame firstOpCode (sentKey mask (generateRandomUint32 0))
        ((0 : Int) == numFrames.toInt - 1) (payload.take MaxMessageSize)] := by
  have hlength : (payload.take MaxMessageSize).length = min payload.length MaxMessageSize := by
    rw [List.length_take, Nat.min_comm]
  have hpart : payload.take (min payload.length MaxMessageSize) = payload.take MaxMessageSize := by
    rw [List.take_eq_take_iff]
    omega
  exact sendFrame_frames numFrames ⟨payload, 0, payload.length, []⟩ 0 hmax hpart hlength

theorem foldl_frames (round : Sending → Nat → Sending)
    (hround : ∀ s i, ∃ frame, (round s i).frames = s.frames ++ [frame]) (rounds : List Nat)
    (s : Sending) : ∃ later, (rounds.foldl round s).frames = s.frames ++ later := by
  induction rounds generalizing s with
  | nil => exact ⟨[], by simp⟩
  | cons i rounds ih =>
    obtain ⟨frame, hframe⟩ := hround s i
    obtain ⟨later, hlater⟩ := ih (round s i)
    exact ⟨frame :: later, by rw [List.foldl_cons, hlater, hframe]; simp⟩

theorem numFrames_eq_one {size : Nat} (hpos : 1 ≤ MaxMessageSize) (hfits : size ≤ MaxMessageSize) :
    numFrames MaxMessageSize size = 1 := by
  unfold numFrames
  rcases Nat.lt_or_eq_of_le hfits with hlt | rfl
  · rw [Nat.div_eq_of_lt hlt, Nat.mod_eq_of_lt hlt]
    by_cases hzero : size = 0 <;> simp [hzero]
  · rw [Nat.div_self hpos, Nat.mod_self]
    rfl

/-- A payload of at most `MaxMessageSize` bytes is one frame. -/
theorem sendMsg_single {payload : List UInt8} (hpos : 1 ≤ MaxMessageSize)
    (hmax : MaxMessageSize < 2 ^ 31) (hfits : payload.length ≤ MaxMessageSize) :
    (sendMsg MaxMessageSize firstOpCode mask generateRandomUint32 payload).frames =
      [sentFrame firstOpCode (sentKey mask (generateRandomUint32 0)) true payload] := by
  rw [sendMsg, numFrames_eq_one hpos hfits]
  refine (sendFrame_first 1 payload hmax).trans ?_
  rw [List.take_of_length_le hfits]
  rfl

/-- A longer one begins with a frame of `MaxMessageSize` bytes, if anything is sent. -/
theorem sendMsg_first (payload : List UInt8) (hmax : MaxMessageSize < 2 ^ 31) :
    (sendMsg MaxMessageSize firstOpCode mask generateRandomUint32 payload).frames = [] ∨
      ∃ lastFrame later,
        (sendMsg MaxMessageSize firstOpCode mask generateRandomUint32 payload).frames =
          sentFrame firstOpCode (sentKey mask (generateRandomUint32 0)) lastFrame
            (payload.take MaxMessageSize) :: later := by
  simp only [sendMsg]
  generalize numFrames MaxMessageSize payload.length = count
  cases count.toInt.toNat with
  | zero => exact .inl rfl
  | succ rounds =>
    rw [List.range_succ_eq_map, List.foldl_cons]
    obtain ⟨later, hlater⟩ := foldl_frames
      (sendFrame MaxMessageSize firstOpCode mask generateRandomUint32 count) (fun s i => ⟨_, rfl⟩)
      ((List.range rounds).map Nat.succ) (sendFrame MaxMessageSize firstOpCode mask
        generateRandomUint32 count ⟨payload, 0, payload.length, []⟩ 0)
    rw [sendFrame_first count payload hmax] at hlater
    exact .inr ⟨_, later, hlater⟩

end Sent

/-! ### What is received -/

theorem interleave_cons (frame : List UInt8) (frames : List (List UInt8))
    (between : List (List PingPong)) : ∃ more, interleave (frame :: frames) between = frame ++ more := by
  cases frames with
  | nil => exact ⟨[], by simp [interleave]⟩
  | cons next frames =>
    cases between with
    | nil => exact ⟨_, rfl⟩
    | cons controls between => exact ⟨_, List.append_assoc _ _ _⟩

theorem interleave_single (frame : List UInt8) (between : List (List PingPong)) :
    interleave [frame] between = frame := by
  simp [interleave]

theorem fresh_resting (maxAllowedMessageSize capacity : Nat) :
    (fresh maxAllowedMessageSize capacity).Resting := by
  refine ⟨trivial, ?_⟩
  simp [need, fresh, new]

section Received

variable {maxAllowedMessageSize capacity : Nat} {opCode : OpCode} {maskingKey : Option Nat}
variable {payload : List UInt8}

theorem headerAllowed_data {lastFrame : Bool} (hop : opCode = .text ∨ opCode = .binary) (n : Nat) :
    HeaderAllowed opCode n lastFrame := by
  rcases hop with rfl | rfl <;> exact ⟨rfl, fun h => absurd h (by decide)⟩

/-- A whole message in one frame is handed out. -/
theorem settle_message {f : Frame} (hfragmented : f.isFragmented = false)
    (hop : opCode = .text ∨ opCode = .binary) (mask : Nat) :
    ((f.opened opCode payload.length mask true).enter .done).settle (.new payload) =
      (f.reset, [.onData payload]) := by
  rcases hop with rfl | rfl <;>
    simp [settle, opened, enter, isControlFrame, OpCode.value, processDataFrame,
      isContinuationFrame, isDataFrame, hfragmented, beginMessage, deliver, reset]

/-- A first fragment is collected, and then the call returns as if it had not been. -/
theorem settle_fragment {f : Frame} (hfragmented : f.isFragmented = false)
    (hop : opCode = .text ∨ opCode = .binary) (mask : Nat)
    (hroom : payload.length + f.message.getDataLength ≤ f.message.getCapacity) :
    ∃ g, ((f.opened opCode payload.length mask false).enter .done).settle (.new payload) = (g, []) ∧
      g.processingState = .done := by
  have hroom' : ¬ payload.length + f.message.getDataLength > f.message.getCapacity := by omega
  refine ⟨{ (f.opened opCode payload.length mask false).enter .done with
    isFragmented := true
    message := (f.message.append payload).1
    opCode := .close }, ?_, rfl⟩
  rcases hop with rfl | rfl <;>
    simp [settle, opened, enter, isControlFrame, OpCode.value, processDataFrame,
      isContinuationFrame, isDataFrame, hfragmented, beginMessage, deliver, append, hroom']

/-- A message in one frame, of an accepted length, is handed out, and the frame is ready again. -/
theorem sentFrame_delivered (hop : opCode = .text ∨ opCode = .binary)
    (hkey : ∀ key ∈ maskingKey, key < 2 ^ 32) (hsize : payload.length ≤ maxAllowedMessageSize)
    (hlength : LengthAccepted payload.length) :
    Feeds decoder (fresh maxAllowedMessageSize capacity)
      (sentFrame opCode maskingKey true payload) [.onData payload]
      (fresh maxAllowedMessageSize capacity).reset [] := by
  have hstarve : Feeds decoder (fresh maxAllowedMessageSize capacity).reset [] []
      (fresh maxAllowedMessageSize capacity).reset [] :=
    .starve (reset_resting (fresh maxAllowedMessageSize capacity)).starved
  have hwire := wire_feeds rfl (headerAllowed_data hop _) hlength hsize hkey
    (settle_message rfl hop _) hstarve
  simpa [sentFrame] using hwire

/-- Any other first frame makes no callback at all, whatever follows it. -/
theorem sentFrame_silent {lastFrame : Bool} (hop : opCode = .text ∨ opCode = .binary)
    (hkey : ∀ key ∈ maskingKey, key < 2 ^ 32) (hsize : payload.length ≤ maxAllowedMessageSize)
    (hroom : payload.length ≤ capacity) (hword : payload.length < 2 ^ 64)
    (hnot : lastFrame = false ∨ ¬ LengthAccepted payload.length) (more : List UInt8) :
    ∃ g rest, Feeds decoder (fresh maxAllowedMessageSize capacity)
      (sentFrame opCode maskingKey lastFrame payload ++ more) [] g rest := by
  by_cases hlength : LengthAccepted payload.length
  · obtain rfl : lastFrame = false := hnot.resolve_right (not_not.mpr hlength)
    obtain ⟨g, hsettle, hdone⟩ :=
      settle_fragment (f := fresh maxAllowedMessageSize capacity) rfl hop (maskingKey.getD 0) hroom
    exact ⟨g, more, wire_feeds rfl (headerAllowed_data hop _) hlength hsize hkey hsettle
      (.starve (starved_done hdone _))⟩
  · obtain ⟨g, rest, hfeeds, _⟩ := wire_refused (f := fresh maxAllowedMessageSize capacity) rfl
      (headerAllowed_data hop _) hword hlength
      (maskPayload (maskingKey.getD 0) payload ++ more)
    refine ⟨g, rest, ?_⟩
    rw [sentFrame, List.append_assoc]
    exact hfeeds

end Received

section RoundTrip

variable {MaxMessageSize maxAllowedMessageSize capacity : Nat} {firstOpCode : OpCode} {mask : Bool}
variable {generateRandomUint32 : Nat → Nat}

theorem sentKey_lt (mask : Bool) {key : Nat} (h : key < 2 ^ 32) : ∀ k ∈ sentKey mask key, k < 2 ^ 32 := by
  unfold sentKey
  split
  · rintro k ⟨⟩
    exact h
  · rintro k ⟨⟩

/-- One call on a resting frame makes the callbacks of the decoder. -/
theorem processMessage_run {f : Frame} (hf : f.Resting) (bytes : List UInt8) :
    ∃ p exit rest, f.processMessage (.new bytes) = some (p, exit) ∧
      Feeds decoder f bytes p.events p.frame rest := by
  obtain ⟨p, exit, hp, _, hreturns⟩ := processMessage_feeds (d := .new bytes) hf (Nat.zero_le _)
  obtain ⟨rest, hfeeds, _⟩ := hreturns.feeds
  rw [SocketData.unread_new] at hfeeds
  exact ⟨p, exit, rest, hp, hfeeds⟩

theorem not_delivers_of_silent {f g : Frame} {bytes rest : List UInt8} (hf : f.Resting)
    (h : Feeds decoder f bytes [] g rest) (payload : List UInt8) : ¬ Delivers f bytes payload := by
  rintro ⟨p, exit, hp, hmessages⟩
  obtain ⟨q, exit', rest', hq, hfeeds⟩ := processMessage_run hf bytes
  rw [hp] at hq
  obtain ⟨rfl, rfl⟩ := Prod.mk.inj (Option.some.inj hq)
  rw [(hfeeds.unique h).1] at hmessages
  simp [messages] at hmessages

/-- After a first frame that is not the whole message, the message is not delivered. -/
theorem part_not_delivers {opCode : OpCode} {maskingKey : Option Nat} {lastFrame : Bool}
    {part payload : List UInt8} (hop : opCode = .text ∨ opCode = .binary)
    (hkey : ∀ key ∈ maskingKey, key < 2 ^ 32) (hsize : part.length ≤ maxAllowedMessageSize)
    (hroom : part.length ≤ capacity) (hword : part.length < 2 ^ 64)
    (hnot : part = payload → lastFrame = false ∨ ¬ LengthAccepted part.length)
    (more : List UInt8) :
    ¬ Delivers (fresh maxAllowedMessageSize capacity)
      (sentFrame opCode maskingKey lastFrame part ++ more) payload := by
  have hresting := fresh_resting maxAllowedMessageSize capacity
  by_cases hwhole : lastFrame = false ∨ ¬ LengthAccepted part.length
  · obtain ⟨g, rest, hfeeds⟩ := sentFrame_silent hop hkey hsize hroom hword hwhole more
    exact not_delivers_of_silent hresting hfeeds payload
  · obtain ⟨hlast, haccepted⟩ := not_or.mp hwhole
    obtain rfl : lastFrame = true := by simpa using hlast
    rintro ⟨p, exit, hp, hmessages⟩
    obtain ⟨q, exit', rest, hq, hfeeds⟩ := processMessage_run hresting _
    rw [hp] at hq
    obtain ⟨rfl, rfl⟩ := Prod.mk.inj (Option.some.inj hq)
    have hfirst : Feeds decoder (fresh maxAllowedMessageSize capacity)
        (sentFrame opCode maskingKey true part) [.onData part]
        (fresh maxAllowedMessageSize capacity).reset [] :=
      sentFrame_delivered hop hkey hsize (not_not.mp haccepted)
    obtain ⟨events, hevents, _⟩ := hfirst.resume hfeeds
    have hmessages' : part :: messages events = [payload] := by rw [← hmessages, hevents]; rfl
    exact hwhole (hnot (List.cons.inj hmessages').1)

/-- Of a message longer than `MaxMessageSize` a call hands out a first part at most. -/
theorem long_not_delivers {payload : List UInt8} (hmax : MaxMessageSize < 2 ^ 31)
    (hop : firstOpCode = .text ∨ firstOpCode = .binary)
    (hkey : generateRandomUint32 0 < 2 ^ 32) (hallowed : MaxMessageSize ≤ maxAllowedMessageSize)
    (hcapacity : payload.length ≤ capacity) (hlong : MaxMessageSize < payload.length)
    (between : List (List PingPong)) :
    ¬ Delivers (fresh maxAllowedMessageSize capacity)
      (interleave (sendMsg MaxMessageSize firstOpCode mask generateRandomUint32 payload).frames
        between) payload := by
  have hlength : (payload.take MaxMessageSize).length = MaxMessageSize := by
    rw [List.length_take]
    omega
  have hpart : payload.take MaxMessageSize ≠ payload := by
    intro h
    rw [h] at hlength
    omega
  rcases @sendMsg_first MaxMessageSize firstOpCode mask generateRandomUint32 payload hmax with
    hframes | ⟨lastFrame, later, hframes⟩
  · have hresting := fresh_resting maxAllowedMessageSize capacity
    have hstarved : decoder.Starved _ ([] : List UInt8).length := hresting.starved
    rw [hframes]
    exact not_delivers_of_silent hresting (.starve hstarved) payload
  · obtain ⟨more, hmore⟩ := interleave_cons (sentFrame firstOpCode
      (sentKey mask (generateRandomUint32 0)) lastFrame (payload.take MaxMessageSize)) later between
    rw [hframes, hmore]
    exact part_not_delivers hop (sentKey_lt mask hkey) (by omega) (by omega) (by omega)
      (fun h => absurd h hpart) more

/-- A message in one frame is handed out, however it is cut, if its length is accepted. -/
theorem delivers_of_feeds {f g : Frame} {bytes payload : List UInt8} (hf : f.Resting)
    (h : Feeds decoder f bytes [.onData payload] g []) (hg : g.processingState ≠ .done) :
    Delivers f bytes payload ∧ DeliversInChunks f bytes payload := by
  constructor
  · obtain ⟨p, exit, rest, hp, hfeeds⟩ := processMessage_run hf bytes
    exact ⟨p, exit, hp, by rw [(hfeeds.unique h).1]; rfl⟩
  · intro chunks hchunks
    have hcut : Feeds decoder f ([] ++ chunks.flatten) [.onData payload] g [] := by
      rwa [List.nil_append, hchunks]
    have hstarved : decoder.Starved f ([] : List UInt8).length := hf.starved
    obtain ⟨calls, hcalls, hevents⟩ := processChunks_feeds hf hstarved hcut hg
    exact ⟨g, [], calls, hcalls, by rw [hevents]; rfl⟩

/-- One call is one way of cutting. -/
theorem delivers_of_chunks {f : Frame} {bytes payload : List UInt8} (hf : f.Resting)
    (h : DeliversInChunks f bytes payload) : Delivers f bytes payload := by
  obtain ⟨g, left, calls, hcalls, hmessages⟩ := h [bytes] (by simp)
  obtain ⟨p, exit, rest, hp, _⟩ := processMessage_run hf bytes
  have hone : f.processChunks [] [bytes] =
      some (p.frame, p.socketData.unread, [(p.events, exit)]) := processChunks_cons hp rfl
  rw [hcalls] at hone
  obtain ⟨rfl, rfl, rfl⟩ : g = p.frame ∧ left = p.socketData.unread ∧ calls = [(p.events, exit)] := by
    simpa using hone
  exact ⟨p, exit, hp, by simpa [callbacks] using hmessages⟩

theorem sendMsg_sent_single {payload : List UInt8} (hpos : 1 ≤ MaxMessageSize)
    (hmax : MaxMessageSize < 2 ^ 31) (hshort : payload.length ≤ MaxMessageSize)
    (between : List (List PingPong)) :
    interleave (sendMsg MaxMessageSize firstOpCode mask generateRandomUint32 payload).frames between =
      sentFrame firstOpCode (sentKey mask (generateRandomUint32 0)) true payload := by
  rw [sendMsg_single hpos hmax hshort, interleave_single]

theorem length_of_delivers {payload : List UInt8} {between : List (List PingPong)}
    (hpos : 1 ≤ MaxMessageSize) (hmax : MaxMessageSize < 2 ^ 31)
    (hop : firstOpCode = .text ∨ firstOpCode = .binary) (hkey : generateRandomUint32 0 < 2 ^ 32)
    (hallowed : MaxMessageSize ≤ maxAllowedMessageSize) (hcapacity : payload.length ≤ capacity)
    (h : Delivers (fresh maxAllowedMessageSize capacity)
      (interleave (sendMsg MaxMessageSize firstOpCode mask generateRandomUint32 payload).frames
        between) payload) :
    payload.length ≤ MaxMessageSize ∧ LengthAccepted payload.length := by
  by_contra hcond
  by_cases hshort : payload.length ≤ MaxMessageSize
  · rw [sendMsg_sent_single hpos hmax hshort, ← List.append_nil (sentFrame _ _ _ _)] at h
    exact part_not_delivers hop (sentKey_lt mask hkey) (by omega) hcapacity (by omega)
      (fun _ => .inr fun h' => hcond ⟨hshort, h'⟩) [] h
  · exact long_not_delivers hmax hop hkey hallowed hcapacity (by omega) between h

/-- A message comes back in one piece exactly when it is sent in one and the receiver accepts its
length: at most `MaxMessageSize` bytes, and fewer than 65536 of them or a number of bytes with bit
15 clear. The calls it is cut into make no difference. -/
theorem sendMsg_delivers_iff (MaxMessageSize maxAllowedMessageSize capacity : Nat)
    (firstOpCode : OpCode) (mask : Bool) (generateRandomUint32 : Nat → Nat) (payload : List UInt8)
    (between : List (List PingPong)) (hpos : 1 ≤ MaxMessageSize) (hmax : MaxMessageSize < 2 ^ 31)
    (hop : firstOpCode = .text ∨ firstOpCode = .binary)
    (hkeys : ∀ i, generateRandomUint32 i < 2 ^ 32)
    (hallowed : MaxMessageSize ≤ maxAllowedMessageSize) (hcapacity : payload.length ≤ capacity) :
    let sent := interleave
      (sendMsg MaxMessageSize firstOpCode mask generateRandomUint32 payload).frames between
    let f := fresh maxAllowedMessageSize capacity
    (Delivers f sent payload ↔
      payload.length ≤ MaxMessageSize ∧ LengthAccepted payload.length) ∧
    (DeliversInChunks f sent payload ↔
      payload.length ≤ MaxMessageSize ∧ LengthAccepted payload.length) := by
  intro sent f
  have hresting : f.Resting := fresh_resting maxAllowedMessageSize capacity
  have hnot : Delivers f sent payload →
      payload.length ≤ MaxMessageSize ∧ LengthAccepted payload.length :=
    length_of_delivers hpos hmax hop (hkeys 0) hallowed hcapacity
  have hyes : payload.length ≤ MaxMessageSize ∧ LengthAccepted payload.length →
      Delivers f sent payload ∧ DeliversInChunks f sent payload := by
    rintro ⟨hshort, hlength⟩
    have hsent : sent = sentFrame firstOpCode (sentKey mask (generateRandomUint32 0)) true payload :=
      sendMsg_sent_single hpos hmax hshort between
    rw [hsent]
    exact delivers_of_feeds hresting
      (sentFrame_delivered hop (sentKey_lt mask (hkeys 0)) (by omega) hlength) (by simp [reset])
  exact ⟨⟨hnot, fun h => (hyes h).1⟩,
    ⟨fun h => hnot (delivers_of_chunks hresting h), fun h => (hyes h).2⟩⟩

theorem sendMsg_delivers_iff_hello :
    let sent := interleave
      (sendMsg 125 .text true (fun _ => 0x37fa213d) (ascii "Hello")).frames []
    Delivers (fresh 125 125) sent (ascii "Hello") ∧
      DeliversInChunks (fresh 125 125) sent (ascii "Hello") := by
  have h := sendMsg_delivers_iff 125 125 125 .text true (fun _ => 0x37fa213d) (ascii "Hello") []
    (by decide) (by decide) (.inl rfl) (fun _ => by decide) (by decide) (by decide)
  exact ⟨h.1.mpr (by decide), h.2.mpr (by decide)⟩

/-- Two bytes in frames of one byte are not delivered, nor is a whole frame of 98304 bytes. -/
theorem sendMsg_not_delivered :
    ¬ Delivers (fresh 1 2)
      (interleave (sendMsg 1 .text false (fun _ => 0) (ascii "Hi")).frames []) (ascii "Hi") ∧
    ¬ Delivers (fresh 100000 100000)
      (interleave (sendMsg 100000 .binary false (fun _ => 0) (List.replicate 98304 0)).frames [])
      (List.replicate 98304 0) := by
  constructor
  · intro h
    have hlength := length_of_delivers (by decide) (by decide) (.inl rfl) (by decide) (by decide)
      (by decide) h
    exact absurd hlength.1 (by decide)
  · intro h
    have hlength := length_of_delivers (by decide) (by decide) (.inr rfl) (by decide) (by decide)
      (by rw [List.length_replicate]; decide) h
    rw [List.length_replicate] at hlength
    exact absurd hlength.2 (by decide)

end RoundTrip

end Frame

end LuPlatform.Websocket
