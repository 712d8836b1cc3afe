import LuPlatform.Websocket.MessageLoop

/-! Decoding does not depend on how the bytes are cut into calls. A frame that is accepted on its
own leaves the object as the constructor made it, so a list of accepted frames is one run of the
decoder, and `processMessage`, called on any cut of their bytes, walks along that run. -/

namespace LuPlatform.Websocket

open Bytes Feed

namespace Frame

/-- Successive calls on one frame, with the callbacks and the return of each. A call is given what
the one before left unread, as it left it in the buffer, and then the new bytes. -/
def processChunks (f : Frame) (left : List UInt8) :
    List (List UInt8) → Option (Frame × List UInt8 × List (List FrameEvent × Exit))
  | [] => some (f, left, [])
  | chunk :: chunks => do
    let (p, exit) ← f.processMessage (.new (left ++ chunk))
    let (f', left', calls) ← p.frame.processChunks p.socketData.unread chunks
    return (f', left', (p.events, exit) :: calls)

theorem processChunks_cons {f g : Frame} {left chunk rest : List UInt8} {chunks : List (List UInt8)}
    {p : Processing} {exit : Exit} {calls : List (List FrameEvent × Exit)}
    (hp : f.processMessage (.new (left ++ chunk)) = some (p, exit))
    (hlater : p.frame.processChunks p.socketData.unread chunks = some (g, rest, calls)) :
    f.processChunks left (chunk :: chunks) = some (g, rest, (p.events, exit) :: calls) := by
  simp [processChunks, hp, hlater]

/-- The callbacks of successive calls. -/
def callbacks (calls : List (List FrameEvent × Exit)) : List FrameEvent := calls.flatMap Prod.fst

/-- One call of `processMessage` on a fresh frame, given exactly `bytes`, makes exactly the callback
`event`, consumes all of them and ends where a header is expected. -/
def Accepts (maxAllowedMessageSize : Nat) (bytes : List UInt8) (event : FrameEvent) : Prop :=
  ∃ p exit, (new maxAllowedMessageSize).processMessage (.new bytes) = some (p, exit) ∧
    p.events = [event] ∧ p.socketData.readOffset = bytes.length ∧
    p.frame.processingState = .readHeader

/-! ### A frame that waits for a header is as good as new -/

/-- What every reader leaves alone, and the one state it never hands on. -/
structure Kept (f g : Frame) (next : ProcessingState) : Prop where
  maxAllowed : g.maxAllowedMessageSize = f.maxAllowedMessageSize
  message : g.message = f.message
  next_ne : next ≠ .readHeader
  length_le : next = .done → g.isValid = true → g.length ≤ g.maxAllowedMessageSize

theorem checkValidity_kept (f : Frame) : Kept f f.checkValidity .waitForData := by
  unfold checkValidity setError reset
  constructor <;> grind

theorem readFrameHeader_kept (f : Frame) (d : SocketData) :
    Kept f (f.readFrameHeader d).1 (f.readFrameHeader d).2.2 := by
  unfold readFrameHeader
  split
  · rename_i b₀ b₁ _ _
    obtain ⟨hmax, hmessage, _, _⟩ := checkValidity_kept (f.withHeader b₀ b₁)
    have hafter := (f.withHeader b₀ b₁).checkValidity.afterLength_cases
    constructor <;> grind [withHeader]
  · constructor <;> grind

theorem readFramePayloadLength_kept (f : Frame) (d : SocketData) :
    Kept f (f.readFramePayloadLength d).1 (f.readFramePayloadLength d).2.2 := by
  unfold readFramePayloadLength setError reset afterLength
  constructor <;> grind

theorem readFrameMask_kept (f : Frame) (d : SocketData) :
    Kept f (f.readFrameMask d).1 (f.readFrameMask d).2.2 := by
  unfold readFrameMask
  constructor <;> grind

theorem readFramePayload_kept (f : Frame) (d : SocketData) :
    Kept f (f.readFramePayload d).1 (f.readFramePayload d).2.2 := by
  unfold readFramePayload setError reset
  constructor <;> grind

theorem reader_kept {f : Frame} {n : Nat} (hn : f.need = some n) (d : SocketData) :
    Kept f (f.reader d).1 (f.reader d).2.2 := by
  unfold need at hn
  unfold reader
  split
  · exact readFrameHeader_kept f d
  · exact readFramePayloadLength_kept f d
  · exact readFrameMask_kept f d
  · exact readFramePayload_kept f d
  · simp_all

/-- Unless the conversation has ended no fragment was collected, and where a header is expected every
field is as the constructor sets it. -/
structure Unfragmented (maxAllowedMessageSize : Nat) (f : Frame) : Prop where
  maxAllowed : f.maxAllowedMessageSize = maxAllowedMessageSize
  message : f.processingState ≠ .done → f.message = .new maxAllowedMessageSize
  fresh : f.processingState = .readHeader → f = new maxAllowedMessageSize

theorem Unfragmented.of_reset {f : Frame} {maxAllowedMessageSize : Nat}
    (hmax : f.maxAllowedMessageSize = maxAllowedMessageSize)
    (hmessage : f.message = .new maxAllowedMessageSize) :
    Unfragmented maxAllowedMessageSize f.reset := by
  have hnew : f.reset = new maxAllowedMessageSize := by
    rw [reset, new, hmax, hmessage]
  rw [hnew]
  exact ⟨rfl, fun _ => rfl, fun _ => rfl⟩

theorem Unfragmented.of_done {f : Frame} {maxAllowedMessageSize : Nat}
    (hmax : f.maxAllowedMessageSize = maxAllowedMessageSize) (hdone : f.processingState = .done) :
    Unfragmented maxAllowedMessageSize f :=
  ⟨hmax, fun h => absurd hdone h, fun h => by rw [hdone] at h; cases h⟩

/-- A fragment that fits makes the call return, so a data frame the loop goes on after collected
none. -/
theorem processDataFrame_unfragmented {f g : Frame} {d : SocketData} {events : List FrameEvent}
    (hfits : f.length + f.message.getDataLength ≤ f.message.getCapacity)
    (h : f.processDataFrame d = .inl (g, events)) :
    g.maxAllowedMessageSize = f.maxAllowedMessageSize ∧ g.message = f.message := by
  have hkept : f.beginMessage.length = f.length ∧ f.beginMessage.message = f.message ∧
      f.beginMessage.maxAllowedMessageSize = f.maxAllowedMessageSize := by
    unfold beginMessage
    split <;> exact ⟨rfl, rfl, rfl⟩
  unfold processDataFrame at h
  rw [deliver_cases] at h
  grind

theorem processDataFrame_maxAllowed {f g : Frame} {d : SocketData} {exit : Exit}
    (h : f.processDataFrame d = .inr (g, exit)) :
    g.maxAllowedMessageSize = f.maxAllowedMessageSize := by
  have hkept : f.beginMessage.maxAllowedMessageSize = f.maxAllowedMessageSize := by
    unfold beginMessage
    split <;> rfl
  unfold processDataFrame at h
  rw [deliver_cases] at h
  grind

theorem settle_unfragmented {f : Frame} {d : SocketData} {maxAllowedMessageSize : Nat}
    (hmax : f.maxAllowedMessageSize = maxAllowedMessageSize)
    (hmessage : f.message = .new maxAllowedMessageSize) (hstate : f.processingState = .done)
    (hlength : f.isValid = true → f.length ≤ maxAllowedMessageSize) :
    Unfragmented maxAllowedMessageSize (f.settle d).1 := by
  unfold settle
  split
  · rename_i hvalid
    have hfits : f.length + f.message.getDataLength ≤ f.message.getCapacity := by
      rw [hmessage]
      exact hlength hvalid
    split
    · exact .of_reset hmax hmessage
    · split
      · rename_i h
        obtain ⟨hg, hg'⟩ := processDataFrame_unfragmented hfits h
        exact .of_reset (hg.trans hmax) (hg'.trans hmessage)
      · rename_i h
        exact .of_done ((processDataFrame_maxAllowed h).trans hmax)
          ((processDataFrame_abandoned h).state.trans hstate)
  · exact .of_done hmax hstate

theorem consume_unfragmented {f : Frame} {n maxAllowedMessageSize : Nat} (hn : f.need = some n)
    (hf : Unfragmented maxAllowedMessageSize f) (bytes : List UInt8) :
    Unfragmented maxAllowedMessageSize (f.consume bytes).1 := by
  have hreading : f.processingState ≠ .done := by
    intro h
    simp [need, h] at hn
  have hkept := reader_kept hn (.new bytes)
  rcases hreader : f.reader (.new bytes) with ⟨g, d, next⟩
  rw [hreader] at hkept
  have hmax := hkept.maxAllowed.trans hf.maxAllowed
  have hmessage := hkept.message.trans (hf.message hreading)
  rw [consume, hreader]
  by_cases hnext : next = .done
  · subst hnext
    exact settle_unfragmented hmax hmessage rfl fun hv => by
      rw [← hmax]
      exact hkept.length_le rfl hv
  · have hgoing : Unfragmented maxAllowedMessageSize (g.enter next) :=
      ⟨hmax, fun _ => hmessage, fun h => absurd h hkept.next_ne⟩
    cases next <;> first | exact absurd rfl hnext | exact hgoing

/-- Once it waits for a header again, a frame that began as new is as new. -/
theorem feeds_fresh {maxAllowedMessageSize : Nat} {bytes rest : List UInt8}
    {events : List FrameEvent} {f : Frame}
    (h : Feeds decoder (new maxAllowedMessageSize) bytes events f rest)
    (hstate : f.processingState = .readHeader) : f = new maxAllowedMessageSize := by
  have hf : Unfragmented maxAllowedMessageSize f :=
    h.invariant _ (fun s n items hn hs => consume_unfragmented hn hs items)
      ⟨rfl, fun _ => rfl, fun _ => rfl⟩
  exact hf.fresh hstate

/-! ### Accepted frames, one after the other -/

theorem Accepts.feeds {maxAllowedMessageSize : Nat} {bytes : List UInt8} {event : FrameEvent}
    (h : Accepts maxAllowedMessageSize bytes event) :
    Feeds decoder (new maxAllowedMessageSize) bytes [event] (new maxAllowedMessageSize) [] := by
  obtain ⟨p, exit, hp, hevents, hoffset, hstate⟩ := h
  obtain ⟨q, exit', hq, hinside, hreturns⟩ :=
    processMessage_feeds (d := .new bytes) (new_resting maxAllowedMessageSize) (Nat.zero_le _)
  rw [hp] at hq
  obtain ⟨rfl, rfl⟩ := Prod.mk.inj (Option.some.inj hq)
  obtain ⟨rest, hfeeds, hrest⟩ := hreturns.feeds
  have hexit : exit = .needData := by
    by_contra hne
    rw [(hreturns.stale hne).1] at hstate
    cases hstate
  have hempty : rest = [] := by
    have hlength : p.socketData.data.length = bytes.length := hinside.length_eq
    rw [hrest hexit, SocketData.unread, hoffset, ← hlength, List.drop_length]
  rw [SocketData.unread_new, hevents, hempty, feeds_fresh hfeeds hstate] at hfeeds
  exact hfeeds

theorem feeds_accepted {maxAllowedMessageSize : Nat} (frames : List (List UInt8 × FrameEvent))
    (h : ∀ frame ∈ frames, Accepts maxAllowedMessageSize frame.1 frame.2) :
    Feeds decoder (new maxAllowedMessageSize) (frames.map Prod.fst).flatten (frames.map Prod.snd)
      (new maxAllowedMessageSize) [] := by
  induction frames with
  | nil => exact .starve (new_resting maxAllowedMessageSize).starved
  | cons frame frames ih =>
    have hfirst := (h frame (by simp)).feeds
    have hlater := ih fun frame' hmem => h frame' (by simp [hmem])
    simpa using hfirst.append hlater

/-- `processMessage`, called chunk by chunk, is one run of the decoder, as long as that run does not
end the conversation. -/
theorem processChunks_feeds {f s : Frame} {left rest : List UInt8} {chunks : List (List UInt8)}
    {events : List FrameEvent} (hf : f.Resting) (hleft : decoder.Starved f left.length)
    (h : Feeds decoder f (left ++ chunks.flatten) events s rest) (hs : s.processingState ≠ .done) :
    ∃ calls, f.processChunks left chunks = some (s, rest, calls) ∧ callbacks calls = events := by
  induction chunks generalizing f left events with
  | nil =>
    rw [List.flatten_nil, List.append_nil] at h
    obtain ⟨rfl, rfl, rfl⟩ := h.unique (.starve hleft)
    exact ⟨[], rfl, rfl⟩
  | cons chunk chunks ih =>
    obtain ⟨p, exit, hp, _, hreturns⟩ :=
      processMessage_feeds (d := .new (left ++ chunk)) hf (Nat.zero_le _)
    obtain ⟨rest', hfeeds, hrest⟩ := hreturns.feeds
    rw [SocketData.unread_new] at hfeeds
    rw [List.flatten_cons, ← List.append_assoc] at h
    obtain ⟨later, hevents, hresume⟩ := hfeeds.resume h
    have hexit : exit = .needData := by
      by_contra hne
      have hdone := (hreturns.stale hne).1
      obtain ⟨_, rfl, _⟩ := hresume.unique (.starve (starved_done hdone _))
      exact hs hdone
    rw [hrest hexit] at hresume hfeeds
    obtain ⟨calls, hcalls, hlater⟩ := ih (hreturns.resting hexit) hfeeds.starved hresume
    refine ⟨(p.events, exit) :: calls, processChunks_cons hp hcalls, ?_⟩
    rw [hevents, ← hlater, callbacks, List.flatMap_cons, callbacks]

/-- However the bytes of accepted frames are cut into calls, the callbacks are those of the frames,
one each and in order, and nothing is left over. -/
theorem processChunks_accepted (maxAllowedMessageSize : Nat)
    (frames : List (List UInt8 × FrameEvent)) (chunks : List (List UInt8))
    (accepted : ∀ frame ∈ frames, Accepts maxAllowedMessageSize frame.1 frame.2)
    (cut : chunks.flatten = (frames.map Prod.fst).flatten) :
    ∃ calls, (new maxAllowedMessageSize).processChunks [] chunks =
        some (new maxAllowedMessageSize, [], calls) ∧
      callbacks calls = frames.map Prod.snd := by
  refine processChunks_feeds (new_resting maxAllowedMessageSize)
    (new_resting maxAllowedMessageSize).starved ?_ (by simp [new])
  rw [List.nil_append, cut]
  exact feeds_accepted frames accepted

/-- A masked text frame and a ping, cut inside the header, the key and the payload. -/
theorem processChunks_accepted_hello :
    ∃ calls, (new 125).processChunks []
        [[0x81], [0x85, 0x37, 0xfa], [0x21, 0x3d, 0x7f, 0x9f], [0x4d, 0x51, 0x58, 0x89], [0x00]] =
        some (new 125, [], calls) ∧
      callbacks calls = [.onData (ascii "Hello"), .onPing []] := by
  refine processChunks_accepted 125
    [([0x81, 0x85, 0x37, 0xfa, 0x21, 0x3d, 0x7f, 0x9f, 0x4d, 0x51, 0x58], .onData (ascii "Hello")),
      ([0x89, 0x00], .onPing [])] _ (fun frame hmem => ?_) (by decide)
  rcases List.mem_cons.mp hmem with rfl | hmem
  · exact ⟨_, _, rfl, by decide, by decide, by decide⟩
  · obtain rfl := List.mem_singleton.mp hmem
    exact ⟨_, _, rfl, by decide, by decide, by decide⟩

end Frame

end LuPlatform.Websocket
