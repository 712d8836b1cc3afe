import LuPlatform.Websocket.FrameChunking

/-! Which bytes the message loop touches. Every read, every unmasking and every span for a callback
lies among the bytes that a call was given, whatever they are, as long as the read offset does not
pass their end and a payload is only handed on once it is there. Both hold along every sequence of
calls, also behind a frame that was refused: what the next call finds is either a frame that waits or
one that is done. -/

namespace LuPlatform.Websocket

open Bytes Loop

namespace Frame

/-! ### The accesses -/

/-- A piece of the given data, or the collected message, which lies elsewhere. -/
inductive Access where
  | data (offset size : Nat)
  | message
  deriving DecidableEq, Repr

/-- Whether an access stays among `length` bytes of data. -/
def Access.Inside (length : Nat) : Access → Prop
  | .data offset size => offset + size ≤ length
  | .message => False

/-- What the reader of the present state reads, or unmasks in place. -/
def readerAccesses (f : Frame) (d : SocketData) : List Access :=
  match f.processingState with
  | .readHeader => if d.getDataLeftToRead ≥ 2 then [.data d.readOffset 2] else []
  | .readPayloadLength =>
    if f.length = 126 then
      if d.getDataLeftToRead ≥ 2 then [.data d.readOffset 2] else []
    else if f.length = 127 then
      if d.getDataLeftToRead ≥ 8 then [.data d.readOffset 8] else []
    else
      []
  | .readMask => if d.getDataLeftToRead ≥ 4 then [.data d.readOffset 4] else []
  | .readPayload =>
    if f.length = 0 then []
    else if f.length > f.maxAllowedMessageSize then []
    else if d.getDataLeftToRead ≥ f.length then
      if f.hasMask then [.data d.readOffset f.length] else []
    else
      []
  | _ => []

/-- A ping is handed on, a close code is read and its reason is logged. -/
def controlAccesses (f : Frame) (d : SocketData) : List Access :=
  match f.opCode with
  | .ping => [.data d.readOffset f.length]
  | .close =>
    if f.length > 1 then
      .data d.readOffset 2 ::
        if isCloseCodeValid (ofBigEndian (d.unread.take 2)) && f.length > 2 then
          [.data d.readOffset f.length]
        else
          []
    else
      []
  | _ => []

/-- A fragment is collected; a final frame is handed on. -/
def deliverAccesses (f : Frame) (d : SocketData) : List Access :=
  let appended := f.isFragmented && (f.append d.unread).2
  (if appended then [.data d.readOffset f.length] else []) ++
    if !appended && f.isFinalFrame then
      if f.isFragmented then [.message] else [.data d.readOffset f.length]
    else
      []

def dataAccesses (f : Frame) (d : SocketData) : List Access :=
  if f.isFragmented == false && f.isContinuationFrame then []
  else if f.isFragmented && f.isDataFrame && f.isContinuationFrame == false then []
  else f.beginMessage.deliverAccesses d

/-- What is done with a frame that is done and valid. -/
def messageAccesses (f : Frame) (d : SocketData) : List Access :=
  if f.isControlFrame then f.controlAccesses d else f.dataAccesses d

/-! ### What is safe -/

/-- The state at the beginning of a round of the message loop, and all that is done in it. -/
structure RoundSafe (p : Processing) : Prop where
  offset_le : p.socketData.readOffset ≤ p.socketData.data.length
  entered : p.socketData.getDataLeftToRead ≠ 0 →
    p.frame.processingState ≠ .waitForData ∧ p.frame.processingState ≠ .error
  reads : p.socketData.getDataLeftToRead ≠ 0 → ∀ f d,
    Reached readFrameRound (p.frame, p.socketData) (f, d) →
      d.data.length = p.socketData.data.length ∧ d.readOffset ≤ d.data.length ∧
        ∀ a ∈ f.readerAccesses d, a.Inside d.data.length
  hands : p.socketData.getDataLeftToRead ≠ 0 → ∀ f d,
    p.frame.readFrame p.socketData = some (f, d) → f.processingState = .done → f.isValid = true →
      ∀ a ∈ f.messageAccesses d, a.Inside d.data.length

/-- A call returns, its rounds are safe, and its offset stays among the bytes it was given. -/
structure CallSafe (f : Frame) (d : SocketData) : Prop where
  returns : ∃ p exit, f.processMessage d = some (p, exit) ∧
    p.socketData.data.length = d.data.length ∧ p.socketData.readOffset ≤ p.socketData.data.length
  rounds : ∀ p, Reached processMessageRound ⟨f, d, []⟩ p →
    p.socketData.data.length = d.data.length ∧ RoundSafe p

/-- Every call of a sequence is safe, each given what the one before it left and then new bytes. -/
def RunSafe (f : Frame) (left : List UInt8) : List (List UInt8) → Prop
  | [] => True
  | chunk :: chunks => f.CallSafe (.new (left ++ chunk)) ∧
    ∀ p exit, f.processMessage (.new (left ++ chunk)) = some (p, exit) →
      p.frame.RunSafe p.socketData.unread chunks

/-! ### One frame -/

/-- Along `readFrame`: a reading frame, or one that is done and, if it is valid, has its payload. -/
structure ReadSafe (length : Nat) (f : Frame) (d : SocketData) : Prop where
  length_eq : d.data.length = length
  offset_le : d.readOffset ≤ d.data.length
  fragmented : f.processingState ≠ .done → f.isFragmented = false
  state : f.Reading ∨ f.processingState = .done ∧
    (f.isValid = true → d.readOffset + f.length ≤ d.data.length ∧
      (f.isControlFrame = false → f.isFragmented = false))

variable {f g : Frame} {d e : SocketData} {length : Nat}

theorem reader_isFragmented (h : f.isFragmented = false) (d : SocketData) :
    (f.reader d).1.isFragmented = false := by
  unfold reader readFrameHeader readFramePayloadLength readFrameMask readFramePayload checkValidity
    setError reset withHeader
  grind

/-- One round of `readFrame`. -/
theorem ReadSafe.round (h : ReadSafe length f d)
    (hround : readFrameRound (f, d) = .again (g, e) ∨ readFrameRound (f, d) = .leave (g, e)) :
    ReadSafe length g e := by
  obtain hf | ⟨hdone, _⟩ := h.state
  · have hnotDone : f.processingState ≠ .done := by
      intro hdone
      simp [Reading, hdone] at hf
    have hwhole := reader_isFragmented (h.fragmented hnotDone) d
    have hoffset := h.offset_le
    rw [readFrameRound_reader hf] at hround
    obtain ⟨n, hn⟩ := hf.need
    have hleft := getDataLeftToRead_add hoffset
    by_cases hlt : d.getDataLeftToRead < n
    · rw [reader_short hf hn hlt] at hround
      obtain hround | hround := hround
      · cases hround
      · obtain ⟨rfl, rfl⟩ := Prod.mk.inj (Round.leave.inj hround)
        exact h
    · obtain ⟨f', d', e', next, hagrees⟩ := reader_agrees hf hn (show n ≤ d.getDataLeftToRead by omega)
      have hlength := hagrees.length_eq
      rw [hagrees.whole] at hround hwhole
      by_cases hnext : next = .done
      · subst hnext
        rw [resumeAt_again (by decide)] at hround
        obtain hround | hround := hround
        · obtain ⟨rfl, rfl⟩ := Prod.mk.inj (Round.again.inj hround)
          cases hvalid : f'.isValid with
          | true =>
            obtain ⟨hf', hneed, hsame, _, _⟩ := hagrees.valid rfl hvalid
            have hpayload : d'.readOffset + (f'.enter .done).length ≤ d'.data.length := by
              rw [hf']
              simp only [enter]
              omega
            exact ⟨hlength.trans h.length_eq, by omega, fun hne => absurd rfl hne,
              .inr ⟨rfl, fun _ => ⟨hpayload, fun _ => hwhole⟩⟩⟩
          | false =>
            have hsame := hagrees.refused rfl hvalid
            exact ⟨hlength.trans h.length_eq, by omega, fun hne => absurd rfl hne,
              .inr ⟨rfl, fun hv => absurd (hvalid.symm.trans hv) Bool.false_ne_true⟩⟩
        · cases hround
      · obtain ⟨rfl, _, hread⟩ := hagrees.going hnext
        have hwait : next ≠ .waitForData := by
          intro hwait
          rw [hwait] at hread
          exact hread.elim
        rw [resumeAt_again hwait] at hround
        obtain hround | hround := hround
        · obtain ⟨rfl, rfl⟩ := Prod.mk.inj (Round.again.inj hround)
          refine ⟨h.length_eq, ?_, fun _ => hwhole, .inl hread⟩
          simp only [SocketData.skip]
          omega
        · cases hround
  · have hstays : readFrameRound (f, d) = .leave (f, d) := by
      simp only [readFrameRound, hdone]
    rw [hstays] at hround
    obtain hround | hround := hround
    · cases hround
    · obtain ⟨rfl, rfl⟩ := Prod.mk.inj (Round.leave.inj hround)
      exact h

theorem ReadSafe.readFrame (h : ReadSafe length f d) (hread : f.readFrame d = some (g, e)) :
    ReadSafe length g e :=
  loop_invariant (fun s => ReadSafe length s.1 s.2) (fun s => ReadSafe length s.1 s.2)
    (fun _ _ hs hround => hs.round (.inl hround)) (fun _ _ hs hround => hs.round (.inr hround)) h hread

theorem ReadSafe.reached (h : ReadSafe length f d) (hread : Reached readFrameRound (f, d) (g, e)) :
    ReadSafe length g e :=
  hread.invariant (P := fun s => ReadSafe length s.1 s.2) (fun _ _ hs hround => hs.round (.inl hround)) h

theorem readerAccesses_inside (h : d.readOffset ≤ d.data.length) :
    ∀ a ∈ f.readerAccesses d, a.Inside d.data.length := by
  have hleft := getDataLeftToRead_add h
  have hpiece : ∀ n, n ≤ d.getDataLeftToRead → (Access.data d.readOffset n).Inside d.data.length := by
    intro n hn
    simp only [Access.Inside]
    omega
  unfold readerAccesses
  grind

theorem controlAccesses_inside (h : d.readOffset + f.length ≤ d.data.length) :
    ∀ a ∈ f.controlAccesses d, a.Inside d.data.length := by
  have hpiece : ∀ n, n ≤ f.length → (Access.data d.readOffset n).Inside d.data.length := by
    intro n hn
    simp only [Access.Inside]
    omega
  unfold controlAccesses
  grind

/-- No frame that is handed on completes a collected message. -/
theorem dataAccesses_inside (h : d.readOffset + f.length ≤ d.data.length)
    (hfragmented : f.isFragmented = false) : ∀ a ∈ f.dataAccesses d, a.Inside d.data.length := by
  have hpiece : (Access.data d.readOffset f.length).Inside d.data.length := h
  unfold dataAccesses deliverAccesses beginMessage
  grind

/-- A frame that is done and valid has its payload. -/
theorem ReadSafe.done (h : ReadSafe length f d) (hdone : f.processingState = .done)
    (hvalid : f.isValid = true) : d.readOffset + f.length ≤ d.data.length ∧
      (f.isControlFrame = false → f.isFragmented = false) := by
  obtain hf | ⟨_, hpayload⟩ := h.state
  · simp [Reading, hdone] at hf
  · exact hpayload hvalid

theorem messageAccesses_inside (h : ReadSafe length f d) (hdone : f.processingState = .done)
    (hvalid : f.isValid = true) : ∀ a ∈ f.messageAccesses d, a.Inside d.data.length := by
  obtain ⟨hinside, hwhole⟩ := h.done hdone hvalid
  unfold messageAccesses
  split
  · exact controlAccesses_inside hinside
  · rename_i hcontrol
    exact dataAccesses_inside hinside (hwhole (by simpa using hcontrol))

/-! ### One call -/

/-- What a round of the message loop begins with. -/
structure ProcessSafe (length : Nat) (p : Processing) : Prop where
  length_eq : p.socketData.data.length = length
  offset_le : p.socketData.readOffset ≤ p.socketData.data.length
  frame : p.frame.Safe p.socketData.getDataLeftToRead
  fragmented : p.frame.processingState ≠ .done → p.frame.isFragmented = false

variable {p q : Processing}

theorem ProcessSafe.readSafe (h : ProcessSafe length p) : ReadSafe length p.frame p.socketData := by
  have hleft := getDataLeftToRead_add h.offset_le
  refine ⟨h.length_eq, h.offset_le, h.fragmented, ?_⟩
  obtain hresting | ⟨hdone, hstale⟩ := h.frame
  · exact .inl hresting.1
  · refine .inr ⟨hdone, fun hvalid => ?_⟩
    obtain ⟨hclose, hfits⟩ := hstale hvalid
    refine ⟨by omega, fun hcontrol => ?_⟩
    simp [isControlFrame, hclose, OpCode.value] at hcontrol

theorem ProcessSafe.roundSafe (h : ProcessSafe length p) : RoundSafe p := by
  refine ⟨h.offset_le, fun _ => ?_, fun _ f d hreached => ?_, fun _ f d hread hdone hvalid => ?_⟩
  · obtain ⟨hreading, _⟩ | ⟨hdone, _⟩ := h.frame
    · unfold Reading at hreading
      split at hreading <;> simp_all
    · simp [hdone]
  · have hsafe := h.readSafe.reached hreached
    exact ⟨hsafe.length_eq.trans h.length_eq.symm, hsafe.offset_le, readerAccesses_inside hsafe.offset_le⟩
  · exact messageAccesses_inside (h.readSafe.readFrame hread) hdone hvalid

/-- A round that goes on leaves a frame that was reset, behind a payload that was there. -/
theorem ProcessSafe.again (h : ProcessSafe length p) (hround : processMessageRound p = .again q) :
    ProcessSafe length q := by
  cases goesTo_of_again hround with
  | control found valid _ =>
    have hsafe := h.readSafe.readFrame found.read
    exact ⟨hsafe.length_eq, (hsafe.done found.done valid).1, .inl (reset_resting _), fun _ => rfl⟩
  | @data f g _ _ found valid _ _ =>
    have hsafe := h.readSafe.readFrame found.read
    exact ⟨hsafe.length_eq, (hsafe.done found.done valid).1, .inl (reset_resting g.reset), fun _ => rfl⟩

/-- A call that returns early leaves a frame that waits without a fragment, or one that is done. -/
theorem ProcessSafe.leave {exit : Exit} (h : ProcessSafe length p)
    (hround : processMessageRound p = .leave (some (q, exit))) :
    q.frame.processingState ≠ .done → q.frame.isFragmented = false := by
  cases leavesWith_of_leave hround with
  | drained _ => exact h.fragmented
  | waits _ read _ => exact (h.readSafe.readFrame read).fragmented
  | abandons found _ _ processed =>
    exact fun hne => absurd ((processDataFrame_abandoned processed).state.trans found.done) hne
  | refuses found _ => exact fun hne => absurd found.done hne

theorem ProcessSafe.returns {exit : Exit} (h : ProcessSafe d.data.length ⟨f, d, []⟩)
    (hcall : f.processMessage d = some (q, exit)) : ProcessSafe d.data.length q := by
  obtain ⟨q', exit', hq', hinside, hframe⟩ := processMessage_safe h.frame h.offset_le
  rw [hcall] at hq'
  obtain ⟨rfl, rfl⟩ := Prod.mk.inj (Option.some.inj hq')
  refine ⟨hinside.length_eq, hinside.offset_le, hframe, ?_⟩
  have hloop := Option.join_eq_some_iff.mp hcall
  refine loop_invariant (ProcessSafe d.data.length)
    (fun r => ∀ q exit, r = some (q, exit) →
      q.frame.processingState ≠ .done → q.frame.isFragmented = false)
    (fun _ _ hs hround => hs.again hround) (fun _ r hs hround q exit hr => ?_) h hloop q exit rfl
  rw [hr] at hround
  exact hs.leave hround

theorem ProcessSafe.callSafe (h : ProcessSafe d.data.length ⟨f, d, []⟩) : f.CallSafe d := by
  obtain ⟨q, exit, hq, hinside, _⟩ := processMessage_safe h.frame h.offset_le
  refine ⟨⟨q, exit, hq, hinside.length_eq, hinside.offset_le⟩, fun p hreached => ?_⟩
  have hp := hreached.invariant (P := ProcessSafe d.data.length) (fun _ _ hs hround => hs.again hround) h
  exact ⟨hp.length_eq, hp.roundSafe⟩

/-! ### All calls -/

/-- What one call leaves, the next one begins with, and more bytes do not harm. -/
theorem ProcessSafe.next (h : ProcessSafe length p) (chunk : List UInt8) :
    ProcessSafe (SocketData.new (p.socketData.unread ++ chunk)).data.length
      ⟨p.frame, .new (p.socketData.unread ++ chunk), []⟩ := by
  refine ⟨rfl, Nat.zero_le _, h.frame.mono ?_, h.fragmented⟩
  have hleft : p.socketData.unread.length ≤ (p.socketData.unread ++ chunk).length := by simp
  rw [SocketData.length_unread] at hleft
  exact hleft

theorem ProcessSafe.runSafe (h : ProcessSafe length p) (chunks : List (List UInt8)) :
    p.frame.RunSafe p.socketData.unread chunks := by
  induction chunks generalizing length p with
  | nil => trivial
  | cons chunk chunks ih =>
    have hnext := h.next chunk
    exact ⟨hnext.callSafe, fun q exit hcall => ih (hnext.returns hcall)⟩

/-- Whatever bytes a frame is given, in however many calls, they are handled safely. -/
theorem runSafe_new (maxAllowedMessageSize : Nat) (chunks : List (List UInt8)) :
    (new maxAllowedMessageSize).RunSafe [] chunks := by
  have hnew : ProcessSafe 0 ⟨new maxAllowedMessageSize, .new [], []⟩ :=
    ⟨rfl, Nat.zero_le _, .inl (new_resting maxAllowedMessageSize), fun _ => rfl⟩
  exact hnew.runSafe chunks

end Frame

end LuPlatform.Websocket
