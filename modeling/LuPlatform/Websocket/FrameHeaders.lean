import LuPlatform.Websocket.FrameWire

/-! The header in both directions. What the readers have read of a header stays determined by what
they put into the frame, so a frame that is done and valid can be written back to the very bytes that
were consumed for it. The other way round a header that was written is read as it was meant, unless
its length is one of those that take eight bytes and have bit 15 set. -/

namespace LuPlatform.Websocket

open Bytes Loop

namespace Frame

/-! ### From the bytes to the frame and back -/

theorem firstByte_of_bits {b : UInt8} (hrsv1 : b &&& 0x40 = 0) (hrsv2 : b &&& 0x20 = 0)
    (hrsv3 : b &&& 0x10 = 0) :
    firstByte (.ofValue (b &&& 0x0F).toNat) (b &&& 0x80 != 0) = b := by
  have hall : ∀ n : Fin 256, UInt8.ofNat n &&& 0x40 = 0 → UInt8.ofNat n &&& 0x20 = 0 →
      UInt8.ofNat n &&& 0x10 = 0 →
        firstByte (.ofValue (UInt8.ofNat n &&& 0x0F).toNat) (UInt8.ofNat n &&& 0x80 != 0) =
          UInt8.ofNat n := by decide +kernel
  have hbyte := hall ⟨b.toNat, b.toNat_lt⟩
  rw [UInt8.ofNat_toNat] at hbyte
  exact hbyte hrsv1 hrsv2 hrsv3

theorem secondByte_of_bits (b : UInt8) : secondByte (b &&& 0x80 != 0) (b &&& 0x7F).toNat = b ∧
    (b &&& 0x80).toNat = (if b &&& 0x80 != 0 then 0x80 else 0) ∧ (b &&& 0x7F).toNat ≤ 127 := by
  have hall : ∀ n : Fin 256,
      secondByte (UInt8.ofNat n &&& 0x80 != 0) (UInt8.ofNat n &&& 0x7F).toNat = UInt8.ofNat n ∧
        (UInt8.ofNat n &&& 0x80).toNat = (if UInt8.ofNat n &&& 0x80 != 0 then 0x80 else 0) ∧
        (UInt8.ofNat n &&& 0x7F).toNat ≤ 127 := by decide +kernel
  have hbyte := hall ⟨b.toNat, b.toNat_lt⟩
  rwa [UInt8.ofNat_toNat] at hbyte

/-- A header that passes the check has no reserved bit, and is otherwise left as it is. -/
theorem checkValidity_valid {f : Frame} (h : f.checkValidity.isValid = true) :
    f.rsv1 = false ∧ f.rsv2 = false ∧ f.rsv3 = false ∧ f.checkValidity = { f with isValid := true } := by
  unfold checkValidity setError at h ⊢
  grind

/-- The bytes that were read up to the length. -/
def ReadsLength (data : List UInt8) (f : Frame) (d : SocketData) (masked : Bool) : Prop :=
  d.data = data ∧ f.length < 2 ^ 32 ∧ f.mask = (if masked then 0x80 else 0) ∧
    data.take d.readOffset =
      firstByte f.opCode f.isFinalFrame :: secondByte masked (lengthCode f.length) ::
        extendedLength f.length

/-- The bytes that were read up to the payload. -/
def ReadsHeader (data : List UInt8) (f : Frame) (d : SocketData) : Prop :=
  f.length < 2 ^ 32 ∧ ∃ maskingKey : Option Nat, f.mask = maskingKey.getD 0 ∧
    data.take d.readOffset = wireHeader f.opCode f.length maskingKey f.isFinalFrame

/-- What the bytes read so far are, in every state of `readFrame`. -/
def HeaderRead (data : List UInt8) : Frame × SocketData → Prop
  | (f, d) =>
    match f.processingState with
    | .readHeader => d = .new data
    | .readPayloadLength => d.data = data ∧ (f.length = 126 ∨ f.length = 127) ∧ ∃ masked : Bool,
        f.mask = (if masked then 0x80 else 0) ∧ data.take d.readOffset =
          [firstByte f.opCode f.isFinalFrame, secondByte masked f.length]
    | .readMask => ReadsLength data f d true
    | .readPayload => d.data = data ∧ ReadsHeader data f d
    | .done => f.isValid = true → ReadsHeader data f d
    | _ => False

variable {data : List UInt8} {f : Frame} {d : SocketData}

/-- Behind the length comes the key, or the payload. -/
theorem ReadsLength.afterLength {masked : Bool} (h : ReadsLength data f d masked) :
    HeaderRead data (f.enter f.afterLength, d) := by
  obtain ⟨hdata, hword, hmask, htake⟩ := h
  cases masked with
  | true =>
    have hafter : f.afterLength = .readMask := by simp [Frame.afterLength, hasMask, hmask]
    rw [hafter]
    exact ⟨hdata, hword, hmask, htake⟩
  | false =>
    have hafter : f.afterLength = .readPayload := by simp [Frame.afterLength, hasMask, hmask]
    rw [hafter]
    refine ⟨hdata, hword, none, hmask, ?_⟩
    rw [htake, wireHeader, Option.elim_none, List.append_nil]
    rfl

theorem take_skip (hdata : d.data = data) (n : Nat) :
    data.take (d.skip n).readOffset = data.take d.readOffset ++ d.unread.take n := by
  rw [SocketData.skip, List.take_add, SocketData.unread, hdata]

theorem readFrameHeader_read {b₀ b₁ : UInt8} (rest : List UInt8)
    (hvalid : (f.withHeader b₀ b₁).checkValidity.isValid = true) :
    let g := (f.withHeader b₀ b₁).checkValidity
    HeaderRead (b₀ :: b₁ :: rest) (g.enter (if g.length = 126 ∨ g.length = 127 then .readPayloadLength
      else g.afterLength), (SocketData.new (b₀ :: b₁ :: rest)).skip 2) := by
  obtain ⟨hrsv1, hrsv2, hrsv3, hcheck⟩ := checkValidity_valid hvalid
  simp only [withHeader, bne_eq_false_iff_eq] at hrsv1 hrsv2 hrsv3
  obtain ⟨hsecond, hflag, hle⟩ := secondByte_of_bits b₁
  have htake : (b₀ :: b₁ :: rest).take ((SocketData.new (b₀ :: b₁ :: rest)).skip 2).readOffset =
      [firstByte (.ofValue (b₀ &&& 0x0F).toNat) (b₀ &&& 0x80 != 0),
        secondByte (b₁ &&& 0x80 != 0) (b₁ &&& 0x7F).toNat] := by
    rw [firstByte_of_bits hrsv1 hrsv2 hrsv3, hsecond]
    rfl
  intro g
  have hg : g = { f.withHeader b₀ b₁ with isValid := true } := hcheck
  by_cases hlong : g.length = 126 ∨ g.length = 127
  · rw [if_pos hlong]
    rw [hg] at hlong ⊢
    exact ⟨rfl, hlong, _, hflag, htake⟩
  · rw [if_neg hlong]
    suffices hread : ReadsLength (b₀ :: b₁ :: rest) g ((SocketData.new (b₀ :: b₁ :: rest)).skip 2)
        (b₁ &&& 0x80 != 0) from hread.afterLength
    rw [hg] at hlong ⊢
    have hshort : (b₁ &&& 0x7F).toNat ≤ 125 := by
      simp only [withHeader] at hlong
      omega
    refine ⟨rfl, by simp only [withHeader]; omega, hflag, ?_⟩
    obtain ⟨hcode, hextended⟩ := lengthCode_short hshort
    simp only [withHeader, hcode, hextended]
    exact htake

/-- The extended length, if it is not refused, is the shortest that holds its value. -/
theorem readFramePayloadLength_read {code n : Nat} {masked : Bool} (bytes : List UInt8)
    (hdata : d.data = data) (hmask : f.mask = (if masked then 0x80 else 0))
    (htake : data.take d.readOffset =
      [firstByte f.opCode f.isFinalFrame, secondByte masked code])
    (hbytes : d.unread.take bytes.length = bytes) (hword : n < 2 ^ 32)
    (hcode : lengthCode n = code) (hextended : extendedLength n = bytes) :
    HeaderRead data (({ f with length := n } : Frame).enter ({ f with length := n } : Frame).afterLength,
      d.skip bytes.length) := by
  suffices hread : ReadsLength data { f with length := n } (d.skip bytes.length) masked from
    hread.afterLength
  refine ⟨hdata, hword, hmask, ?_⟩
  rw [take_skip hdata, htake, hbytes]
  simp only [hcode, hextended]
  rfl

/-- The state a reader's answer leads to. -/
def resumed (state next : ProcessingState) : ProcessingState :=
  if next = .waitForData then state else next

theorem resumeAt_read {state : ProcessingState} {r : Frame × SocketData × ProcessingState}
    (h : HeaderRead data (r.1.enter (resumed state r.2.2), r.2.1)) (t : Frame × SocketData)
    (ht : resumeAt state r = .again t ∨ resumeAt state r = .leave t) : HeaderRead data t := by
  obtain ⟨f, d, next⟩ := r
  by_cases hnext : next = .waitForData
  · subst hnext
    obtain ht | ht := ht
    · cases ht
    · obtain rfl := Round.leave.inj ht
      exact h
  · rw [resumeAt_again hnext] at ht
    obtain ht | ht := ht
    · obtain rfl := Round.again.inj ht
      simpa only [resumed, if_neg hnext] using h
    · cases ht

/-- An invalid frame says nothing about the header. -/
theorem headerRead_invalid {f : Frame} (h : f.isValid = false) : HeaderRead data (f.enter .done, d) := by
  intro hvalid
  rw [show (f.enter .done).isValid = f.isValid from rfl, h] at hvalid
  cases hvalid

theorem afterLength_resumed (f : Frame) (state : ProcessingState) :
    resumed state f.afterLength = f.afterLength := by
  obtain h | h := f.afterLength_cases <;> rw [h] <;> rfl

theorem header_read (hstate : f.processingState = .readHeader) (h : HeaderRead data (f, d)) :
    HeaderRead data ((f.readFrameHeader d).1.enter (resumed .readHeader (f.readFrameHeader d).2.2),
      (f.readFrameHeader d).2.1) := by
  simp only [HeaderRead, hstate] at h
  subst h
  unfold readFrameHeader
  split
  · rename_i b₀ b₁ rest hdata
    rw [SocketData.unread_new] at hdata
    subst hdata
    cases hvalid : (f.withHeader b₀ b₁).checkValidity.isValid with
    | false =>
      simp only [hvalid, Bool.not_false, if_true]
      exact headerRead_invalid hvalid
    | true =>
      have hread := readFrameHeader_read rest hvalid
      simp only [hvalid, Bool.not_true, Bool.false_eq_true, if_false]
      by_cases hlong : (f.withHeader b₀ b₁).checkValidity.length = 126 ∨
          (f.withHeader b₀ b₁).checkValidity.length = 127
      · simp only [if_pos hlong] at hread
        rw [if_pos (by simpa using hlong)]
        exact hread
      · simp only [if_neg hlong] at hread
        rw [if_neg (by simpa using hlong)]
        simpa only [afterLength_resumed] using hread
  · exact rfl

theorem payloadLength_read (hstate : f.processingState = .readPayloadLength)
    (h : HeaderRead data (f, d)) :
    HeaderRead data ((f.readFramePayloadLength d).1.enter
      (resumed .readPayloadLength (f.readFramePayloadLength d).2.2), (f.readFramePayloadLength d).2.1) := by
  have hwaits : HeaderRead data (f.enter .readPayloadLength, d) := by
    rwa [← hstate]
  simp only [HeaderRead, hstate] at h
  obtain ⟨hdata, _, masked, hmask, htake⟩ := h
  unfold readFramePayloadLength
  split
  · rename_i h126
    split
    · rename_i hleft
      have hlength : (d.unread.take 2).length = 2 := by
        rw [List.length_take, d.length_unread]
        omega
      have hlt := ofBigEndian_lt (d.unread.take 2)
      have hcanonical := toBigEndian_ofBigEndian (d.unread.take 2)
      rw [hlength] at hlt hcanonical
      simp only
      split
      · exact headerRead_invalid rfl
      · rename_i hmin
        obtain ⟨hcode, hextended⟩ := lengthCode_medium (n := ofBigEndian (d.unread.take 2)) (by omega)
          (by omega)
        rw [hcanonical] at hextended
        have hread := readFramePayloadLength_read (d.unread.take 2) hdata hmask htake
          (by rw [hlength]) (by omega) (hcode.trans h126.symm) hextended
        rw [hlength] at hread
        simpa only [afterLength_resumed] using hread
    · exact hwaits
  · split
    · rename_i h127
      split
      · rename_i hleft
        have hlength : (d.unread.take 8).length = 8 := by
          rw [List.length_take, d.length_unread]
          omega
        have hcanonical := toBigEndian_ofBigEndian (d.unread.take 8)
        rw [hlength] at hcanonical
        simp only
        split
        · exact headerRead_invalid rfl
        · rename_i hhigh
          split
          · exact headerRead_invalid rfl
          · rename_i hmin
            have hword : ofBigEndian (d.unread.take 8) < 2 ^ 32 := by
              simp only [Bool.or_eq_true, decide_eq_true_eq, not_or] at hhigh
              omega
            rw [Nat.mod_eq_of_lt hword] at hmin ⊢
            obtain ⟨hcode, hextended⟩ := lengthCode_long hmin
            rw [hcanonical] at hextended
            have hread := readFramePayloadLength_read (d.unread.take 8) hdata hmask htake
              (by rw [hlength]) hword (hcode.trans h127.symm) hextended
            rw [hlength] at hread
            simpa only [afterLength_resumed] using hread
      · exact hwaits
    · exact hwaits

theorem mask_read (hstate : f.processingState = .readMask) (h : HeaderRead data (f, d)) :
    HeaderRead data ((f.readFrameMask d).1.enter (resumed .readMask (f.readFrameMask d).2.2),
      (f.readFrameMask d).2.1) := by
  have hwaits : HeaderRead data (f.enter .readMask, d) := by
    rwa [← hstate]
  simp only [HeaderRead, hstate] at h
  obtain ⟨hdata, hword, _, htake⟩ := h
  unfold readFrameMask
  split
  · rename_i hleft
    have hlength : (d.unread.take 4).length = 4 := by
      rw [List.length_take, d.length_unread]
      omega
    have hcanonical := toBigEndian_ofBigEndian (d.unread.take 4)
    rw [hlength] at hcanonical
    refine ⟨hdata, hword, some (ofBigEndian (d.unread.take 4)), rfl, ?_⟩
    rw [take_skip hdata, htake, wireHeader, Option.elim_some, hcanonical]
    rfl
  · exact hwaits

theorem payload_read (hstate : f.processingState = .readPayload) (h : HeaderRead data (f, d)) :
    HeaderRead data ((f.readFramePayload d).1.enter (resumed .readPayload (f.readFramePayload d).2.2),
      (f.readFramePayload d).2.1) := by
  have hwaits : HeaderRead data (f.enter .readPayload, d) := by
    rwa [← hstate]
  simp only [HeaderRead, hstate] at h
  have hdone : ∀ e : SocketData, e.readOffset = d.readOffset → HeaderRead data (f.enter .done, e) := by
    intro e he _
    obtain ⟨hword, hheader⟩ := h.2
    rw [← he] at hheader
    exact ⟨hword, hheader⟩
  unfold readFramePayload
  split
  · exact hdone d rfl
  · split
    · exact headerRead_invalid rfl
    · split
      · split
        · exact hdone _ rfl
        · exact hdone d rfl
      · exact hwaits

/-- No round loses what was read. -/
theorem readFrameRound_read (s t : Frame × SocketData) (h : HeaderRead data s)
    (hround : readFrameRound s = .again t ∨ readFrameRound s = .leave t) : HeaderRead data t := by
  obtain ⟨f, d⟩ := s
  cases hstate : f.processingState <;> simp only [readFrameRound, hstate] at hround
  case readHeader => exact resumeAt_read (header_read hstate h) t hround
  case readPayloadLength => exact resumeAt_read (payloadLength_read hstate h) t hround
  case readMask => exact resumeAt_read (mask_read hstate h) t hround
  case readPayload => exact resumeAt_read (payload_read hstate h) t hround
  case done =>
    obtain hround | hround := hround
    · cases hround
    · rwa [← Round.leave.inj hround]
  case waitForData => simp only [HeaderRead, hstate] at h
  case error => simp only [HeaderRead, hstate] at h

theorem readFrame_read {maxAllowedMessageSize : Nat} {t : Frame × SocketData}
    (h : (new maxAllowedMessageSize).readFrame (.new data) = some t) : HeaderRead data t := by
  have hnew : HeaderRead data (new maxAllowedMessageSize, .new data) := rfl
  exact loop_invariant (HeaderRead data) (HeaderRead data)
    (fun s t hs hround => readFrameRound_read s t hs (.inl hround))
    (fun s t hs hround => readFrameRound_read s t hs (.inr hround)) hnew h

/-- A frame that is done and valid has the header that `getFrameHeader` writes for it. A key of zero
is the one thing a header can say in two ways. -/
theorem getFrameHeader_of_readFrame (maxAllowedMessageSize : Nat) (data : List UInt8)
    (h : (new maxAllowedMessageSize).readFrame (.new data) = some (f, d))
    (hdone : f.processingState = .done) (hvalid : f.isValid = true)
    (hkey : data.getD 1 0 &&& 0x80 ≠ 0 → f.mask ≠ 0) :
    (getFrameHeader f.opCode f.length f.mask f.isFinalFrame).contents = data.take d.readOffset := by
  have hread := readFrame_read h
  simp only [HeaderRead, hdone] at hread
  obtain ⟨hword, maskingKey, hmask, htake⟩ := hread hvalid
  have hpresent : (if f.mask = 0 then none else some f.mask) = maskingKey := by
    cases maskingKey with
    | none => exact if_pos hmask
    | some key =>
      have hsecond : data.getD 1 0 = secondByte true (lengthCode f.length) := by
        have hdata := List.take_append_drop d.readOffset data
        rw [htake, wireHeader] at hdata
        rw [← hdata]
        rfl
      have hflag := (secondByte_bits true (lengthCode_le f.length)).1
      rw [hmask, Option.getD_some] at hkey ⊢
      refine if_neg (hkey fun hzero => ?_)
      rw [hsecond] at hzero
      rw [hzero] at hflag
      exact absurd hflag (by decide)
  rw [getFrameHeader_contents (by omega), hpresent, htake]

/-- A masked text frame. -/
theorem getFrameHeader_of_readFrame_hello :
    (getFrameHeader .text 5 0x37fa213d true).contents = [0x81, 0x85, 0x37, 0xfa, 0x21, 0x3d] :=
  getFrameHeader_of_readFrame 125
    [0x81, 0x85, 0x37, 0xfa, 0x21, 0x3d, 0x7f, 0x9f, 0x4d, 0x51, 0x58] rfl rfl rfl (by decide)

end Frame

end LuPlatform.Websocket
