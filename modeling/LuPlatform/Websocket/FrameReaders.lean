import LuPlatform.Websocket.Frame

/-! What the four readers of `readFrame` need and what they look at. In each reading state a frame
needs a certain number of bytes. With fewer it waits and nothing changes; with so many the reader
moves on, and does the same as if it had been given those bytes alone. -/

namespace LuPlatform.Websocket

open Bytes Loop

namespace Frame

/-- The reader `readFrame` calls in a state. -/
def reader (f : Frame) (d : SocketData) : Frame × SocketData × ProcessingState :=
  match f.processingState with
  | .readHeader => f.readFrameHeader d
  | .readPayloadLength => f.readFramePayloadLength d
  | .readMask => f.readFrameMask d
  | .readPayload => f.readFramePayload d
  | state => (f, d, state)

def need (f : Frame) : Option Nat :=
  match f.processingState with
  | .readHeader => some 2
  | .readPayloadLength => some (if f.length = 126 then 2 else 8)
  | .readMask => some 4
  | .readPayload => some (if f.length > f.maxAllowedMessageSize then 0 else f.length)
  | _ => none

/-- The frame is in the middle of something `readFrame` can go on with. -/
def Reading (f : Frame) : Prop :=
  match f.processingState with
  | .readHeader => True
  | .readPayloadLength => f.isValid = true ∧ (f.length = 126 ∨ f.length = 127)
  | .readMask => f.isValid = true
  | .readPayload => f.isValid = true
  | _ => False

/-- A reading frame that cannot move without another byte: the frames calls begin and end with. -/
def Resting (f : Frame) : Prop := f.Reading ∧ ∀ n, f.need = some n → 0 < n

theorem Reading.not_done {f : Frame} (h : f.Reading) : f.processingState ≠ .done := by
  intro hdone
  rw [Reading, hdone] at h
  exact h

theorem reset_resting (f : Frame) : f.reset.Resting := by
  refine ⟨trivial, ?_⟩
  simp [need, reset]

theorem new_resting (n : Nat) : (new n).Resting := by
  refine ⟨trivial, ?_⟩
  simp [need, new]

theorem Reading.need {f : Frame} (h : f.Reading) : ∃ n, f.need = some n := by
  unfold Reading at h
  unfold Frame.need
  split <;> simp_all

/-! ### The four readers look at the bytes they need and at no others -/

theorem reader_short {f : Frame} {d : SocketData} {n : Nat} (hf : f.Reading)
    (hn : f.need = some n) (hlt : d.getDataLeftToRead < n) :
    f.reader d = (f, d, .waitForData) := by
  unfold Reading at hf
  unfold need at hn
  unfold reader
  split at hf <;> rename_i hstate <;> simp only [hstate] at hn ⊢ <;>
    (try exact hf.elim) <;> obtain rfl := Option.some.inj hn
  · rw [← d.length_unread] at hlt
    unfold readFrameHeader
    split
    · rename_i hd
      simp only [hd, List.length_cons] at hlt
      omega
    · rfl
  · unfold readFramePayloadLength
    rcases hf.2 with h | h <;> simp [h] at hlt ⊢ <;> omega
  · unfold readFrameMask
    rw [if_neg (by omega)]
  · unfold readFramePayload
    split at hlt
    · omega
    · rw [if_neg (by omega), if_neg (by omega), if_neg (by omega)]

/-- How many readers may still follow. -/
def rank : ProcessingState → Nat
  | .readHeader => 4
  | .readPayloadLength => 3
  | .readMask => 2
  | .readPayload => 1
  | _ => 0

/-- How a reader leaves a frame that had the bytes it needs, next to how it leaves it when it is
given those bytes alone. -/
structure Agrees (f : Frame) (d : SocketData) (n : Nat) (f' : Frame) (d' e : SocketData)
    (next : ProcessingState) : Prop where
  whole : f.reader d = (f', d', next)
  alone : f.reader (.new (d.unread.take n)) = (f', e, next)
  length_eq : d'.data.length = d.data.length
  going : next ≠ .done → d' = d.skip n ∧ rank next < rank f.processingState ∧
    (f'.enter next).Reading
  valid : next = .done → f'.isValid = true → f' = f ∧ n = f.length ∧
    d'.readOffset = d.readOffset ∧ d'.unread = e.unread ++ d.unread.drop n ∧ e.unread.length = n
  refused : next = .done → f'.isValid = false → d'.readOffset = d.readOffset + n

theorem afterLength_cases (f : Frame) :
    f.afterLength = .readMask ∨ f.afterLength = .readPayload := by
  unfold afterLength
  split
  · exact .inl rfl
  · exact .inr rfl

/-- A frame that is valid after its length goes on with the key or the payload. -/
theorem afterLength_reading {f : Frame} (h : f.isValid = true) :
    (f.enter f.afterLength).Reading := by
  rcases f.afterLength_cases with hs | hs <;> rw [hs] <;> exact h

theorem reader_header {f : Frame} (h : f.processingState = .readHeader) (d : SocketData) :
    f.reader d = f.readFrameHeader d := by rw [reader, h]

theorem reader_payloadLength {f : Frame} (h : f.processingState = .readPayloadLength)
    (d : SocketData) : f.reader d = f.readFramePayloadLength d := by rw [reader, h]

theorem reader_mask {f : Frame} (h : f.processingState = .readMask) (d : SocketData) :
    f.reader d = f.readFrameMask d := by rw [reader, h]

theorem reader_payload {f : Frame} (h : f.processingState = .readPayload) (d : SocketData) :
    f.reader d = f.readFramePayload d := by rw [reader, h]

/-- A reader that skips the bytes it needs, and refuses the frame or goes on as those bytes say. -/
theorem Agrees.of_skip {f : Frame} {d : SocketData} {n : Nat} (f' : Frame)
    (next : ProcessingState) (hle : n ≤ d.getDataLeftToRead)
    (h : ∀ d₀ : SocketData, d₀.unread.take n = d.unread.take n → n ≤ d₀.getDataLeftToRead →
      f.reader d₀ = (f', d₀.skip n, next))
    (hnext : next = .done ∧ f'.isValid = false ∨
      next ≠ .done ∧ rank next < rank f.processingState ∧
        (f'.enter next).Reading) :
    ∃ f' d' e next, Agrees f d n f' d' e next := by
  have halone : n ≤ (SocketData.new (d.unread.take n)).getDataLeftToRead := by
    rw [SocketData.getDataLeftToRead_new, List.length_take, d.length_unread]
    omega
  refine ⟨f', d.skip n, (SocketData.new (d.unread.take n)).skip n, next,
    h d rfl hle, h _ (by simp) halone, rfl, ?_, ?_, fun _ _ => rfl⟩
  · intro hne
    rcases hnext with ⟨he, _⟩ | ⟨_, hrank, hread⟩
    · exact absurd he hne
    · exact ⟨rfl, hrank, hread⟩
  · intro he hvalid
    rcases hnext with ⟨_, hinvalid⟩ | ⟨hne, _⟩
    · rw [hinvalid] at hvalid
      cases hvalid
    · exact absurd he hne

theorem header_agrees {f : Frame} {d : SocketData} (hstate : f.processingState = .readHeader)
    (hle : 2 ≤ d.getDataLeftToRead) : ∃ f' d' e next, Agrees f d 2 f' d' e next := by
  obtain ⟨b₀, b₁, hd⟩ : ∃ b₀ b₁, d.unread.take 2 = [b₀, b₁] := by
    rw [← d.length_unread] at hle
    match h : d.unread, hle with
    | b₀ :: b₁ :: rest, _ => exact ⟨b₀, b₁, rfl⟩
  have hread : ∀ d₀ : SocketData, d₀.unread.take 2 = d.unread.take 2 →
      ∃ rest, d₀.unread = b₀ :: b₁ :: rest := by
    intro d₀ h₀
    rw [hd] at h₀
    refine ⟨d₀.unread.drop 2, ?_⟩
    conv => lhs; rw [← List.take_append_drop 2 d₀.unread, h₀]
    rfl
  generalize hg : (f.withHeader b₀ b₁).checkValidity = g
  have hreader : ∀ d₀ : SocketData, d₀.unread.take 2 = d.unread.take 2 → f.reader d₀ =
      if !g.isValid then (g, d₀.skip 2, .done)
      else if g.length = 126 || g.length = 127 then (g, d₀.skip 2, .readPayloadLength)
      else (g, d₀.skip 2, g.afterLength) := by
    intro d₀ h₀
    obtain ⟨rest, hrest⟩ := hread d₀ h₀
    simp only [reader_header hstate, readFrameHeader, hrest, hg]
  cases hv : g.isValid with
  | false =>
    exact Agrees.of_skip g .done hle (fun d₀ h₀ _ => by rw [hreader d₀ h₀, hv]; rfl) (.inl ⟨rfl, hv⟩)
  | true =>
    by_cases hlong : g.length = 126 ∨ g.length = 127
    · refine Agrees.of_skip g .readPayloadLength hle (fun d₀ h₀ _ => ?_) (.inr ?_)
      · rw [hreader d₀ h₀, hv, if_neg (by simp), if_pos (by simpa using hlong)]
      · rw [hstate]
        exact ⟨by simp, by decide, hv, hlong⟩
    · refine Agrees.of_skip g g.afterLength hle (fun d₀ h₀ _ => ?_) (.inr ?_)
      · rw [hreader d₀ h₀, hv, if_neg (by simp), if_neg (by simpa using hlong)]
      · rcases g.afterLength_cases with h | h <;> rw [hstate] <;>
          exact ⟨by rw [h]; simp, by rw [h]; decide, afterLength_reading hv⟩

/-- Whatever the extended length says, the frame it leads to goes on. -/
theorem extendedLength_goes {f : Frame} (hstate : f.processingState = .readPayloadLength)
    (hvalid : f.isValid = true) (length : Nat) :
    ({ f with length } : Frame).afterLength ≠ .done ∧
      rank ({ f with length } : Frame).afterLength < rank f.processingState ∧
      (({ f with length } : Frame).enter ({ f with length } : Frame).afterLength).Reading := by
  have hread := afterLength_reading (f := { f with length }) hvalid
  rcases ({ f with length } : Frame).afterLength_cases with h | h <;>
    exact ⟨by rw [h]; simp, by rw [h, hstate]; decide, hread⟩

/-- An extended length of two bytes. -/
theorem shortLength_agrees {f : Frame} {d : SocketData}
    (hstate : f.processingState = .readPayloadLength) (hvalid : f.isValid = true)
    (h126 : f.length = 126) (hle : 2 ≤ d.getDataLeftToRead) :
    ∃ f' d' e next, Agrees f d 2 f' d' e next := by
  by_cases hshort : ofBigEndian (d.unread.take 2) < 126
  · refine Agrees.of_skip
      ({ f with length := ofBigEndian (d.unread.take 2) }.setError .protocolError
        "Lengths smaller than 126 must be expressed as one byte.")
      .done hle (fun d₀ h₀ hle₀ => ?_) (.inl ⟨rfl, rfl⟩)
    rw [reader_payloadLength hstate, readFramePayloadLength, if_pos h126, if_pos hle₀, h₀,
      if_pos hshort]
  · refine Agrees.of_skip { f with length := ofBigEndian (d.unread.take 2) } _ hle
      (fun d₀ h₀ hle₀ => ?_) (.inr (extendedLength_goes hstate hvalid _))
    rw [reader_payloadLength hstate, readFramePayloadLength, if_pos h126, if_pos hle₀, h₀,
      if_neg hshort]

/-- An extended length of eight bytes. -/
theorem longLength_agrees {f : Frame} {d : SocketData}
    (hstate : f.processingState = .readPayloadLength) (hvalid : f.isValid = true)
    (h127 : f.length = 127) (hle : 8 ≤ d.getDataLeftToRead) :
    ∃ f' d' e next, Agrees f d 8 f' d' e next := by
  have hreader : ∀ d₀ : SocketData, d₀.unread.take 8 = d.unread.take 8 →
      8 ≤ d₀.getDataLeftToRead → f.reader d₀ =
        let length := ofBigEndian (d.unread.take 8)
        let f := { f with length := length % 2 ^ 32 }
        if length > 2 ^ 32 - 1 || f.length &&& 0b1000000000000000 != 0 then
          (f.setError .protocolError "Highest bit of payload length is not 0.",
            d₀.skip 8, .done)
        else if f.length ≤ 0xFFFF then
          (f.setError .protocolError
            "Lengths smaller than 65536 (2^16) must be expressed as 2 bytes.",
            d₀.skip 8, .done)
        else
          (f, d₀.skip 8, f.afterLength) := by
    intro d₀ h₀ hle₀
    rw [reader_payloadLength hstate, readFramePayloadLength, if_neg (by omega), if_pos h127,
      if_pos hle₀, h₀]
  by_cases hhigh : (ofBigEndian (d.unread.take 8) > 2 ^ 32 - 1 ||
      ofBigEndian (d.unread.take 8) % 2 ^ 32 &&& 0b1000000000000000 != 0) = true
  · refine Agrees.of_skip
      ({ f with length := ofBigEndian (d.unread.take 8) % 2 ^ 32 }.setError .protocolError
        "Highest bit of payload length is not 0.")
      .done hle (fun d₀ h₀ hle₀ => ?_) (.inl ⟨rfl, rfl⟩)
    rw [hreader d₀ h₀ hle₀, if_pos hhigh]
  · by_cases hsmall : ofBigEndian (d.unread.take 8) % 2 ^ 32 ≤ 0xFFFF
    · refine Agrees.of_skip
        ({ f with length := ofBigEndian (d.unread.take 8) % 2 ^ 32 }.setError
          .protocolError "Lengths smaller than 65536 (2^16) must be expressed as 2 bytes.")
        .done hle (fun d₀ h₀ hle₀ => ?_) (.inl ⟨rfl, rfl⟩)
      rw [hreader d₀ h₀ hle₀, if_neg hhigh, if_pos hsmall]
    · refine Agrees.of_skip { f with length := ofBigEndian (d.unread.take 8) % 2 ^ 32 } _ hle
        (fun d₀ h₀ hle₀ => ?_) (.inr (extendedLength_goes hstate hvalid _))
      rw [hreader d₀ h₀ hle₀, if_neg hhigh, if_neg hsmall]

theorem payloadLength_agrees {f : Frame} {d : SocketData} {n : Nat} (hf : f.Reading)
    (hstate : f.processingState = .readPayloadLength) (hn : f.need = some n)
    (hle : n ≤ d.getDataLeftToRead) : ∃ f' d' e next, Agrees f d n f' d' e next := by
  have hvalid : f.isValid = true ∧ (f.length = 126 ∨ f.length = 127) := by
    simpa only [Reading, hstate] using hf
  simp only [need, hstate, Option.some.injEq] at hn
  rcases hvalid.2 with h126 | h127
  · rw [if_pos h126] at hn
    subst hn
    exact shortLength_agrees hstate hvalid.1 h126 hle
  · rw [if_neg (by omega)] at hn
    subst hn
    exact longLength_agrees hstate hvalid.1 h127 hle

theorem mask_agrees {f : Frame} {d : SocketData} (hf : f.Reading)
    (hstate : f.processingState = .readMask) (hle : 4 ≤ d.getDataLeftToRead) :
    ∃ f' d' e next, Agrees f d 4 f' d' e next := by
  have hvalid : f.isValid = true := by simpa only [Reading, hstate] using hf
  refine Agrees.of_skip { f with mask := ofBigEndian (d.unread.take 4) } .readPayload hle
    (fun d₀ h₀ hle₀ => ?_)
    (.inr ⟨by simp, by rw [hstate]; decide, hvalid⟩)
  rw [reader_mask hstate, readFrameMask, if_pos hle₀, h₀]

/-- The payload is unmasked where it stands. -/
theorem maskedPayload_agrees {f : Frame} {d : SocketData} {payload : List UInt8}
    (hstate : f.processingState = .readPayload) (hvalid : f.isValid = true)
    (hbig : ¬f.length > f.maxAllowedMessageSize) (hle : f.length ≤ d.getDataLeftToRead)
    (htaken : payload.length = f.length) (hsplit : payload ++ d.unread.drop f.length = d.unread)
    (hmasked : f.length ≠ 0 ∧ f.hasMask = true) :
    ∃ f' d' e next, Agrees f d f.length f' d' e next := by
  have htake : d.unread.take f.length = payload := by rw [← hsplit, List.take_left' htaken]
  have halone : (SocketData.new payload).getDataLeftToRead = f.length := by
    rw [SocketData.getDataLeftToRead_new, htaken]
  have hnever : f.isValid = false → d.readOffset = d.readOffset + f.length := by
    intro h
    rw [hvalid] at h
    cases h
  have hlength : (maskPayload f.mask payload).length = f.length := by
    rw [length_maskPayload, htaken]
  have hreader : ∀ d₀ : SocketData, f.length ≤ d₀.getDataLeftToRead →
      d₀.unread.take f.length = payload →
      f.reader d₀ = (f, d₀.overwrite (maskPayload f.mask payload), .done) := by
    intro d₀ hle₀ h₀
    rw [reader_payload hstate, readFramePayload, if_neg hmasked.1, if_neg hbig, if_pos hle₀,
      if_pos hmasked.2, h₀]
  have hunread : ((SocketData.new payload).overwrite (maskPayload f.mask payload)).unread =
      maskPayload f.mask payload := by
    rw [SocketData.unread_overwrite _ _ (by omega), SocketData.unread_new, hlength,
      List.drop_of_length_le (by omega), List.append_nil]
  refine ⟨f, d.overwrite (maskPayload f.mask payload),
    (SocketData.new payload).overwrite (maskPayload f.mask payload), .done, hreader d hle htake, ?_,
    d.length_overwrite _ (by omega), by simp, fun _ _ => ⟨rfl, rfl, rfl, ?_, ?_⟩, fun _ => hnever⟩
  · rw [htake]
    exact hreader _ (by omega)
      (by rw [SocketData.unread_new, List.take_of_length_le (by omega)])
  · rw [SocketData.unread_overwrite _ _ (by omega), hunread, hlength]
  · rw [hunread, hlength]

/-- The payload stays as it is. -/
theorem plainPayload_agrees {f : Frame} {d : SocketData} {payload : List UInt8}
    (hstate : f.processingState = .readPayload) (hvalid : f.isValid = true)
    (hbig : ¬f.length > f.maxAllowedMessageSize) (hle : f.length ≤ d.getDataLeftToRead)
    (htaken : payload.length = f.length) (hsplit : payload ++ d.unread.drop f.length = d.unread)
    (hmasked : ¬(f.length ≠ 0 ∧ f.hasMask = true)) :
    ∃ f' d' e next, Agrees f d f.length f' d' e next := by
  have halone : (SocketData.new payload).getDataLeftToRead = f.length := by
    rw [SocketData.getDataLeftToRead_new, htaken]
  have hnever : f.isValid = false → d.readOffset = d.readOffset + f.length := by
    intro h
    rw [hvalid] at h
    cases h
  have hreader : ∀ d₀ : SocketData, f.length ≤ d₀.getDataLeftToRead →
      f.reader d₀ = (f, d₀, .done) := by
    intro d₀ hle₀
    rw [reader_payload hstate, readFramePayload]
    by_cases hzero : f.length = 0
    · rw [if_pos hzero]
    · have hmask : ¬ f.hasMask = true := fun h => hmasked ⟨hzero, h⟩
      rw [if_neg hzero, if_neg hbig, if_pos hle₀, if_neg hmask]
  refine ⟨f, d, SocketData.new payload, .done, hreader d hle, ?_, rfl, by simp,
    fun _ _ => ⟨rfl, rfl, rfl, ?_, ?_⟩, fun _ => hnever⟩
  · rw [← hsplit, List.take_left' htaken]
    exact hreader _ (by omega)
  · rw [SocketData.unread_new, hsplit]
  · rw [SocketData.unread_new, htaken]

theorem payload_agrees {f : Frame} {d : SocketData} {n : Nat} (hf : f.Reading)
    (hstate : f.processingState = .readPayload) (hn : f.need = some n)
    (hle : n ≤ d.getDataLeftToRead) : ∃ f' d' e next, Agrees f d n f' d' e next := by
  have hvalid : f.isValid = true := by simpa only [Reading, hstate] using hf
  simp only [need, hstate, Option.some.injEq] at hn
  by_cases hbig : f.length > f.maxAllowedMessageSize
  · rw [if_pos hbig] at hn
    subst hn
    refine Agrees.of_skip (f.setError .tooMuchData "Maximum framesize exceeded.") .done hle
      (fun d₀ _ _ => ?_) (.inl ⟨rfl, rfl⟩)
    rw [reader_payload hstate, readFramePayload, if_neg (by omega), if_pos hbig]
    rfl
  · rw [if_neg hbig] at hn
    subst hn
    have htaken : (d.unread.take f.length).length = f.length := by
      rw [List.length_take, d.length_unread]
      omega
    have hsplit := List.take_append_drop f.length d.unread
    by_cases hmasked : f.length ≠ 0 ∧ f.hasMask = true
    · exact maskedPayload_agrees hstate hvalid hbig hle htaken hsplit hmasked
    · exact plainPayload_agrees hstate hvalid hbig hle htaken hsplit hmasked

/-- Given the bytes it needs, a reading frame moves on, and looks at no other bytes. -/
theorem reader_agrees {f : Frame} {d : SocketData} {n : Nat} (hf : f.Reading)
    (hn : f.need = some n) (hle : n ≤ d.getDataLeftToRead) :
    ∃ f' d' e next, Agrees f d n f' d' e next := by
  match hstate : f.processingState with
  | .readHeader =>
    obtain rfl : 2 = n := by simpa [need, hstate] using hn
    exact header_agrees hstate hle
  | .readPayloadLength => exact payloadLength_agrees hf hstate hn hle
  | .readMask =>
    obtain rfl : 4 = n := by simpa [need, hstate] using hn
    exact mask_agrees hf hstate hle
  | .readPayload => exact payload_agrees hf hstate hn hle
  | .waitForData | .done | .error => simp [need, hstate] at hn

end Frame

end LuPlatform.Websocket
