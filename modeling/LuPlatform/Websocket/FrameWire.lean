import LuPlatform.Websocket.FrameSend
import LuPlatform.Websocket.MessageLoop

/-! What the decoder makes of a frame in the format `getFrameHeader` writes: it reads the header, the
extended length, the key and the payload one after the other and settles the frame with the payload
unmasked, unless the length is one of those `readFramePayloadLength` refuses. -/

namespace LuPlatform.Websocket

open Bytes Feed

namespace Frame

/-- The lengths a frame can have without being refused: of those that take eight bytes, the ones
whose bit 15 is clear. -/
def LengthAccepted (payloadLength : Nat) : Prop :=
  payloadLength ≤ 0xFFFF ∨
    payloadLength < 2 ^ 32 ∧ payloadLength &&& 0b1000000000000000 = 0

instance (payloadLength : Nat) : Decidable (LengthAccepted payloadLength) :=
  inferInstanceAs (Decidable (_ ∨ _))

/-- The frame with its header read. -/
def opened (f : Frame) (opCode : OpCode) (length mask : Nat) (lastFrame : Bool) : Frame :=
  { f with
    isFinalFrame := lastFrame
    rsv1 := false
    rsv2 := false
    rsv3 := false
    opCode
    mask
    length
    isValid := true }

/-- The value `m_mask` has until the key is read. -/
def maskFlag (maskingKey : Option Nat) : Nat := if maskingKey.isSome then 0x80 else 0

theorem firstByte_bits (opCode : OpCode) (lastFrame : Bool) :
    (firstByte opCode lastFrame &&& 0x80 != 0) = lastFrame ∧
      (firstByte opCode lastFrame &&& 0x40 != 0) = false ∧
      (firstByte opCode lastFrame &&& 0x20 != 0) = false ∧
      (firstByte opCode lastFrame &&& 0x10 != 0) = false ∧
      .ofValue (firstByte opCode lastFrame &&& 0x0F).toNat = opCode := by
  cases opCode <;> cases lastFrame <;> decide

theorem secondByte_bits (masked : Bool) {length : Nat} (h : length ≤ 127) :
    (secondByte masked length &&& 0x80).toNat = (if masked then 0x80 else 0) ∧
      (secondByte masked length &&& 0x7F).toNat = length := by
  have hall : ∀ length : Fin 128, ∀ masked : Bool,
      (secondByte masked length.val &&& 0x80).toNat = (if masked then 0x80 else 0) ∧
        (secondByte masked length.val &&& 0x7F).toNat = length.val := by decide
  exact hall ⟨length, by omega⟩ masked

/-- What a header must satisfy to be valid: nothing reserved, and a control frame short and whole. -/
def HeaderAllowed (opCode : OpCode) (length : Nat) (lastFrame : Bool) : Prop :=
  isOpCodeReserved opCode = false ∧
    (opCode.value &&& 0x08 = 0x08 → length ≤ 125 ∧ lastFrame = true)

theorem withHeader_opened {f : Frame} {opCode : OpCode} {length : Nat} {lastFrame : Bool}
    {maskingKey : Option Nat} (hlength : length ≤ 127)
    (hallowed : HeaderAllowed opCode length lastFrame) :
    (f.withHeader (firstByte opCode lastFrame) (secondByte maskingKey.isSome length)).checkValidity =
      f.opened opCode length (maskFlag maskingKey) lastFrame := by
  obtain ⟨hfin, hrsv1, hrsv2, hrsv3, hop⟩ := firstByte_bits opCode lastFrame
  obtain ⟨hmask, hlow⟩ := secondByte_bits maskingKey.isSome hlength
  obtain ⟨hreserved, hcontrol⟩ := hallowed
  have hheader : f.withHeader (firstByte opCode lastFrame) (secondByte maskingKey.isSome length) =
      { f.opened opCode length (maskFlag maskingKey) lastFrame with isValid := f.isValid } := by
    simp only [withHeader, opened, hfin, hrsv1, hrsv2, hrsv3, hop, hmask, hlow, maskFlag]
  rw [hheader]
  unfold checkValidity
  simp only [opened, Bool.or_self, Bool.false_eq_true, if_false, hreserved]
  by_cases hctl : opCode.value &&& 0x08 = 0x08
  · obtain ⟨hshort, hlast⟩ := hcontrol hctl
    simp [isControlFrame, hctl, hlast, show ¬ length > 125 by omega]
  · simp [isControlFrame, hctl]

theorem consume_header {f : Frame} {opCode : OpCode} {length : Nat} {lastFrame : Bool}
    {maskingKey : Option Nat} (hstate : f.processingState = .readHeader) (hlength : length ≤ 127)
    (hallowed : HeaderAllowed opCode length lastFrame) :
    f.consume [firstByte opCode lastFrame, secondByte maskingKey.isSome length] =
      (let g := f.opened opCode length (maskFlag maskingKey) lastFrame
       g.enter (if length = 126 ∨ length = 127 then .readPayloadLength else g.afterLength), []) := by
  have hvalid : (f.withHeader (firstByte opCode lastFrame)
      (secondByte maskingKey.isSome length)).checkValidity =
        f.opened opCode length (maskFlag maskingKey) lastFrame :=
    withHeader_opened hlength hallowed
  have hreader : f.reader (.new [firstByte opCode lastFrame,
      secondByte maskingKey.isSome length]) =
      (let g := f.opened opCode length (maskFlag maskingKey) lastFrame
       (g, (SocketData.new [firstByte opCode lastFrame,
          secondByte maskingKey.isSome length]).skip 2,
        if length = 126 ∨ length = 127 then .readPayloadLength else g.afterLength)) := by
    rw [reader_header hstate, readFrameHeader, SocketData.unread_new]
    simp only [hvalid]
    by_cases hlong : length = 126 ∨ length = 127
    · rcases hlong with rfl | rfl <;> rfl
    · obtain ⟨h126, h127⟩ := not_or.mp hlong
      simp [opened, h126, h127]
  rw [consume, hreader]
  by_cases hlong : length = 126 ∨ length = 127
  · simp [hlong]
  · rcases (f.opened opCode length (maskFlag maskingKey) lastFrame).afterLength_cases with h | h <;>
      simp [hlong, h]

theorem readPayloadLength_need {f : Frame} {n : Nat} (hn : ¬ n ≤ 125) (hf : f.length = lengthCode n)
    (hstate : f.processingState = .readPayloadLength) :
    decoder.need f = some (extendedLength n).length := by
  simp only [decoder, need, hstate, hf, lengthCode, extendedLength, if_neg hn]
  by_cases hmedium : n ≤ 0xFFFF <;> simp [hmedium]

theorem consume_length {f : Frame} {opCode : OpCode} {n mask : Nat} {lastFrame : Bool}
    (hn : ¬ n ≤ 125) (hlength : LengthAccepted n) :
    ((f.opened opCode (lengthCode n) mask lastFrame).enter .readPayloadLength).consume
        (extendedLength n) =
      (let g := f.opened opCode n mask lastFrame
       g.enter g.afterLength, []) := by
  have hreader : ((f.opened opCode (lengthCode n) mask lastFrame).enter .readPayloadLength).reader
      (.new (extendedLength n)) =
      (let g := f.opened opCode n mask lastFrame
       (g.enter .readPayloadLength, (SocketData.new (extendedLength n)).skip
          (extendedLength n).length, g.afterLength)) := by
    rw [reader_payloadLength rfl, readFramePayloadLength, SocketData.unread_new]
    by_cases hmedium : n ≤ 0xFFFF
    · have hvalue : ofBigEndian (toBigEndian 2 n) = n := by
        rw [ofBigEndian_toBigEndian, Nat.mod_eq_of_lt (by omega)]
      have htake : (toBigEndian 2 n).take 2 = toBigEndian 2 n :=
        List.take_of_length_le (by simp)
      simp [opened, enter, lengthCode, extendedLength, hn, hmedium, SocketData.getDataLeftToRead,
        SocketData.new, htake, hvalue, show ¬ n < 126 by omega, afterLength, hasMask]
    · obtain ⟨hword, hbit⟩ : n < 2 ^ 32 ∧ n &&& 0b1000000000000000 = 0 := by
        rcases hlength with h | h
        · exact absurd h hmedium
        · exact h
      have hvalue : ofBigEndian (toBigEndian 8 n) = n := by
        rw [ofBigEndian_toBigEndian, Nat.mod_eq_of_lt (by omega)]
      have htake : (toBigEndian 8 n).take 8 = toBigEndian 8 n :=
        List.take_of_length_le (by simp)
      have hmod : n % 4294967296 = n := Nat.mod_eq_of_lt (by omega)
      simp [opened, enter, lengthCode, extendedLength, hn, hmedium, SocketData.getDataLeftToRead,
        SocketData.new, htake, hvalue, hmod, hbit, show ¬ n > 4294967295 by omega, afterLength,
        hasMask]
  rw [consume, hreader]
  rcases (f.opened opCode n mask lastFrame).afterLength_cases with h | h <;> simp [h, enter]

theorem reader_refusedLength {f : Frame} {n : Nat} (hword : n < 2 ^ 64)
    (hrefused : ¬ LengthAccepted n) (hf : f.length = 127)
    (hstate : f.processingState = .readPayloadLength) :
    ∃ g d, f.reader (.new (extendedLength n)) = (g, d, .done) ∧ g.isValid = false := by
  obtain ⟨hlong, hbits⟩ := not_or.mp hrefused
  have hvalue : ofBigEndian (toBigEndian 8 n) = n := by
    rw [ofBigEndian_toBigEndian, Nat.mod_eq_of_lt (by omega)]
  have htake : (toBigEndian 8 n).take 8 = toBigEndian 8 n := List.take_of_length_le (by simp)
  have hleft : (SocketData.new (toBigEndian 8 n)).getDataLeftToRead ≥ 8 := by
    simp [SocketData.getDataLeftToRead, SocketData.new]
  have hextended : extendedLength n = toBigEndian 8 n := by
    rw [extendedLength, if_neg (by omega), if_neg hlong]
  rw [reader_payloadLength hstate, readFramePayloadLength, if_neg (by omega), if_pos hf, hextended,
    if_pos hleft, SocketData.unread_new, htake, hvalue]
  by_cases hhigh : n > 2 ^ 32 - 1 || n % 2 ^ 32 &&& 0b1000000000000000 != 0
  · simp only [hhigh, if_true]
    exact ⟨_, _, rfl, rfl⟩
  · have hmod : n % 2 ^ 32 = n := Nat.mod_eq_of_lt (by simp at hhigh; omega)
    simp only [hmod, Bool.or_eq_true, decide_eq_true_eq, bne_iff_ne, not_or, not_not] at hhigh
    exact absurd ⟨by omega, hhigh.2⟩ hbits

theorem consume_refusedLength {f : Frame} {n : Nat} (hword : n < 2 ^ 64)
    (hrefused : ¬ LengthAccepted n) (hf : f.length = 127)
    (hstate : f.processingState = .readPayloadLength) :
    ∃ g, f.consume (extendedLength n) = (g, []) ∧ g.processingState = .done := by
  obtain ⟨g, d, hg, hvalid⟩ := reader_refusedLength hword hrefused hf hstate
  refine ⟨{ g.enter .done with opCode := .close }, ?_, rfl⟩
  rw [consume, hg]
  exact settle_refused (f := g.enter .done) hvalid d

theorem consume_key {f : Frame} {opCode : OpCode} {n key mask : Nat} {lastFrame : Bool}
    (hkey : key < 2 ^ 32) :
    ((f.opened opCode n mask lastFrame).enter .readMask).consume (toBigEndian 4 key) =
      ((f.opened opCode n key lastFrame).enter .readPayload, []) := by
  have hvalue : ofBigEndian (toBigEndian 4 key) = key := by
    rw [ofBigEndian_toBigEndian, Nat.mod_eq_of_lt (by omega)]
  have htake : (toBigEndian 4 key).take 4 = toBigEndian 4 key := List.take_of_length_le (by simp)
  rw [consume, reader_mask rfl, readFrameMask, SocketData.unread_new, htake, hvalue]
  simp [SocketData.getDataLeftToRead, SocketData.new, opened, enter]

/-- The payload arrives masked and the frame is settled with the payload itself. -/
theorem consume_payload {f : Frame} {payload : List UInt8}
    (hstate : f.processingState = .readPayload) (hlength : f.length = payload.length)
    (hfits : payload.length ≤ f.maxAllowedMessageSize) :
    f.consume (maskPayload f.mask payload) = (f.enter .done).settle (.new payload) := by
  have hreader : ∃ d, f.reader (.new (maskPayload f.mask payload)) = (f, d, .done) ∧
      d.unread = payload := by
    have hleft : (SocketData.new (maskPayload f.mask payload)).getDataLeftToRead ≥ f.length := by
      simp [SocketData.getDataLeftToRead, SocketData.new, hlength]
    have htake : (maskPayload f.mask payload).take f.length = maskPayload f.mask payload :=
      List.take_of_length_le (by simp [hlength])
    rw [reader_payload hstate, readFramePayload, if_neg (show ¬ f.length > _ by omega), if_pos hleft,
      SocketData.unread_new, htake, maskPayload_maskPayload]
    by_cases hempty : f.length = 0
    · rw [if_pos hempty]
      have hpayload : payload = [] := List.length_eq_zero_iff.mp (by omega)
      exact ⟨_, rfl, by simp [hpayload, maskPayload, maskFrom]⟩
    · rw [if_neg hempty]
      by_cases hmask : f.hasMask
      · rw [if_pos hmask]
        refine ⟨_, rfl, ?_⟩
        rw [SocketData.unread_overwrite _ _ (by omega), SocketData.unread_new,
          List.drop_of_length_le (by simp), List.append_nil]
      · rw [if_neg hmask]
        have hzero : f.mask = 0 := by simpa [hasMask] using hmask
        exact ⟨_, rfl, by rw [hzero, maskPayload_zero, SocketData.unread_new]⟩
  obtain ⟨d, hd, hunread⟩ := hreader
  rw [consume, hd]
  refine settle_congr ?_
  rw [hunread, SocketData.unread_new, show (f.enter .done).length = payload.length from hlength,
    List.take_length]

/-! ### The decoder on a frame -/

section Wire

variable {f s : Frame} {opCode : OpCode} {lastFrame : Bool} {maskingKey : Option Nat}
variable {more rest : List UInt8} {events : List FrameEvent}

theorem payload_feeds {payload : List UInt8} (hstate : f.processingState = .readPayload)
    (hlength : f.length = payload.length) (hfits : payload.length ≤ f.maxAllowedMessageSize)
    {g : Frame} {first : List FrameEvent}
    (hsettle : (f.enter .done).settle (.new payload) = (g, first))
    (h : Feeds decoder g more events s rest) :
    Feeds decoder f (maskPayload f.mask payload ++ more) (first ++ events) s rest := by
  refine Feeds.given ?_ ((consume_payload hstate hlength hfits).trans hsettle) h
  show f.need = _
  simp [need, hstate, hlength, show ¬ payload.length > f.maxAllowedMessageSize by omega]

theorem key_feeds {n : Nat} (hkey : ∀ key ∈ maskingKey, key < 2 ^ 32)
    (h : Feeds decoder ((f.opened opCode n (maskingKey.getD 0) lastFrame).enter .readPayload) more
      events s rest) :
    Feeds decoder ((f.opened opCode n (maskFlag maskingKey) lastFrame).enter
      (f.opened opCode n (maskFlag maskingKey) lastFrame).afterLength)
      (maskingKey.elim [] (toBigEndian 4) ++ more) events s rest := by
  cases maskingKey with
  | none => exact h
  | some key =>
    have hneed : decoder.need ((f.opened opCode n 0x80 lastFrame).enter .readMask) =
        some (toBigEndian 4 key).length := by
      rw [length_toBigEndian]
      rfl
    exact Feeds.silent hneed (consume_key (hkey key rfl)) h

/-- Whatever follows the header, the decoder has read it once it got the two bytes. -/
theorem header_feeds {length : Nat} (hstate : f.processingState = .readHeader)
    (hlength : length ≤ 127) (hallowed : HeaderAllowed opCode length lastFrame)
    (h : let g := f.opened opCode length (maskFlag maskingKey) lastFrame
      Feeds decoder (g.enter (if length = 126 ∨ length = 127 then .readPayloadLength
        else g.afterLength)) more events s rest) :
    Feeds decoder f (firstByte opCode lastFrame :: secondByte maskingKey.isSome length :: more)
      events s rest := by
  have hneed : decoder.need f = some 2 := by simp [decoder, need, hstate]
  change Feeds decoder f ([_, _] ++ more) events s rest
  exact Feeds.silent hneed (consume_header hstate hlength hallowed) h

theorem lengthCode_le (n : Nat) : lengthCode n ≤ 127 := by
  unfold lengthCode
  split
  · omega
  · split <;> omega

theorem HeaderAllowed.lengthCode {n : Nat} (h : HeaderAllowed opCode n lastFrame) :
    HeaderAllowed opCode (lengthCode n) lastFrame := by
  refine ⟨h.1, fun hcontrol => ?_⟩
  obtain ⟨hshort, hlast⟩ := h.2 hcontrol
  exact ⟨by rw [Frame.lengthCode, if_pos hshort]; exact hshort, hlast⟩

/-- A frame whose length is accepted is settled with its payload, unmasked. -/
theorem wire_feeds {payload : List UInt8} (hstate : f.processingState = .readHeader)
    (hallowed : HeaderAllowed opCode payload.length lastFrame)
    (hlength : LengthAccepted payload.length) (hfits : payload.length ≤ f.maxAllowedMessageSize)
    (hkey : ∀ key ∈ maskingKey, key < 2 ^ 32) {first : List FrameEvent} {g : Frame}
    (hsettle : ((f.opened opCode payload.length (maskingKey.getD 0) lastFrame).enter .done).settle
      (.new payload) = (g, first))
    (h : Feeds decoder g more events s rest) :
    Feeds decoder f (wireHeader opCode payload.length maskingKey lastFrame ++
      maskPayload (maskingKey.getD 0) payload ++ more) (first ++ events) s rest := by
  have hpayload : Feeds decoder
      ((f.opened opCode payload.length (maskingKey.getD 0) lastFrame).enter .readPayload)
      (maskPayload (maskingKey.getD 0) payload ++ more) (first ++ events) s rest :=
    payload_feeds (f := (f.opened opCode payload.length _ lastFrame).enter .readPayload) rfl rfl
      hfits hsettle h
  have hrest := key_feeds hkey hpayload
  rw [wireHeader, List.append_assoc, List.append_assoc, List.cons_append, List.cons_append]
  refine header_feeds hstate (lengthCode_le _) hallowed.lengthCode ?_
  by_cases hshort : payload.length ≤ 125
  · have hcode : lengthCode payload.length = payload.length := if_pos hshort
    have hlong : ¬ (payload.length = 126 ∨ payload.length = 127) := by omega
    simp only [hcode, extendedLength, if_pos hshort, if_neg hlong]
    exact hrest
  · have hcode : lengthCode payload.length = 126 ∨ lengthCode payload.length = 127 := by
      rw [lengthCode, if_neg hshort]
      split <;> simp
    simp only [if_pos hcode]
    exact Feeds.silent (readPayloadLength_need hshort rfl rfl) (consume_length hshort hlength) hrest

/-- A frame whose length is refused ends the conversation, whatever follows. -/
theorem wire_refused {n : Nat} (hstate : f.processingState = .readHeader)
    (hallowed : HeaderAllowed opCode n lastFrame) (hword : n < 2 ^ 64)
    (hrefused : ¬ LengthAccepted n) (more : List UInt8) :
    ∃ g rest, Feeds decoder f (wireHeader opCode n maskingKey lastFrame ++ more) [] g rest ∧
      g.processingState = .done := by
  have hlong : ¬ n ≤ 0xFFFF := fun h => hrefused (.inl h)
  have hcode : lengthCode n = 127 := by
    rw [lengthCode, if_neg (by omega), if_neg hlong]
  obtain ⟨g, hconsume, hdone⟩ := consume_refusedLength (n := n)
    (f := (f.opened opCode (lengthCode n) (maskFlag maskingKey) lastFrame).enter .readPayloadLength)
    hword hrefused hcode rfl
  refine ⟨g, maskingKey.elim [] (toBigEndian 4) ++ more, ?_, hdone⟩
  rw [wireHeader, List.append_assoc, List.cons_append, List.cons_append]
  refine header_feeds hstate (lengthCode_le _) hallowed.lengthCode ?_
  simp only [if_pos (Or.inr hcode)]
  exact Feeds.silent (readPayloadLength_need (by omega) rfl rfl) hconsume
    (.starve (starved_done hdone _))

end Wire

end Frame

end LuPlatform.Websocket
