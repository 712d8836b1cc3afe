import LuPlatform.Websocket.FrameHeaders

/-! `readFrame` on a frame in the format `getFrameHeader` writes, reader by reader. It ends with the
fields that went into the header and the payload unmasked, unless the length is refused. -/

namespace LuPlatform.Websocket

open Bytes Loop

namespace Frame

/-- The loop of `readFrame` gets from here to a result with the property `P`. -/
def ReadsTo (f : Frame) (d : SocketData) (P : Frame → SocketData → Prop) : Prop :=
  ∃ n f' d', loop readFrameRound n (f, d) = some (f', d') ∧ P f' d'

variable {f g : Frame} {d : SocketData} {P : Frame → SocketData → Prop} {bytes more : List UInt8}

/-- The message loop leaves a frame done, or ready for the next header. -/
theorem settle_state {f : Frame} (hstate : f.processingState = .done) (d : SocketData) :
    (f.settle d).1.processingState = .done ∨ (f.settle d).1.processingState = .readHeader := by
  unfold settle
  split
  · split
    · exact .inr rfl
    · split
      · exact .inr rfl
      · rename_i hdata
        exact .inl ((processDataFrame_abandoned hdata).state.trans hstate)
  · exact .inl hstate

/-- One reader: what `consume` does with its bytes alone is what the loop does with them in front. -/
theorem ReadsTo.of_consume (hf : f.Reading) (hneed : f.need = some bytes.length)
    (hd : d.unread = bytes ++ more) (hconsume : f.consume bytes = (g, []))
    (hgoing : g.processingState ≠ .done ∧ g.processingState ≠ .readHeader)
    (h : ∀ d', d'.unread = more → ReadsTo g d' P) : ReadsTo f d P := by
  have hle : bytes.length ≤ d.getDataLeftToRead := by
    rw [← d.length_unread, hd, List.length_append]
    omega
  have htake : d.unread.take bytes.length = bytes := by rw [hd, List.take_left]
  obtain ⟨f', d', e, next, hagrees⟩ := reader_agrees hf hneed hle
  have hnext : next ≠ .done := by
    intro hdone
    subst hdone
    have hsettle := consume_done hagrees
    rw [htake, hconsume] at hsettle
    have hstate := settle_state (f := f'.enter .done) rfl e
    rw [← hsettle] at hstate
    exact hstate.elim hgoing.1 hgoing.2
  obtain ⟨hskip, _, hread⟩ := hagrees.going hnext
  have hg : g = f'.enter next := by
    have hstep := consume_going hagrees hnext
    rw [htake, hconsume] at hstep
    exact (Prod.mk.inj hstep).1
  have hwait : next ≠ .waitForData := by
    intro hwait
    rw [hwait] at hread
    exact hread.elim
  have hround : readFrameRound (f, d) = .again (g, d.skip bytes.length) := by
    rw [readFrameRound_reader hf, hagrees.whole, resumeAt_again hwait, hg, hskip]
  have hmore : (d.skip bytes.length).unread = more := by
    rw [SocketData.unread_skip, hd, List.drop_left]
  obtain ⟨n, f'', d'', hloop, hP⟩ := h _ hmore
  exact ⟨n + 1, f'', d'', (loop_again hround n).trans hloop, hP⟩

/-- A reader that refuses the frame. -/
theorem ReadsTo.refused {e : SocketData} (hf : f.Reading) (hneed : f.need = some bytes.length)
    (hd : d.unread = bytes ++ more) (hreader : f.reader (.new bytes) = (g, e, .done))
    (h : ∀ d', P (g.enter .done) d') : ReadsTo f d P := by
  have hle : bytes.length ≤ d.getDataLeftToRead := by
    rw [← d.length_unread, hd, List.length_append]
    omega
  have htake : d.unread.take bytes.length = bytes := by rw [hd, List.take_left]
  obtain ⟨f', d', e', next, hagrees⟩ := reader_agrees hf hneed hle
  have halone := hagrees.alone
  rw [htake, hreader] at halone
  obtain ⟨rfl, rfl, rfl⟩ : g = f' ∧ e = e' ∧ ProcessingState.done = next := by
    simpa only [Prod.mk.injEq] using halone
  have hround : readFrameRound (f, d) = .again (g.enter .done, d') := by
    rw [readFrameRound_reader hf, hagrees.whole, resumeAt_again (by decide)]
  exact ⟨2, _, d', (loop_again hround 1).trans (loop_leave rfl 0), h d'⟩

/-- What the payload's reader leaves in the buffer. -/
theorem ReadsTo.payload {payload : List UInt8} (hstate : f.processingState = .readPayload)
    (hvalid : f.isValid = true) (hlength : f.length = payload.length)
    (hfits : payload.length ≤ f.maxAllowedMessageSize) (hd : d.unread = maskPayload f.mask payload)
    (h : ∀ d', d'.unread = payload → P (f.enter .done) d') : ReadsTo f d P := by
  have hf : f.Reading := by simpa only [Reading, hstate] using hvalid
  have hleft : d.getDataLeftToRead = payload.length := by
    rw [← d.length_unread, hd, length_maskPayload]
  have htake : d.unread.take f.length = maskPayload f.mask payload := by
    rw [hd, hlength]
    exact List.take_of_length_le (by simp)
  have hreads : ∀ d', f.readFramePayload d = (f, d', .done) → d'.unread = payload → ReadsTo f d P := by
    intro d' hreader hpayload
    have hround : readFrameRound (f, d) = .again (f.enter .done, d') := by
      rw [readFrameRound_reader hf, reader_payload hstate, hreader, resumeAt_again (by decide)]
    exact ⟨2, _, d', (loop_again hround 1).trans (loop_leave rfl 0), h d' hpayload⟩
  by_cases hempty : payload = []
  · subst hempty
    refine hreads d ?_ (by rw [hd]; rfl)
    exact if_pos hlength
  · have hpos : f.length ≠ 0 := by
      rw [hlength]
      exact fun h => hempty (List.length_eq_zero_iff.mp h)
    have hbig : ¬ f.length > f.maxAllowedMessageSize := by omega
    by_cases hmask : f.hasMask
    · refine hreads (d.overwrite payload) ?_ ?_
      · rw [readFramePayload, if_neg hpos, if_neg hbig, if_pos (by omega), if_pos hmask, htake,
          maskPayload_maskPayload]
      · rw [SocketData.unread_overwrite _ _ hleft.ge, hd, List.drop_of_length_le (by simp),
          List.append_nil]
    · have hzero : f.mask = 0 := by simpa [hasMask] using hmask
      refine hreads d ?_ (by rw [hd, hzero, maskPayload_zero])
      rw [readFramePayload, if_neg hpos, if_neg hbig, if_pos (by omega), if_neg hmask]

section Header

variable {opCode : OpCode} {lastFrame : Bool} {maskingKey : Option Nat}

/-- Behind the length: the key, and then the payload. -/
theorem ReadsTo.key {n : Nat} (hkey : ∀ key ∈ maskingKey, key < 2 ^ 32)
    (hd : d.unread = maskingKey.elim [] (toBigEndian 4) ++ more)
    (h : ∀ d', d'.unread = more →
      ReadsTo ((f.opened opCode n (maskingKey.getD 0) lastFrame).enter .readPayload) d' P) :
    ReadsTo ((f.opened opCode n (maskFlag maskingKey) lastFrame).enter
      (f.opened opCode n (maskFlag maskingKey) lastFrame).afterLength) d P := by
  cases maskingKey with
  | none => exact h d hd
  | some key =>
    have hneed : ((f.opened opCode n 0x80 lastFrame).enter .readMask).need =
        some (toBigEndian 4 key).length := by
      rw [length_toBigEndian]
      rfl
    have hreading : ((f.opened opCode n 0x80 lastFrame).enter .readMask).Reading := rfl
    exact ReadsTo.of_consume hreading hneed hd (consume_key (hkey key rfl))
      ⟨by simp [enter], by simp [enter]⟩ h

/-- The two bytes in front: then the extended length if there is one, or else the key. -/
theorem ReadsTo.header {length : Nat} (hstate : f.processingState = .readHeader)
    (hlength : length ≤ 127) (hallowed : HeaderAllowed opCode length lastFrame)
    (hd : d.unread = firstByte opCode lastFrame :: secondByte maskingKey.isSome length :: more)
    (h : let g := f.opened opCode length (maskFlag maskingKey) lastFrame
      ∀ d', d'.unread = more → ReadsTo (g.enter (if length = 126 ∨ length = 127 then
        .readPayloadLength else g.afterLength)) d' P) : ReadsTo f d P := by
  have hreading : f.Reading := by simp only [Reading, hstate]
  have hneed : f.need = some [firstByte opCode lastFrame, secondByte maskingKey.isSome length].length := by
    simp [need, hstate]
  refine ReadsTo.of_consume hreading hneed hd (consume_header hstate hlength hallowed) ?_ h
  by_cases hlong : length = 126 ∨ length = 127
  · simp [enter, hlong]
  · obtain hafter | hafter :=
      (f.opened opCode length (maskFlag maskingKey) lastFrame).afterLength_cases <;>
      simp [enter, hlong, hafter]

/-- A frame of an accepted length is read as it was written. -/
theorem ReadsTo.wire {payload : List UInt8} (hstate : f.processingState = .readHeader)
    (hallowed : HeaderAllowed opCode payload.length lastFrame)
    (hlength : LengthAccepted payload.length) (hfits : payload.length ≤ f.maxAllowedMessageSize)
    (hkey : ∀ key ∈ maskingKey, key < 2 ^ 32)
    (hd : d.unread = wireHeader opCode payload.length maskingKey lastFrame ++
      maskPayload (maskingKey.getD 0) payload)
    (h : ∀ d', d'.unread = payload →
      P ((f.opened opCode payload.length (maskingKey.getD 0) lastFrame).enter .done) d') :
    ReadsTo f d P := by
  set n := payload.length with hn
  have hpayload : ∀ d', d'.unread = maskPayload (maskingKey.getD 0) payload →
      ReadsTo ((f.opened opCode n (maskingKey.getD 0) lastFrame).enter .readPayload) d' P :=
    fun d' hd' => ReadsTo.payload (f := (f.opened opCode n _ lastFrame).enter .readPayload) rfl rfl rfl
      hfits hd' h
  have hrest : ∀ d', d'.unread = maskingKey.elim [] (toBigEndian 4) ++
      maskPayload (maskingKey.getD 0) payload →
        ReadsTo ((f.opened opCode n (maskFlag maskingKey) lastFrame).enter
          (f.opened opCode n (maskFlag maskingKey) lastFrame).afterLength) d' P :=
    fun d' hd' => ReadsTo.key hkey hd' hpayload
  rw [wireHeader, List.append_assoc, List.cons_append, List.cons_append] at hd
  refine ReadsTo.header hstate (lengthCode_le n) hallowed.lengthCode hd fun d' hd' => ?_
  by_cases hshort : n ≤ 125
  · obtain ⟨hcode, hextended⟩ := lengthCode_short hshort
    have hlong : ¬ (n = 126 ∨ n = 127) := by omega
    rw [hextended, List.nil_append] at hd'
    rw [hcode, if_neg hlong]
    exact hrest d' hd'
  · have hcode : lengthCode n = 126 ∨ lengthCode n = 127 := by
      by_cases hmedium : n ≤ 0xFFFF
      · exact .inl (lengthCode_medium hshort hmedium).1
      · exact .inr (lengthCode_long hmedium).1
    rw [if_pos hcode]
    have hreading : ((f.opened opCode (lengthCode n) (maskFlag maskingKey) lastFrame).enter
        .readPayloadLength).Reading := ⟨rfl, hcode⟩
    have hneed := readPayloadLength_need (f := (f.opened opCode (lengthCode n) (maskFlag maskingKey)
      lastFrame).enter .readPayloadLength) hshort rfl rfl
    refine ReadsTo.of_consume hreading hneed hd' (consume_length hshort hlength) ?_ hrest
    obtain hafter | hafter :=
      (f.opened opCode n (maskFlag maskingKey) lastFrame).afterLength_cases <;> simp [enter, hafter]

/-- One of any other length ends invalid. -/
theorem ReadsTo.wire_refused {n : Nat} (hstate : f.processingState = .readHeader)
    (hallowed : HeaderAllowed opCode n lastFrame) (hword : n < 2 ^ 64)
    (hrefused : ¬ LengthAccepted n)
    (hd : d.unread = wireHeader opCode n maskingKey lastFrame ++ more) :
    ReadsTo f d fun f' _ => f'.isValid = false := by
  have hlong : ¬ n ≤ 0xFFFF := fun h => hrefused (.inl h)
  obtain ⟨hcode, _⟩ := lengthCode_long hlong
  rw [wireHeader, List.append_assoc, List.cons_append, List.cons_append] at hd
  refine ReadsTo.header hstate (lengthCode_le n) hallowed.lengthCode hd fun d' hd' => ?_
  rw [if_pos (Or.inr hcode)]
  set g := (f.opened opCode (lengthCode n) (maskFlag maskingKey) lastFrame).enter .readPayloadLength
  obtain ⟨g', e, hreader, hvalid⟩ := reader_refusedLength (f := g) hword hrefused hcode rfl
  have hreading : g.Reading := ⟨rfl, .inr hcode⟩
  have hneed := readPayloadLength_need (f := g) (show ¬ n ≤ 125 by omega) rfl rfl
  exact ReadsTo.refused hreading hneed hd' hreader fun _ => hvalid

end Header

/-- What `readFrame` returns is what its loop gets to. -/
theorem readFrame_of_readsTo (hf : f.Reading) (hd : d.readOffset ≤ d.data.length)
    (h : ReadsTo f d P) : ∃ f' d', f.readFrame d = some (f', d') ∧ P f' d' := by
  obtain ⟨n, f', d', hloop, hP⟩ := h
  obtain ⟨g, e, hread, _⟩ := readFrame_spec hf hd
  obtain ⟨rfl, rfl⟩ := Prod.mk.inj (loop_unique hloop hread)
  exact ⟨f', d', hread, hP⟩

/-- The frame that was meant: its opcode, its payload, unmasked at the read offset, and whether it is
the last one. -/
structure Decoded (opCode : OpCode) (payload : List UInt8) (lastFrame : Bool) (f : Frame)
    (d : SocketData) : Prop where
  state : f.processingState = .done
  valid : f.isValid = true
  opCode : f.opCode = opCode
  length : f.length = payload.length
  final : f.isFinalFrame = lastFrame
  payload : d.unread = payload

section Decode

variable (maxAllowedMessageSize key : Nat) (opCode : OpCode) (lastFrame : Bool) (payload : List UInt8)

/-- A fresh frame reads what `getFrameHeader` and `mask` made of the payload. -/
def Decodes : Prop :=
  ∃ f d, (new maxAllowedMessageSize).readFrame
    (.new ((getFrameHeader opCode payload.length key lastFrame).contents ++ maskPayload key payload)) =
      some (f, d) ∧ Decoded opCode payload lastFrame f d

theorem decodes_iff_lengthAccepted (hkey : key < 2 ^ 32)
    (hallowed : HeaderAllowed opCode payload.length lastFrame)
    (hsize : payload.length ≤ maxAllowedMessageSize) (hmax : maxAllowedMessageSize < 2 ^ 32) :
    Decodes maxAllowedMessageSize key opCode lastFrame payload ↔ LengthAccepted payload.length := by
  unfold Decodes
  set maskingKey := if key = 0 then none else some key with hmaskingKey
  have hsome : ∀ k ∈ maskingKey, k < 2 ^ 32 := by
    intro k hk
    rw [hmaskingKey] at hk
    split at hk
    · cases hk
    · obtain rfl := Option.some.inj hk
      exact hkey
  have hgetD : maskingKey.getD 0 = key := by
    rw [hmaskingKey]
    split
    · rename_i hzero
      exact hzero.symm
    · rfl
  rw [getFrameHeader_contents (by omega), ← hmaskingKey]
  have hreading : (new maxAllowedMessageSize).Reading := trivial
  constructor
  · intro ⟨f, d, hread, hdecoded⟩
    by_contra hrefused
    obtain ⟨f', d', hread', hinvalid⟩ := readFrame_of_readsTo hreading (Nat.zero_le _)
      (ReadsTo.wire_refused (d := .new (wireHeader opCode payload.length maskingKey lastFrame ++
        maskPayload key payload)) rfl hallowed (by omega) hrefused (SocketData.unread_new _))
    rw [hread] at hread'
    obtain ⟨rfl, rfl⟩ := Prod.mk.inj (Option.some.inj hread')
    rw [hdecoded.valid] at hinvalid
    cases hinvalid
  · intro hlength
    have hunread : (SocketData.new (wireHeader opCode payload.length maskingKey lastFrame ++
        maskPayload key payload)).unread = wireHeader opCode payload.length maskingKey lastFrame ++
          maskPayload (maskingKey.getD 0) payload := by rw [SocketData.unread_new, hgetD]
    refine readFrame_of_readsTo hreading (Nat.zero_le _)
      (ReadsTo.wire rfl hallowed hlength hsize hsome hunread fun d' hd' => ?_)
    exact ⟨rfl, rfl, rfl, rfl, rfl, hd'⟩

/-- Header decoding undoes header encoding exactly for the payloads of up to 65535 bytes and for those
longer ones whose length has bit 15 clear. -/
theorem decodes_iff (hkey : key < 2 ^ 32)
    (hop : opCode ∈ [OpCode.continuation, .text, .binary, .close, .ping, .pong])
    (hcontrol : opCode ∈ [OpCode.close, .ping, .pong] → payload.length ≤ 125 ∧ lastFrame = true)
    (hsize : payload.length ≤ maxAllowedMessageSize) (hmax : maxAllowedMessageSize < 2 ^ 32) :
    Decodes maxAllowedMessageSize key opCode lastFrame payload ↔
      payload.length ≤ 0xFFFF ∨ payload.length &&& 0b1000000000000000 = 0 := by
  have hallowed : HeaderAllowed opCode payload.length lastFrame := by
    refine ⟨?_, fun hbit => hcontrol ?_⟩
    · simp only [List.mem_cons, List.not_mem_nil, or_false] at hop
      obtain rfl | rfl | rfl | rfl | rfl | rfl := hop <;> rfl
    · revert hop hbit
      cases opCode <;> decide
  rw [decodes_iff_lengthAccepted maxAllowedMessageSize key opCode lastFrame payload hkey hallowed hsize
    hmax, LengthAccepted, and_iff_right (by omega)]

end Decode

/-- A masked text frame. -/
theorem decodes_iff_hello : Decodes 125 0x37fa213d .text true (ascii "Hello") ↔
    (ascii "Hello").length ≤ 0xFFFF ∨ (ascii "Hello").length &&& 0b1000000000000000 = 0 :=
  decodes_iff 125 0x37fa213d .text true (ascii "Hello") (by decide) (by decide) (by decide) (by decide)
    (by decide)

/-- 98304 bytes, of a receiver that allows 100000: the length has bit 15 set. -/
theorem not_decodes_long : ¬ Decodes 100000 0 .binary true (List.replicate 98304 0) := by
  have hlength : (List.replicate 98304 (0 : UInt8)).length = 98304 := List.length_replicate
  have hallowed : HeaderAllowed .binary (List.replicate 98304 (0 : UInt8)).length true :=
    ⟨rfl, fun h => absurd h (by decide)⟩
  rw [decodes_iff_lengthAccepted 100000 0 .binary true _ (by decide) hallowed
    (by rw [hlength]; decide) (by decide), hlength]
  decide

end Frame

end LuPlatform.Websocket
