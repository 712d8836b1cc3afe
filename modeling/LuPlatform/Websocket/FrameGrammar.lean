import LuPlatform.Library.BaseFraming
import LuPlatform.Library.Counters
import LuPlatform.Websocket.FrameFragments

/-! The frames that `sendMsg` sends, in the grammar of the protocol: as many as the message needs, one
at least, of which the first has the opcode of the message and the last its end. Its result is that
many bytes as an `int`, and so another number from two gigabytes on. -/

namespace LuPlatform.Websocket

open Bytes BaseFraming

namespace Frame

/-! ### One frame -/

theorem maskFrom_eq_mapIdx (key i : Nat) (payload : List UInt8) :
    maskFrom key i payload = payload.mapIdx fun j b => b ^^^ maskByte key (i + j) := by
  induction payload generalizing i with
  | nil => rfl
  | cons b payload ih =>
    rw [maskFrom, List.mapIdx_cons, ih]
    simp only [Nat.add_zero, Nat.add_assoc, Nat.add_comm 1]

theorem maskByte_eq_getD (key i : Nat) : maskByte key i = (toBigEndian 4 key).getD (i % 4) 0 := by
  have hlt : i % 4 < 4 := Nat.mod_lt i (by decide)
  unfold maskByte
  generalize i % 4 = k at hlt
  obtain rfl | rfl | rfl | rfl : k = 0 ∨ k = 1 ∨ k = 2 ∨ k = 3 := by omega
  · rfl
  · rfl
  · rfl
  · rfl

/-- `mask` is the masking of the protocol. -/
theorem unmask_eq (key : Nat) (payload : List UInt8) :
    unmask (toBigEndian 4 key) payload = maskPayload key payload := by
  rw [maskPayload, maskFrom_eq_mapIdx, unmask]
  simp only [Nat.zero_add, maskByte_eq_getD]

theorem firstByte_grammar (opCode : OpCode) (lastFrame : Bool) :
    firstByte opCode lastFrame &&& 0x70 = 0 ∧ (firstByte opCode lastFrame &&& 0x80 != 0) = lastFrame ∧
      (firstByte opCode lastFrame &&& 0x0F).toNat = opCode.value := by
  cases opCode <;> cases lastFrame <;> decide

theorem secondByte_masked (masked : Bool) {length : Nat} (h : length ≤ 127) :
    secondByte masked length &&& 0x80 = 0 ↔ masked = false := by
  have hflag := (secondByte_bits masked h).1
  rw [← UInt8.toNat_inj, hflag]
  cases masked <;> decide

theorem payloadLength_extended {n : Nat} (hword : n < 2 ^ 63) (rest : List UInt8) :
    payloadLength (lengthCode n) (extendedLength n ++ rest) = some (n, rest) := by
  by_cases hshort : n ≤ 125
  · obtain ⟨hcode, hextended⟩ := lengthCode_short hshort
    rw [hcode, hextended, payloadLength, if_neg (by omega), if_neg (by omega), List.nil_append]
  · by_cases hmedium : n ≤ 0xFFFF
    · obtain ⟨hcode, hextended⟩ := lengthCode_medium hshort hmedium
      have hvalue : ofBigEndian (toBigEndian 2 n) = n := by
        rw [ofBigEndian_toBigEndian, Nat.mod_eq_of_lt (by omega)]
      rw [hcode, hextended, payloadLength, if_pos rfl, takeExactly_append (length_toBigEndian 2 n),
        Option.bind_some]
      simp only [hvalue]
      exact if_pos (by omega)
    · obtain ⟨hcode, hextended⟩ := lengthCode_long hmedium
      have hvalue : ofBigEndian (toBigEndian 8 n) = n := by
        rw [ofBigEndian_toBigEndian, Nat.mod_eq_of_lt (by omega)]
      rw [hcode, hextended, payloadLength, if_neg (by omega), if_pos rfl,
        takeExactly_append (length_toBigEndian 8 n), Option.bind_some]
      simp only [hvalue]
      exact if_pos (by omega)

/-- What the grammar makes of a frame as `sendMsg` writes it. -/
theorem parseFrame_sentFrame (opCode : OpCode) (maskingKey : Option Nat) (lastFrame : Bool)
    {payload : List UInt8} (hword : payload.length < 2 ^ 63) (rest : List UInt8) :
    parseFrame (sentFrame opCode maskingKey lastFrame payload ++ rest) =
      some (⟨lastFrame, opCode.value, maskingKey.map (toBigEndian 4), payload⟩, rest) := by
  obtain ⟨hreserved, hfin, hopcode⟩ := firstByte_grammar opCode lastFrame
  have hlow := (secondByte_bits maskingKey.isSome (lengthCode_le payload.length)).2
  have hmasked := secondByte_masked maskingKey.isSome (lengthCode_le payload.length)
  have hlength := fun more => payloadLength_extended hword more
  rw [sentFrame, wireHeader, List.append_assoc, List.append_assoc, List.cons_append, List.cons_append,
    parseFrame, if_pos hreserved, hlow, hlength, hfin, hopcode]
  cases maskingKey with
  | none =>
    have hunmasked : secondByte false (lengthCode payload.length) &&& 0x80 = 0 := hmasked.mpr rfl
    simp only [Option.isSome_none, Option.bind_eq_bind, Option.bind_some, if_pos hunmasked,
      Option.elim_none, List.nil_append, Option.getD_none, maskPayload_zero, takeExactly_append]
    rfl
  | some key =>
    have hkey : ¬ secondByte true (lengthCode payload.length) &&& 0x80 = 0 := fun h =>
      Bool.noConfusion (hmasked.mp h)
    have hpayload : (maskPayload key payload).length = payload.length := length_maskPayload key payload
    simp only [Option.isSome_some, Option.bind_eq_bind, Option.bind_some, if_neg hkey,
      Option.elim_some, Option.getD_some, takeExactly_append (length_toBigEndian 4 key),
      Option.map_some, takeExactly_append hpayload]
    rw [unmask_eq, maskPayload_maskPayload]
    rfl

/-! ### The number of frames -/

theorem ceil_div_eq {M : Nat} (hpos : 1 ≤ M) (n : Nat) :
    (n + M - 1) / M = if n % M = 0 then n / M else n / M + 1 := by
  have hdiv := Nat.div_add_mod n M
  have hmod := Nat.mod_lt n hpos
  split
  · rename_i hzero
    have hsum : n + M - 1 = (M - 1) + n / M * M := by
      rw [Nat.mul_comm (n / M)]
      omega
    rw [hsum, Nat.add_mul_div_right _ _ hpos, Nat.div_eq_of_lt (by omega), Nat.zero_add]
  · have hsum : n + M - 1 = (n % M - 1) + (n / M + 1) * M := by
      rw [Nat.add_mul, Nat.mul_comm (n / M)]
      omega
    rw [hsum, Nat.add_mul_div_right _ _ hpos, Nat.div_eq_of_lt (by omega), Nat.zero_add]

theorem ofNat_ne_zero {k : Nat} (hpos : k ≠ 0) (h : k < 2 ^ 31) :
    ¬ (BitVec.ofNat 32 k == 0) = true := by
  intro hzero
  have htoNat := congrArg BitVec.toNat (beq_iff_eq.mp hzero)
  rw [BitVec.toNat_ofNat, Nat.mod_eq_of_lt (by omega)] at htoNat
  exact hpos htoNat

theorem numFrames_eq {M n : Nat} (hpos : 1 ≤ M) (hn : n < 2 ^ 31) :
    (numFrames M n).toInt = (max 1 ((n + M - 1) / M) : Nat) := by
  have hdiv : n / M ≤ n := Nat.div_le_self n M
  rw [ceil_div_eq hpos, numFrames]
  by_cases hzero : n % M = 0
  · have hcount : ¬ (n % M != 0) = true := by simp [hzero]
    simp only [if_neg hcount, if_pos hzero]
    generalize n / M = q at hdiv
    by_cases hempty : q = 0
    · rw [hempty]
      decide
    · rw [if_neg (ofNat_ne_zero hempty (by omega)), Counters.toInt_ofNat (by decide) (by omega),
        Nat.max_eq_right (by omega)]
  · have hcount : (n % M != 0) = true := by simpa using hzero
    -- one more frame is needed only if a frame holds two bytes or more
    have hlt : n / M + 1 < 2 ^ 31 := by
      by_cases hone : M = 1
      · subst hone
        simp [Nat.mod_one] at hzero
      · have hhalf : n / M ≤ n / 2 := Nat.div_le_div_left (by omega) (by decide)
        omega
    have hadd : BitVec.ofNat 32 (n / M) + 1 = BitVec.ofNat 32 (n / M + 1) := by
      rw [BitVec.ofNat_add]
      rfl
    simp only [if_pos hcount, if_neg hzero, hadd]
    generalize n / M = q at hlt
    rw [if_neg (ofNat_ne_zero (by omega) hlt), Counters.toInt_ofNat (by decide) hlt, Nat.max_eq_right (by omega)]

/-! ### The message -/

/-- The frames of a message, as a fragmented message has to be sent. -/
structure WellFragmented (MaxMessageSize : Nat) (firstOpCode : OpCode) (buffer : List UInt8)
    (frames : List BaseFrame) : Prop where
  count : frames.length = max 1 ((buffer.length + MaxMessageSize - 1) / MaxMessageSize)
  opcode : ∀ i frame, frames[i]? = some frame →
    frame.opcode = if i = 0 then firstOpCode.value else OpCode.continuation.value
  fin : ∀ i frame, frames[i]? = some frame → frame.fin = (i + 1 == frames.length)
  size : ∀ frame ∈ frames, frame.payload.length ≤ MaxMessageSize
  payload : (frames.map BaseFrame.payload).flatten = buffer

/-- The result of `sendMsg`: the position, as an `int`. -/
def Sending.returned (s : Sending) : Int := (BitVec.ofNat 32 s.currentPosition).toInt

section Message

variable (MaxMessageSize : Nat) (firstOpCode : OpCode) (mask : Bool) (generateRandomUint32 : Nat → Nat)
variable (buffer : List UInt8)

/-- The frame of the `i`-th round, in the grammar. -/
def baseFrame (rounds i : Nat) : BaseFrame where
  fin := i + 1 == rounds
  opcode := if i = 0 then firstOpCode.value else OpCode.continuation.value
  maskingKey := (sentKey mask (generateRandomUint32 i)).map (toBigEndian 4)
  payload := fragment MaxMessageSize buffer i

theorem parseFrame_fragmentFrame (hmax : MaxMessageSize < 2 ^ 31) {count : BitVec 32} {rounds : Nat}
    (hcount : count.toInt = rounds) (i : Nat) (rest : List UInt8) :
    parseFrame (fragmentFrame MaxMessageSize firstOpCode mask generateRandomUint32 count buffer i ++ rest)
      = some (baseFrame MaxMessageSize firstOpCode mask generateRandomUint32 buffer rounds i, rest) := by
  have hlength : (fragment MaxMessageSize buffer i).length ≤ MaxMessageSize := by
    rw [fragment, List.length_take]
    omega
  have hlast : ((i : Int) == count.toInt - 1) = (i + 1 == rounds) := by
    rw [hcount, Bool.eq_iff_iff, beq_iff_eq, beq_iff_eq]
    omega
  rw [fragmentFrame, parseFrame_sentFrame _ _ _ (by omega), hlast, baseFrame]
  split <;> rfl

/-- Below two gigabytes the message is well fragmented, and all of it is counted. -/
theorem sendMsg_wellFragmented (hpos : 1 ≤ MaxMessageSize) (hmax : MaxMessageSize < 2 ^ 31)
    (hn : buffer.length < 2 ^ 31) :
    let s := sendMsg MaxMessageSize firstOpCode mask generateRandomUint32 buffer
    (∃ frames, Parses s.frames.flatten frames ∧
      WellFragmented MaxMessageSize firstOpCode buffer frames) ∧ s.returned = buffer.length := by
  set rounds := max 1 ((buffer.length + MaxMessageSize - 1) / MaxMessageSize) with hrounds
  have hcount : (numFrames MaxMessageSize buffer.length).toInt = rounds := numFrames_eq hpos hn
  have hsent : sendMsg MaxMessageSize firstOpCode mask generateRandomUint32 buffer =
      sendRounds MaxMessageSize firstOpCode mask generateRandomUint32
        (numFrames MaxMessageSize buffer.length) buffer rounds := by
    rw [sendRounds, ← Int.toNat_natCast rounds, ← hcount]
    rfl
  -- the pieces cover the message
  have hcover : buffer.length ≤ rounds * MaxMessageSize := by
    have hceil := ceil_div_eq hpos buffer.length
    have hdiv := Nat.div_add_mod buffer.length MaxMessageSize
    have hmod := Nat.mod_lt buffer.length hpos
    have hle : (buffer.length + MaxMessageSize - 1) / MaxMessageSize * MaxMessageSize ≤
        rounds * MaxMessageSize := Nat.mul_le_mul_right _ (Nat.le_max_right _ _)
    rw [hceil] at hle
    split at hle
    · rw [Nat.mul_comm] at hle
      omega
    · rw [Nat.add_mul, Nat.mul_comm (buffer.length / MaxMessageSize)] at hle
      omega
  intro s
  constructor
  · refine ⟨(List.range rounds).map
      (baseFrame MaxMessageSize firstOpCode mask generateRandomUint32 buffer rounds), ?_, ?_⟩
    · have hparses := parses_flatten ((List.range rounds).map fun i =>
        (fragmentFrame MaxMessageSize firstOpCode mask generateRandomUint32
          (numFrames MaxMessageSize buffer.length) buffer i,
          baseFrame MaxMessageSize firstOpCode mask generateRandomUint32 buffer rounds i)) ?_
      · rw [List.map_map, List.map_map] at hparses
        rw [show s = _ from hsent, sendRounds_frames _ _ _ _ _ _ hmax]
        exact hparses
      · intro frame hmem rest
        obtain ⟨i, _, rfl⟩ := List.mem_map.mp hmem
        exact parseFrame_fragmentFrame MaxMessageSize firstOpCode mask generateRandomUint32 buffer hmax
          hcount i rest
    · have hget : ∀ i frame, ((List.range rounds).map (baseFrame MaxMessageSize firstOpCode mask
          generateRandomUint32 buffer rounds))[i]? = some frame →
            frame = baseFrame MaxMessageSize firstOpCode mask generateRandomUint32 buffer rounds i := by
        intro i frame hframe
        rw [List.getElem?_map, Option.map_eq_some_iff] at hframe
        obtain ⟨j, hj, rfl⟩ := hframe
        rw [(List.getElem?_eq_some_iff.mp hj).2.symm, List.getElem_range]
      refine ⟨by simp [hrounds], ?_, ?_, ?_, ?_⟩
      · intro i frame hframe
        rw [hget i frame hframe, baseFrame]
      · intro i frame hframe
        rw [hget i frame hframe, List.length_map, List.length_range, baseFrame]
      · intro frame hmem
        obtain ⟨i, _, rfl⟩ := List.mem_map.mp hmem
        rw [baseFrame, fragment, List.length_take]
        omega
      · rw [List.map_map]
        exact (flatten_fragments MaxMessageSize buffer rounds).trans (List.take_of_length_le hcover)
  · have hposition := (sendRounds_fragmented MaxMessageSize firstOpCode mask generateRandomUint32
      (numFrames MaxMessageSize buffer.length) buffer rounds).position
    rw [Sending.returned, show s = _ from hsent, hposition, Nat.min_eq_right hcover,
      Counters.toInt_ofNat (by decide) hn]

/-- A message is sent as its frames and counted in full exactly when it has fewer than two gigabytes. -/
theorem sendMsg_fragments_iff (hpos : 1 ≤ MaxMessageSize) (hmax : MaxMessageSize < 2 ^ 31) :
    (∃ frames, Parses (sendMsg MaxMessageSize firstOpCode mask generateRandomUint32
        buffer).frames.flatten frames ∧ WellFragmented MaxMessageSize firstOpCode buffer frames) ∧
      (sendMsg MaxMessageSize firstOpCode mask generateRandomUint32 buffer).returned = buffer.length ↔
        buffer.length < 2 ^ 31 := by
  constructor
  · intro ⟨_, hreturned⟩
    have hlt : (sendMsg MaxMessageSize firstOpCode mask generateRandomUint32 buffer).returned < 2 ^ 31 :=
      BitVec.toInt_lt
    omega
  · exact sendMsg_wellFragmented MaxMessageSize firstOpCode mask generateRandomUint32 buffer hpos hmax

end Message

/-- Three bytes in frames of two, with keys. -/
theorem sendMsg_fragments_iff_three :
    (∃ frames, Parses (sendMsg 2 .binary true (fun i => i + 1) [7, 8, 9]).frames.flatten frames ∧
        WellFragmented 2 .binary [7, 8, 9] frames) ∧
      (sendMsg 2 .binary true (fun i => i + 1) [7, 8, 9]).returned = ([7, 8, 9] : List UInt8).length ↔
        ([7, 8, 9] : List UInt8).length < 2 ^ 31 :=
  sendMsg_fragments_iff 2 .binary true (fun i => i + 1) [7, 8, 9] (by decide) (by decide)

/-- Two gigabytes in frames of a megabyte. -/
theorem sendMsg_returned_overflow :
    (sendMsg (2 ^ 20) .binary false (fun _ => 0) (List.replicate (2 ^ 31) 0)).returned ≠
      (List.replicate (2 ^ 31) (0 : UInt8)).length := by
  intro h
  have hlt : (sendMsg (2 ^ 20) .binary false (fun _ => 0) (List.replicate (2 ^ 31) 0)).returned < 2 ^ 31 :=
    BitVec.toInt_lt
  rw [h, List.length_replicate] at hlt
  exact absurd hlt (by decide)

end Frame

end LuPlatform.Websocket
