import LuPlatform.Websocket.FrameRoundTrip

/-! `sendMsg` from one end to the other. Its rounds walk through the payload `MaxMessageSize` bytes at
a time; each of them sends its piece as a frame of its own and leaves it in the caller's buffer as it
was sent. So a client, which masks, gets its message back changed unless no key byte that met a byte
of it was other than zero. -/

namespace LuPlatform.Websocket

open Bytes

namespace Frame

/-- The piece that the `i`-th round sends. -/
def fragment (MaxMessageSize : Nat) (payload : List UInt8) (i : Nat) : List UInt8 :=
  (payload.drop (i * MaxMessageSize)).take MaxMessageSize

theorem flatten_fragments (MaxMessageSize : Nat) (payload : List UInt8) (rounds : Nat) :
    ((List.range rounds).map (fragment MaxMessageSize payload)).flatten =
      payload.take (rounds * MaxMessageSize) := by
  induction rounds with
  | zero => simp
  | succ rounds ih =>
    rw [List.range_succ, List.map_append, List.flatten_append, ih, Nat.succ_mul, List.take_add]
    simp [fragment]

section Rounds

variable (MaxMessageSize : Nat) (firstOpCode : OpCode) (mask : Bool) (generateRandomUint32 : Nat → Nat)
variable (numFrames : BitVec 32) (payload : List UInt8)

/-- What the `i`-th round leaves of its piece. -/
def maskedFragment (i : Nat) : List UInt8 :=
  maskPayload (if mask then generateRandomUint32 i else 0) (fragment MaxMessageSize payload i)

/-- The frame that the `i`-th round sends. -/
def fragmentFrame (i : Nat) : List UInt8 :=
  sentFrame (if i = 0 then firstOpCode else .continuation) (sentKey mask (generateRandomUint32 i))
    ((i : Int) == numFrames.toInt - 1) (fragment MaxMessageSize payload i)

/-- The loop after a number of rounds. -/
def sendRounds (rounds : Nat) : Sending :=
  (List.range rounds).foldl (sendFrame MaxMessageSize firstOpCode mask generateRandomUint32 numFrames)
    ⟨payload, 0, payload.length, []⟩

/-- What the rounds have done: the pieces up to the position are masked, the rest is as it was. -/
structure Fragmented (rounds : Nat) (s : Sending) : Prop where
  position : s.currentPosition = min (rounds * MaxMessageSize) payload.length
  left : s.bytesLeft = payload.length - min (rounds * MaxMessageSize) payload.length
  buffer : s.buffer = ((List.range rounds).map
    (maskedFragment MaxMessageSize mask generateRandomUint32 payload)).flatten ++
      payload.drop (rounds * MaxMessageSize)

theorem length_maskedFragments (rounds : Nat) : ((List.range rounds).map
    (maskedFragment MaxMessageSize mask generateRandomUint32 payload)).flatten.length =
      min (rounds * MaxMessageSize) payload.length := by
  have hlengths : (List.range rounds).map (fun i =>
      (maskedFragment MaxMessageSize mask generateRandomUint32 payload i).length) =
        (List.range rounds).map fun i => (fragment MaxMessageSize payload i).length :=
    List.map_congr_left fun i _ => length_maskPayload _ _
  have hflatten := congrArg List.length (flatten_fragments MaxMessageSize payload rounds)
  rw [List.length_flatten, List.map_map, List.length_take] at hflatten
  rw [List.length_flatten, List.map_map]
  exact (congrArg List.sum hlengths).trans hflatten

variable {MaxMessageSize mask generateRandomUint32 numFrames payload}
variable {s : Sending} {rounds : Nat}

/-- The piece in front of the position is the next one of the payload. -/
theorem Fragmented.next (h : Fragmented MaxMessageSize mask generateRandomUint32 payload rounds s) :
    (s.buffer.drop s.currentPosition).take (min s.bytesLeft MaxMessageSize) =
      fragment MaxMessageSize payload rounds ∧
    (fragment MaxMessageSize payload rounds).length = min s.bytesLeft MaxMessageSize := by
  have hdrop : s.buffer.drop s.currentPosition = payload.drop (rounds * MaxMessageSize) := by
    rw [h.buffer, h.position, ← length_maskedFragments MaxMessageSize mask generateRandomUint32,
      List.drop_left]
  have hrest : (payload.drop (rounds * MaxMessageSize)).length = s.bytesLeft := by
    rw [List.length_drop, h.left]
    omega
  have hlength : (fragment MaxMessageSize payload rounds).length = min s.bytesLeft MaxMessageSize := by
    rw [fragment, List.length_take, hrest, Nat.min_comm]
  refine ⟨?_, hlength⟩
  rw [hdrop, fragment, List.take_eq_take_iff, hrest]
  omega

/-- One round: the next piece is masked in place. -/
theorem Fragmented.round (h : Fragmented MaxMessageSize mask generateRandomUint32 payload rounds s) :
    Fragmented MaxMessageSize mask generateRandomUint32 payload (rounds + 1)
      (sendFrame MaxMessageSize firstOpCode mask generateRandomUint32 numFrames s rounds) := by
  obtain ⟨hnext, hlength⟩ := h.next
  have hposition := h.position
  have hleft := h.left
  have hrounds : (rounds + 1) * MaxMessageSize = rounds * MaxMessageSize + MaxMessageSize :=
    Nat.succ_mul _ _
  refine ⟨?_, ?_, ?_⟩
  · simp only [sendFrame]
    omega
  · simp only [sendFrame]
    omega
  · have hmasked : (if mask then maskPayload (if mask then generateRandomUint32 rounds else 0)
        (fragment MaxMessageSize payload rounds) else fragment MaxMessageSize payload rounds) =
          maskedFragment MaxMessageSize mask generateRandomUint32 payload rounds := by
      cases mask <;> simp [maskedFragment]
    have hfront : s.buffer.take s.currentPosition = ((List.range rounds).map
        (maskedFragment MaxMessageSize mask generateRandomUint32 payload)).flatten := by
      rw [h.buffer, hposition, ← length_maskedFragments MaxMessageSize mask generateRandomUint32,
        List.take_left]
    have hback : s.buffer.drop (s.currentPosition + min s.bytesLeft MaxMessageSize) =
        payload.drop ((rounds + 1) * MaxMessageSize) := by
      have hdrop : s.buffer.drop s.currentPosition = payload.drop (rounds * MaxMessageSize) := by
        rw [h.buffer, hposition, ← length_maskedFragments MaxMessageSize mask generateRandomUint32,
          List.drop_left]
      rw [← List.drop_drop, hdrop, List.drop_drop, List.drop_eq_drop_iff, hrounds]
      omega
    simp only [sendFrame]
    rw [hnext, hmasked, hfront, hback, List.range_succ, List.map_append, List.flatten_append]
    simp

variable (MaxMessageSize mask generateRandomUint32 numFrames payload)

theorem sendRounds_succ (rounds : Nat) :
    sendRounds MaxMessageSize firstOpCode mask generateRandomUint32 numFrames payload (rounds + 1) =
      sendFrame MaxMessageSize firstOpCode mask generateRandomUint32 numFrames
        (sendRounds MaxMessageSize firstOpCode mask generateRandomUint32 numFrames payload rounds)
        rounds := by
  rw [sendRounds, List.range_succ, List.foldl_append]
  rfl

theorem sendRounds_fragmented (rounds : Nat) :
    Fragmented MaxMessageSize mask generateRandomUint32 payload rounds
      (sendRounds MaxMessageSize firstOpCode mask generateRandomUint32 numFrames payload rounds) := by
  induction rounds with
  | zero =>
    refine ⟨by simp [sendRounds], by simp [sendRounds], by simp [sendRounds]⟩
  | succ rounds ih =>
    rw [sendRounds_succ]
    exact ih.round firstOpCode

/-- The frames that were sent are those of the pieces. -/
theorem sendRounds_frames (hmax : MaxMessageSize < 2 ^ 31) (rounds : Nat) :
    (sendRounds MaxMessageSize firstOpCode mask generateRandomUint32 numFrames payload rounds).frames =
      (List.range rounds).map (fragmentFrame MaxMessageSize firstOpCode mask generateRandomUint32
        numFrames payload) := by
  induction rounds with
  | zero => rfl
  | succ rounds ih =>
    obtain ⟨hnext, hlength⟩ := (sendRounds_fragmented MaxMessageSize firstOpCode mask
      generateRandomUint32 numFrames payload rounds).next
    rw [sendRounds_succ, sendFrame_frames numFrames _ rounds hmax hnext hlength, ih, List.range_succ,
      List.map_append]
    rfl

end Rounds

/-! ### The caller's buffer -/

/-- A key leaves a payload alone where all of its bytes that are used are zero. -/
theorem maskFrom_eq_self {key i : Nat} {payload : List UInt8} :
    maskFrom key i payload = payload ↔ ∀ j < payload.length, maskByte key (i + j) = 0 := by
  induction payload generalizing i with
  | nil => simp [maskFrom]
  | cons b payload ih =>
    have hbyte : b ^^^ maskByte key i = b ↔ maskByte key i = 0 := by
      constructor
      · intro h
        have hxor := congrArg (b ^^^ ·) h
        simpa [← UInt8.xor_assoc] using hxor
      · intro h
        rw [h, UInt8.xor_zero]
    rw [maskFrom, List.cons.injEq, hbyte, ih]
    constructor
    · rintro ⟨hfirst, hrest⟩ j hj
      cases j with
      | zero => exact hfirst
      | succ j =>
        have hj' := hrest j (by simpa using hj)
        rwa [Nat.add_right_comm, Nat.add_assoc] at hj'
    · intro h
      refine ⟨h 0 (by simp), fun j hj => ?_⟩
      have hj' := h (j + 1) (by simpa using hj)
      rwa [← Nat.add_assoc, Nat.add_right_comm] at hj'

theorem flatten_map_eq {β : Type} {f g : Nat → List β} (hlength : ∀ i, (f i).length = (g i).length)
    (rounds : Nat) : ((List.range rounds).map f).flatten = ((List.range rounds).map g).flatten ↔
      ∀ i < rounds, f i = g i := by
  induction rounds with
  | zero => simp
  | succ rounds ih =>
    have hlast : ((List.range (rounds + 1)).map f).flatten =
        ((List.range (rounds + 1)).map g).flatten ↔
          ((List.range rounds).map f).flatten = ((List.range rounds).map g).flatten ∧
            f rounds = g rounds := by
      rw [List.range_succ, List.map_append, List.flatten_append, List.map_append, List.flatten_append]
      simp only [List.map_cons, List.map_nil, List.flatten_cons, List.flatten_nil, List.append_nil]
      constructor
      · exact fun h => List.append_inj' h (hlength rounds)
      · intro ⟨hfront, hback⟩
        rw [hfront, hback]
    rw [hlast, ih]
    constructor
    · intro ⟨hfront, hback⟩ i hi
      by_cases heq : i = rounds
      · rw [heq]
        exact hback
      · exact hfront i (by omega)
    · exact fun h => ⟨fun i hi => h i (by omega), h rounds (by omega)⟩

/-- After `sendMsg` the caller's buffer is what it was exactly when nothing was masked, or every byte
of a key that met a byte of the message is zero. -/
theorem sendMsg_buffer_iff (MaxMessageSize : Nat) (firstOpCode : OpCode) (mask : Bool)
    (generateRandomUint32 : Nat → Nat) (buffer : List UInt8) :
    (sendMsg MaxMessageSize firstOpCode mask generateRandomUint32 buffer).buffer = buffer ↔
      mask = false ∨ ∀ i < (numFrames MaxMessageSize buffer.length).toInt.toNat,
        ∀ j < (fragment MaxMessageSize buffer i).length, maskByte (generateRandomUint32 i) j = 0 := by
  set rounds := (numFrames MaxMessageSize buffer.length).toInt.toNat with hrounds
  have hbuffer := (sendRounds_fragmented MaxMessageSize firstOpCode mask generateRandomUint32
    (numFrames MaxMessageSize buffer.length) buffer rounds).buffer
  have hsent : sendMsg MaxMessageSize firstOpCode mask generateRandomUint32 buffer =
      sendRounds MaxMessageSize firstOpCode mask generateRandomUint32
        (numFrames MaxMessageSize buffer.length) buffer rounds := rfl
  have hsplit : ((List.range rounds).map (fragment MaxMessageSize buffer)).flatten ++
      buffer.drop (rounds * MaxMessageSize) = buffer := by
    rw [flatten_fragments, List.take_append_drop]
  rw [hsent, hbuffer]
  conv => lhs; rhs; rw [← hsplit]
  have hlength : ∀ i, (maskedFragment MaxMessageSize mask generateRandomUint32 buffer i).length =
      (fragment MaxMessageSize buffer i).length := fun i => length_maskPayload _ _
  rw [List.append_left_inj, flatten_map_eq hlength]
  cases mask with
  | false => simp [maskedFragment]
  | true =>
    simp only [Bool.true_eq_false, false_or]
    refine forall_congr' fun i => forall_congr' fun _ => ?_
    rw [maskedFragment, if_pos rfl, maskPayload, maskFrom_eq_self]
    simp only [Nat.zero_add]

/-- A client that sends the same buffer twice sends something else the second time. -/
theorem sendMsg_changes_buffer :
    let once := sendMsg 125 .text true (fun _ => 0x37fa213d) (ascii "Hello")
    let twice := sendMsg 125 .text true (fun _ => 0x37fa213d) once.buffer
    once.buffer ≠ ascii "Hello" ∧ twice.frames ≠ once.frames := by
  decide

end Frame

end LuPlatform.Websocket
