import LuPlatform.Websocket.Frame

/-! The sending side: the header of a frame, and `sendMsg`, which cuts a payload into frames of at
most `MaxMessageSize` bytes and masks it in the caller's buffer. The number of frames is an `int`,
so it is kept as a 32-bit word. -/

namespace LuPlatform.Websocket

open Crypto (DataWrap)
open Bytes

namespace Frame

/-- A zero key means that the frame is not masked. -/
def getFrameHeader (opCode : OpCode) (payloadLength maskingKey : Nat) (lastFrame : Bool) :
    DataWrap :=
  let header := DataWrap.new 14
  if payloadLength ≤ 0x7FFFFFFFFFFFFFFF then
    let byte := UInt8.ofNat ((opCode.value &&& 0x0F) ||| if lastFrame then 0x80 else 0x00)
    let header := (header.append [byte]).1
    let byte : UInt8 := if maskingKey != 0 then 0x80 else 0x00
    let header :=
      if payloadLength ≤ 125 then
        (header.append [byte ||| UInt8.ofNat payloadLength]).1
      else if payloadLength ≤ 0xFFFF then
        ((header.append [byte ||| 126]).1.append (toBigEndian 2 payloadLength)).1
      else
        ((header.append [byte ||| 127]).1.append (toBigEndian 8 payloadLength)).1
    if maskingKey != 0 then (header.append (toBigEndian 4 maskingKey)).1 else header
  else
    header

structure Sending where
  buffer : List UInt8
  currentPosition : Nat
  bytesLeft : Nat
  /-- What each round handed to the socket, header and payload. -/
  frames : List (List UInt8)
  deriving DecidableEq, Repr

section SendMsg

variable (MaxMessageSize : Nat) (firstOpCode : OpCode) (mask : Bool) (generateRandomUint32 : Nat → Nat)

/-- The `i`-th round of the loop; its random number is the `i`-th one drawn. -/
def sendFrame (numFrames : BitVec 32) (s : Sending) (i : Nat) : Sending :=
  let maskingKey := if mask then generateRandomUint32 i else 0
  let isLastFrame := (i : Int) == numFrames.toInt - 1
  let size := min s.bytesLeft MaxMessageSize
  let opcode := if i = 0 then firstOpCode else .continuation
  let header := (getFrameHeader opcode size maskingKey isLastFrame).contents
  let currentData := (s.buffer.drop s.currentPosition).take size
  let currentData := if mask then maskPayload maskingKey currentData else currentData
  { buffer := s.buffer.take s.currentPosition ++ currentData ++
      s.buffer.drop (s.currentPosition + size)
    currentPosition := s.currentPosition + size
    bytesLeft := s.bytesLeft - size
    frames := s.frames ++ [header ++ if size > 0 then currentData else []] }

def numFrames (size : Nat) : BitVec 32 :=
  let numFrames := BitVec.ofNat 32 (size / MaxMessageSize)
  let numFrames := if size % MaxMessageSize != 0 then numFrames + 1 else numFrames
  if numFrames == 0 then 1 else numFrames

/-- The `for` loop runs while `i < numFrames` as signed numbers. -/
def sendMsg (buffer : List UInt8) : Sending :=
  let numFrames := numFrames MaxMessageSize buffer.length
  (List.range numFrames.toInt.toNat).foldl
    (sendFrame MaxMessageSize firstOpCode mask generateRandomUint32 numFrames)
    ⟨buffer, 0, buffer.length, []⟩

end SendMsg

/-! ### The header as it goes over the wire -/

def firstByte (opCode : OpCode) (lastFrame : Bool) : UInt8 :=
  UInt8.ofNat ((opCode.value &&& 0x0F) ||| if lastFrame then 0x80 else 0x00)

/-- The mask bit and a seven bit length. -/
def secondByte (masked : Bool) (length : Nat) : UInt8 :=
  (if masked then 0x80 else 0x00) ||| UInt8.ofNat length

def lengthCode (payloadLength : Nat) : Nat :=
  if payloadLength ≤ 125 then payloadLength else if payloadLength ≤ 0xFFFF then 126 else 127

def extendedLength (payloadLength : Nat) : List UInt8 :=
  if payloadLength ≤ 125 then []
  else if payloadLength ≤ 0xFFFF then toBigEndian 2 payloadLength
  else toBigEndian 8 payloadLength

theorem lengthCode_short {n : Nat} (h : n ≤ 125) : lengthCode n = n ∧ extendedLength n = [] :=
  ⟨if_pos h, if_pos h⟩

theorem lengthCode_medium {n : Nat} (h : ¬ n ≤ 125) (h' : n ≤ 0xFFFF) :
    lengthCode n = 126 ∧ extendedLength n = toBigEndian 2 n :=
  ⟨(if_neg h).trans (if_pos h'), (if_neg h).trans (if_pos h')⟩

theorem lengthCode_long {n : Nat} (h : ¬ n ≤ 0xFFFF) :
    lengthCode n = 127 ∧ extendedLength n = toBigEndian 8 n :=
  ⟨(if_neg (by omega)).trans (if_neg h), (if_neg (by omega)).trans (if_neg h)⟩

/-- The header with the mask bit and its key apart, so that a frame masked with the zero key has one
as well. -/
def wireHeader (opCode : OpCode) (payloadLength : Nat) (maskingKey : Option Nat)
    (lastFrame : Bool) : List UInt8 :=
  firstByte opCode lastFrame :: secondByte maskingKey.isSome (lengthCode payloadLength) ::
    extendedLength payloadLength ++ maskingKey.elim [] (toBigEndian 4)

theorem getFrameHeader_contents {opCode : OpCode} {payloadLength maskingKey : Nat}
    {lastFrame : Bool} (h : payloadLength ≤ 0x7FFFFFFFFFFFFFFF) :
    (getFrameHeader opCode payloadLength maskingKey lastFrame).contents =
      wireHeader opCode payloadLength (if maskingKey = 0 then none else some maskingKey)
        lastFrame := by
  -- twelve bytes at most come before the key
  have hkey : ∀ (w : DataWrap) (bytes : List UInt8), w.Holds 14 bytes → bytes.length ≤ 10 →
      (if maskingKey != 0 then (w.append (toBigEndian 4 maskingKey)).1 else w).contents =
        bytes ++ (if maskingKey = 0 then none else some maskingKey).elim [] (toBigEndian 4) := by
    intro w bytes hw hlength
    by_cases hzero : maskingKey = 0
    · simpa [hzero] using hw.contents_eq
    · have happend : (w.append (toBigEndian 4 maskingKey)).1.Holds 14
          (bytes ++ toBigEndian 4 maskingKey) := hw.append (by rw [length_toBigEndian]; omega)
      simpa [hzero] using happend.contents_eq
  have hmask : (if maskingKey != 0 then (0x80 : UInt8) else 0x00) =
      if (if maskingKey = 0 then none else some maskingKey).isSome then 0x80 else 0x00 := by
    by_cases hzero : maskingKey = 0 <;> simp [hzero]
  have hfirst : ((DataWrap.new 14).append [firstByte opCode lastFrame]).1.Holds 14
      [firstByte opCode lastFrame] := (DataWrap.new_holds 14).append (by simp)
  unfold getFrameHeader wireHeader extendedLength lengthCode secondByte
  rw [if_pos h, ← firstByte, hmask]
  by_cases hshort : payloadLength ≤ 125
  · simp only [if_pos hshort]
    refine (hkey _ _ (hfirst.append (by simp)) (by simp)).trans (by simp)
  · by_cases hmedium : payloadLength ≤ 0xFFFF
    · simp only [if_neg hshort, if_pos hmedium]
      refine (hkey _ _ ((hfirst.append (by simp)).append (by simp)) (by simp)).trans (by simp)
    · simp only [if_neg hshort, if_neg hmedium]
      refine (hkey _ _ ((hfirst.append (by simp)).append (by simp)) (by simp)).trans (by simp)

end Frame

end LuPlatform.Websocket
