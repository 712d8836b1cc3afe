import LuPlatform.Crypto.DataWrap
import LuPlatform.Library.Bytes
import LuPlatform.Library.Loop

/-! The frame reader of the WebSocket layer: the object a socket keeps for the frame it is in the
middle of, and `readFrame`, which advances it over the received bytes until the frame is done or
more bytes are needed. Lengths and the masking key are 32-bit in the source; they are natural
numbers here and every assignment below keeps them under `2 ^ 32`. -/

namespace LuPlatform.Websocket

open Crypto (DataWrap)
open Bytes Loop

/-- The received bytes a call works on. The payload of a masked frame is unmasked in place. -/
structure SocketData where
  data : List UInt8
  readOffset : Nat
  deriving DecidableEq, Repr

namespace SocketData

def new (data : List UInt8) : SocketData := ⟨data, 0⟩

def getDataLeftToRead (d : SocketData) : Nat := d.data.length - d.readOffset

/-- `data + readOffset`. -/
def unread (d : SocketData) : List UInt8 := d.data.drop d.readOffset

def skip (d : SocketData) (n : Nat) : SocketData := { d with readOffset := d.readOffset + n }

/-- Overwrites the bytes from the read offset on. -/
def overwrite (d : SocketData) (bytes : List UInt8) : SocketData :=
  { d with data :=
      d.data.take d.readOffset ++ bytes ++ d.data.drop (d.readOffset + bytes.length) }

@[simp] theorem length_unread (d : SocketData) : d.unread.length = d.getDataLeftToRead := by
  simp [unread, getDataLeftToRead]

@[simp] theorem unread_new (data : List UInt8) : (new data).unread = data := by
  simp [new, unread]

@[simp] theorem getDataLeftToRead_new (data : List UInt8) :
    (new data).getDataLeftToRead = data.length := rfl

@[simp] theorem unread_skip (d : SocketData) (n : Nat) : (d.skip n).unread = d.unread.drop n := by
  simp [skip, unread, List.drop_drop]

theorem unread_overwrite (d : SocketData) (bytes : List UInt8)
    (h : bytes.length ≤ d.getDataLeftToRead) :
    (d.overwrite bytes).unread = bytes ++ d.unread.drop bytes.length := by
  by_cases hle : d.readOffset ≤ d.data.length
  · have htake : (d.data.take d.readOffset).length = d.readOffset := by simpa using hle
    simp only [overwrite, unread, List.append_assoc]
    rw [List.drop_left' htake, List.drop_drop]
  · have hzero : bytes = [] := by
      rw [← List.length_eq_zero_iff]
      unfold getDataLeftToRead at h
      omega
    simp [hzero, overwrite, unread]

theorem length_overwrite (d : SocketData) (bytes : List UInt8)
    (h : bytes.length ≤ d.getDataLeftToRead) :
    (d.overwrite bytes).data.length = d.data.length := by
  unfold getDataLeftToRead at h
  simp only [overwrite, List.length_append, List.length_take, List.length_drop]
  omega

end SocketData

inductive ProcessingState where
  | readHeader | readPayloadLength | readMask | readPayload | waitForData | done | error
  deriving DecidableEq, Repr

inductive OpCode where
  | continuation | text | binary | reserved3 | reserved4 | reserved5 | reserved6 | reserved7
  | close | ping | pong | reservedB | reservedC | reservedD | reservedE | reservedF
  deriving DecidableEq, Repr

def OpCode.value : OpCode → Nat
  | continuation => 0x0 | text => 0x1 | binary => 0x2 | reserved3 => 0x3
  | reserved4 => 0x4 | reserved5 => 0x5 | reserved6 => 0x6 | reserved7 => 0x7
  | close => 0x8 | ping => 0x9 | pong => 0xA | reservedB => 0xB
  | reservedC => 0xC | reservedD => 0xD | reservedE => 0xE | reservedF => 0xF

/-- The cast from the low half of the first header byte. -/
def OpCode.ofValue : Nat → OpCode
  | 0x0 => continuation | 0x1 => text | 0x2 => binary | 0x3 => reserved3
  | 0x4 => reserved4 | 0x5 => reserved5 | 0x6 => reserved6 | 0x7 => reserved7
  | 0x8 => close | 0x9 => ping | 0xA => pong | 0xB => reservedB
  | 0xC => reservedC | 0xD => reservedD | 0xE => reservedE | _ => reservedF

def isOpCodeReserved (code : OpCode) : Bool :=
  (code.value > OpCode.binary.value && code.value < OpCode.close.value) ||
    code.value > OpCode.pong.value

/-- The enumeration is cast from any 16-bit value, so it is a number with named members. -/
abbrev CloseCode := Nat

namespace CloseCode

def normal : CloseCode := 1000
def protocolError : CloseCode := 1002
def reserved1004 : CloseCode := 1004
def missingStatusCode : CloseCode := 1005
def abnormalDisconnection : CloseCode := 1006
def tooMuchData : CloseCode := 1009

end CloseCode

structure Frame where
  maxAllowedMessageSize : Nat
  processingState : ProcessingState := .readHeader
  isFinalFrame : Bool := true
  rsv1 : Bool := false
  rsv2 : Bool := false
  rsv3 : Bool := false
  isValid : Bool := false
  mask : Nat := 0
  length : Nat := 0
  opCode : OpCode := .reservedC
  closeCode : CloseCode := .normal
  closeReason : String := ""
  isFragmented : Bool := false
  message : DataWrap
  deriving DecidableEq, Repr

/-- One byte of the key, the first being the most significant one. -/
def maskByte (maskingKey i : Nat) : UInt8 :=
  UInt8.ofNat (maskingKey / 256 ^ (3 - i % 4))

/-- `Frame::mask`, the key applied from its `i`-th byte on. -/
def maskFrom (maskingKey : Nat) : (i : Nat) → List UInt8 → List UInt8
  | _, [] => []
  | i, b :: payload => (b ^^^ maskByte maskingKey i) :: maskFrom maskingKey (i + 1) payload

def maskPayload (maskingKey : Nat) (payload : List UInt8) : List UInt8 :=
  maskFrom maskingKey 0 payload

@[simp] theorem length_maskFrom (key i : Nat) (payload : List UInt8) :
    (maskFrom key i payload).length = payload.length := by
  induction payload generalizing i with
  | nil => rfl
  | cons b payload ih => simp [maskFrom, ih]

@[simp] theorem length_maskPayload (key : Nat) (payload : List UInt8) :
    (maskPayload key payload).length = payload.length :=
  length_maskFrom key 0 payload

theorem maskFrom_maskFrom (key i : Nat) (payload : List UInt8) :
    maskFrom key i (maskFrom key i payload) = payload := by
  induction payload generalizing i with
  | nil => rfl
  | cons b payload ih =>
    rw [maskFrom, maskFrom, ih, UInt8.xor_assoc, UInt8.xor_self, UInt8.xor_zero]

/-- Masking twice with one key gives the payload back. -/
@[simp] theorem maskPayload_maskPayload (key : Nat) (payload : List UInt8) :
    maskPayload key (maskPayload key payload) = payload :=
  maskFrom_maskFrom key 0 payload

theorem maskFrom_zero (i : Nat) (payload : List UInt8) : maskFrom 0 i payload = payload := by
  induction payload generalizing i with
  | nil => rfl
  | cons b payload ih => simp [maskFrom, maskByte, ih]

/-- The zero key masks nothing. -/
@[simp] theorem maskPayload_zero (payload : List UInt8) : maskPayload 0 payload = payload :=
  maskFrom_zero 0 payload

namespace Frame

/-- The constructor. -/
def new (maxAllowedMessageSize : Nat) : Frame where
  maxAllowedMessageSize
  message := DataWrap.new maxAllowedMessageSize

def isControlFrame (f : Frame) : Bool := f.opCode.value &&& 0x08 == 0x08
def isDataFrame (f : Frame) : Bool := !f.isControlFrame
def isContinuationFrame (f : Frame) : Bool := f.isDataFrame && f.opCode == .continuation
def hasMask (f : Frame) : Bool := f.mask != 0

def reset (f : Frame) : Frame :=
  { f with
    closeCode := .normal
    closeReason := ""
    isFinalFrame := true
    mask := 0
    rsv1 := false
    rsv2 := false
    rsv3 := false
    opCode := .reservedC
    isFragmented := false
    length := 0
    isValid := false
    processingState := .readHeader }

def setError (f : Frame) (code : CloseCode) (closeReason : String) : Frame :=
  { f.reset with closeCode := code, closeReason, isValid := false }

/-- The returned truth value of the source is the `isValid` of the result. -/
def checkValidity (f : Frame) : Frame :=
  if f.rsv1 || f.rsv2 || f.rsv3 then
    f.setError .protocolError "Rsv field is non-zero"
  else if isOpCodeReserved f.opCode then
    f.setError .protocolError "Used reserved opcode"
  else if f.isControlFrame then
    if f.length > 125 then
      f.setError .protocolError "Control frame is larger than 125 bytes"
    else if !f.isFinalFrame then
      f.setError .protocolError "Control frames cannot be fragmented"
    else
      { f with isValid := true }
  else
    { f with isValid := true }

/-- The state after the length: the payload comes next, behind the key if there is one. -/
def afterLength (f : Frame) : ProcessingState :=
  if f.hasMask then .readMask else .readPayload

/-- The two header bytes, taken apart. Until the key is read a non-zero `mask` marks its presence. -/
def withHeader (f : Frame) (b₀ b₁ : UInt8) : Frame :=
  { f with
    isFinalFrame := b₀ &&& 0x80 != 0
    rsv1 := b₀ &&& 0x40 != 0
    rsv2 := b₀ &&& 0x20 != 0
    rsv3 := b₀ &&& 0x10 != 0
    opCode := .ofValue (b₀ &&& 0x0F).toNat
    mask := (b₁ &&& 0x80).toNat
    length := (b₁ &&& 0x7F).toNat }

def readFrameHeader (f : Frame) (d : SocketData) : Frame × SocketData × ProcessingState :=
  match d.unread with
  | b₀ :: b₁ :: _ =>
    let f := (f.withHeader b₀ b₁).checkValidity
    if !f.isValid then
      (f, d.skip 2, .done)
    else if f.length = 126 || f.length = 127 then
      (f, d.skip 2, .readPayloadLength)
    else
      (f, d.skip 2, f.afterLength)
  | _ => (f, d, .waitForData)

def readFramePayloadLength (f : Frame) (d : SocketData) : Frame × SocketData × ProcessingState :=
  if f.length = 126 then
    if d.getDataLeftToRead ≥ 2 then
      let f := { f with length := ofBigEndian (d.unread.take 2) }
      if f.length < 126 then
        (f.setError .protocolError "Lengths smaller than 126 must be expressed as one byte.",
          d.skip 2, .done)
      else
        (f, d.skip 2, f.afterLength)
    else
      (f, d, .waitForData)
  else if f.length = 127 then
    if d.getDataLeftToRead ≥ 8 then
      let length := ofBigEndian (d.unread.take 8)
      let f := { f with length := length % 2 ^ 32 }
      if length > 2 ^ 32 - 1 || f.length &&& 0b1000000000000000 != 0 then
        (f.setError .protocolError "Highest bit of payload length is not 0.", d.skip 8, .done)
      else if f.length ≤ 0xFFFF then
        (f.setError .protocolError
          "Lengths smaller than 65536 (2^16) must be expressed as 2 bytes.", d.skip 8, .done)
      else
        (f, d.skip 8, f.afterLength)
    else
      (f, d, .waitForData)
  else
    (f, d, .waitForData)

def readFrameMask (f : Frame) (d : SocketData) : Frame × SocketData × ProcessingState :=
  if d.getDataLeftToRead ≥ 4 then
    ({ f with mask := ofBigEndian (d.unread.take 4) }, d.skip 4, .readPayload)
  else
    (f, d, .waitForData)

def readFramePayload (f : Frame) (d : SocketData) : Frame × SocketData × ProcessingState :=
  if f.length = 0 then
    (f, d, .done)
  else if f.length > f.maxAllowedMessageSize then
    (f.setError .tooMuchData "Maximum framesize exceeded.", d, .done)
  else if d.getDataLeftToRead ≥ f.length then
    if f.hasMask then
      (f, d.overwrite (maskPayload f.mask (d.unread.take f.length)), .done)
    else
      (f, d, .done)
  else
    (f, d, .waitForData)

/-- `m_processingState = state`. -/
def enter (f : Frame) (state : ProcessingState) : Frame := { f with processingState := state }

/-- Stores the state a reader returned. On `waitForData` the reader's own state is put back and the
call ends, to be resumed there. -/
def resumeAt (state : ProcessingState) :
    Frame × SocketData × ProcessingState → Round (Frame × SocketData) (Frame × SocketData)
  | (f, d, .waitForData) => .leave (f.enter state, d)
  | (f, d, next) => .again (f.enter next, d)

def readFrameRound : Frame × SocketData → Round (Frame × SocketData) (Frame × SocketData)
  | (f, d) =>
    match f.processingState with
    | .readHeader => resumeAt .readHeader (f.readFrameHeader d)
    | .readPayloadLength => resumeAt .readPayloadLength (f.readFramePayloadLength d)
    | .readMask => resumeAt .readMask (f.readFrameMask d)
    | .readPayload => resumeAt .readPayload (f.readFramePayload d)
    | .done => .leave (f, d)
    | .waitForData => .again (f, d)
    | .error => .again (f, d)

/-- From the header at most four readers run before the frame is done, so five rounds are enough
unless the loop is entered in a state it does not handle. -/
def readFrame (f : Frame) (d : SocketData) : Option (Frame × SocketData) :=
  loop readFrameRound 5 (f, d)

end Frame

end LuPlatform.Websocket
