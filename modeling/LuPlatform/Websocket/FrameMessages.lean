import LuPlatform.Websocket.Frame

/-! What a frame means to the socket: control frames and messages become callbacks. One call of
`processMessage` works through the bytes it is given and returns how far it came; besides that
offset the model keeps the callbacks made and which `return` of the source was taken. -/

namespace LuPlatform.Websocket

open Bytes Loop

/-- The callbacks, with the bytes of the span they are given. -/
inductive FrameEvent where
  | onData (payload : List UInt8)
  | onPing (payload : List UInt8)
  | onPong
  | onClose (closeCode : CloseCode)
  deriving DecidableEq, Repr

/-- The `return` statements of `processMessage`: it runs out of bytes, or it refuses the frame
because it is not valid, because it continues nothing, because a continuation was due, or because
of what `append` answered. -/
inductive Exit where
  | needData | invalidFrame | nothingToContinue | continuationDue | tooBig
  deriving DecidableEq, Repr

/-- Every return but the one for lack of bytes reports a violation of the protocol. -/
def Exit.violation (e : Exit) : Bool := e != .needData

structure Processing where
  frame : Frame
  socketData : SocketData
  events : List FrameEvent
  deriving DecidableEq, Repr

def isCloseCodeValid (closeCode : Nat) : Bool :=
  closeCode > 999 && closeCode < 5000 &&
    closeCode != CloseCode.reserved1004 &&
    closeCode != CloseCode.missingStatusCode &&
    closeCode != CloseCode.abnormalDisconnection &&
    (closeCode ≥ 3000 || closeCode < 1012)

namespace Frame

/-- The code reported for a close frame of `length` bytes at the start of `unread`. -/
def receivedCloseCode (length : Nat) (unread : List UInt8) : CloseCode :=
  if length = 1 then
    .protocolError
  else if length > 1 then
    let closeCode := ofBigEndian (unread.take 2)
    if !isCloseCodeValid closeCode then .protocolError else closeCode
  else
    .normal

/-- The callbacks of a control frame. The source's result is always `true`. -/
def processControlFrame (f : Frame) (d : SocketData) : List FrameEvent :=
  match f.opCode with
  | .ping => [.onPing (d.unread.take f.length)]
  | .pong => [.onPong]
  | .close => [.onClose (receivedCloseCode f.length d.unread)]
  | _ => []

/-- The source returns `true` when the payload was appended. -/
def append (f : Frame) (bytes : List UInt8) : Frame × Bool :=
  if f.length + f.message.getDataLength > f.message.getCapacity then
    (f, false)
  else
    ({ f with message := (f.message.append (bytes.take f.length)).1 }, true)

/-- A data frame that continues nothing begins a message, a fragmented one unless it is final. -/
def beginMessage (f : Frame) : Frame :=
  if f.isContinuationFrame == false then { f with isFragmented := !f.isFinalFrame } else f

/-- Collects a fragment and hands out a final frame, up to the callback; `inr` where the source
returns. -/
def deliver (f : Frame) (d : SocketData) : (Frame × List FrameEvent) ⊕ (Frame × Exit) :=
  let (f, appended) := if f.isFragmented then f.append d.unread else (f, false)
  if appended then
    .inr ({ f with opCode := .close }, .tooBig)
  else if f.isFinalFrame then
    if f.isFragmented then
      .inl ({ f with message := f.message.clear },
        [.onData (f.message.getData.take f.length)])
    else
      .inl (f, [.onData (d.unread.take f.length)])
  else
    .inl (f, [])

/-- The branch of a valid data frame. -/
def processDataFrame (f : Frame) (d : SocketData) :
    (Frame × List FrameEvent) ⊕ (Frame × Exit) :=
  if f.isFragmented == false && f.isContinuationFrame then
    .inr ({ f with opCode := .close }, .nothingToContinue)
  else if f.isFragmented && f.isDataFrame && f.isContinuationFrame == false then
    .inr ({ f with opCode := .close }, .continuationDue)
  else
    f.beginMessage.deliver d

/-- One round of the message loop. The source nests two loops, but leaving the inner one only
re-enters it through the outer one, so both are this one. -/
def processMessageRound (p : Processing) : Round Processing (Option (Processing × Exit)) :=
  if p.socketData.getDataLeftToRead = 0 then
    .leave (some (p, .needData))
  else
    match p.frame.readFrame p.socketData with
    | none => .leave none
    | some (f, d) =>
      if f.processingState != .done then
        .leave (some (⟨f, d, p.events⟩, .needData))
      else if f.isValid then
        if f.isControlFrame then
          .again ⟨f.reset, d.skip f.length, p.events ++ f.processControlFrame d⟩
        else
          match f.processDataFrame d with
          | .inl (f, events) => .again ⟨f.reset.reset, d.skip f.length, p.events ++ events⟩
          | .inr (f, exit) => .leave (some (⟨f, d, p.events⟩, exit))
      else
        .leave (some (⟨{ f with opCode := .close }, d, p.events⟩, .invalidFrame))

/-- A round that goes on consumes a byte, but for the first one of a call that finds an empty frame
done already; the fuel allows for that one and for the round that leaves. -/
def processMessage (f : Frame) (d : SocketData) : Option (Processing × Exit) :=
  (loop processMessageRound (d.getDataLeftToRead + 2) ⟨f, d, []⟩).join

end Frame

end LuPlatform.Websocket
