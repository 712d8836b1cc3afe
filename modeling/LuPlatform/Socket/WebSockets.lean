import LuPlatform.Socket.Session

/-! The three sockets with a handshake. `WebSocket` speaks frames only; of the other two the server's
end reads the client's request and the client's end the server's reply, and either of them goes on
with frames or with raw messages, as the upgrade says. -/

namespace LuPlatform.Socket

open Bytes Websocket Receiver

def RESOURCE : List UInt8 := ascii "/comms"
def RECV_BUFFER_SIZE : Nat := 1500 * 4

/-- A natural number as a `float`: 24 significant bits, a tie going to the even one. -/
def roundToFloat (n : Nat) : Nat :=
  let unit := 2 ^ (n.log2 - 23)
  let low := n / unit * unit
  if 2 * (n % unit) < unit || 2 * (n % unit) == unit && n / unit % 2 == 0 then low else low + unit

/-- The buffer of the two sockets with raw messages, `MaxMessageSize * 1.25F` bytes at least. The
product is rounded in quarters. -/
def HBDataSocket.BUFFER_SIZE (MaxMessageSize : Nat) : Nat :=
  max (roundToFloat (5 * roundToFloat MaxMessageSize) / 4) RECV_BUFFER_SIZE

namespace WebSocket

inductive SocketStatus where
  | connecting | connected | closing
  deriving DecidableEq, Repr

def BUFFER_SIZE : Nat := 8 * 1024 * 100 + 4

end WebSocket

inductive SocketStatus where
  | connecting | connectedAsWebSocket | connectedAsTCP | closing
  deriving DecidableEq, Repr

abbrev WebSocket := SessionSocket WebSocket.SocketStatus
abbrev HBDataSocket := SessionSocket SocketStatus
abbrev HBSocketClient := SessionSocket SocketStatus

def WebSocket.new (MaxMessageSize : Nat) : WebSocket :=
  Receiver.new (List.replicate BUFFER_SIZE 0)
    { socketStatus := .connecting, frame := .new MaxMessageSize }

def HBDataSocket.new (MaxMessageSize : Nat) : HBDataSocket :=
  Receiver.new (List.replicate (BUFFER_SIZE MaxMessageSize) 0)
    { socketStatus := .connecting, frame := .new MaxMessageSize }

def HBSocketClient.new (memory : Nat → UInt8) (MaxMessageSize : Nat) : HBSocketClient :=
  Receiver.new (uninitialized memory (HBDataSocket.BUFFER_SIZE MaxMessageSize))
    { socketStatus := .connecting, frame := .new MaxMessageSize }

@[simp] theorem WebSocket.new_leftToRecv (MaxMessageSize : Nat) :
    (WebSocket.new MaxMessageSize).numberOfBytesLeftToRecv = WebSocket.BUFFER_SIZE :=
  List.length_replicate

@[simp] theorem HBDataSocket.new_leftToRecv (MaxMessageSize : Nat) :
    (HBDataSocket.new MaxMessageSize).numberOfBytesLeftToRecv =
      HBDataSocket.BUFFER_SIZE MaxMessageSize :=
  List.length_replicate

@[simp] theorem HBSocketClient.new_leftToRecv (memory : Nat → UInt8) (MaxMessageSize : Nat) :
    (HBSocketClient.new memory MaxMessageSize).numberOfBytesLeftToRecv =
      HBDataSocket.BUFFER_SIZE MaxMessageSize :=
  length_uninitialized memory _

section Server

variable (getBase64Hash : List UInt8 → List UInt8)

/-- The request as the server's end of a connection hands it to the parser. -/
def answerRequest (request : List UInt8) : Outcome (HandshakeRequest × List UInt8) :=
  getResponse getBase64Hash request RESOURCE (ascii "LuBinary") [13]

/-- The end of the header, for both server sockets: a request that is met changes the status. -/
def finishRequest {status : Type} (connectedAs : HandshakeRequest → status)
    (s : SessionSocket status) : Option (SessionSocket status) :=
  match answerRequest getBase64Hash s.header with
  | .ok (handshakeRequest, response) =>
    if response.isEmpty then
      some (s.raise .stop)
    else
      some (((s.updateForHeader.withStatus (connectedAs handshakeRequest)).raise
        (.send response)).raise .onOpen)
  | _ => none

namespace WebSocket

def processHandshake (s : WebSocket) : Option WebSocket :=
  s.processHeader (finishRequest getBase64Hash fun _ => .connected)

def readMessages (s : WebSocket) : Option WebSocket :=
  if s.own.socketStatus = .connecting then
    match processHandshake getBase64Hash s with
    | none => none
    | some s => if s.own.socketStatus = .connecting then some s else s.processFrames
  else
    s.processFrames

end WebSocket

end Server

/-- The messages behind a handshake, for both sockets that go on in either way. -/
def readUpgraded (handler : DataHandler) (s : SessionSocket SocketStatus) :
    Option (SessionSocket SocketStatus) :=
  match s.own.socketStatus with
  | .connectedAsTCP => s.readMessages handler
  | .connectedAsWebSocket => s.processFrames
  | _ => some (s.raise .stop)

/-- The handshake comes first; while it is not complete nothing else does. -/
def readMessagesWith
    (processHandshake : SessionSocket SocketStatus → Option (SessionSocket SocketStatus))
    (handler : DataHandler) (s : SessionSocket SocketStatus) :
    Option (SessionSocket SocketStatus) :=
  if s.own.socketStatus = .connecting then
    match processHandshake s with
    | none => none
    | some s => if s.own.socketStatus = .connecting then some s else readUpgraded handler s
  else
    readUpgraded handler s

def connectedAs (upgrade : List UInt8) : SocketStatus :=
  if upgrade == ascii "tcp" then .connectedAsTCP else .connectedAsWebSocket

theorem connectedAs_ne_connecting (upgrade : List UInt8) : connectedAs upgrade ≠ .connecting := by
  unfold connectedAs
  split <;> decide

section HB

variable (getBase64Hash : List UInt8 → List UInt8)

namespace HBDataSocket

def processHandshake (s : HBDataSocket) : Option HBDataSocket :=
  s.processHeader (finishRequest getBase64Hash fun request => connectedAs request.upgrade)

def readMessages (handler : DataHandler) (s : HBDataSocket) : Option HBDataSocket :=
  readMessagesWith (processHandshake getBase64Hash) handler s

end HBDataSocket

namespace HBSocketClient

/-- The key is kept for the reply. -/
def startHandshake (initialRequestInfo : InitialRequestInfo) (key : List UInt8) (s : HBSocketClient) :
    HBSocketClient :=
  s.raise (.send (createHandShakeRequest initialRequestInfo key))

def finishReply (key : List UInt8) (s : HBSocketClient) : Option HBSocketClient :=
  match readServerResponse getBase64Hash s.header key with
  | .ok (response, accepted) =>
    if accepted then
      some ((s.updateForHeader.withStatus (connectedAs response.getUpgrade)).raise .onOpen)
    else
      some (s.raise .stop)
  | _ => none

def processServerReply (key : List UInt8) (s : HBSocketClient) : Option HBSocketClient :=
  s.processHeader (finishReply getBase64Hash key)

def readMessages (key : List UInt8) (handler : DataHandler) (s : HBSocketClient) :
    Option HBSocketClient :=
  readMessagesWith (processServerReply getBase64Hash key) handler s

end HBSocketClient

end HB

end LuPlatform.Socket
