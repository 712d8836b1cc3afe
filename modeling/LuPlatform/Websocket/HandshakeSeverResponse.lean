import LuPlatform.Websocket.Handshake

/-! The client's side of the handshake: the response it reads with the loop of the server, and what
it asks of it. -/

namespace LuPlatform.Websocket

open Bytes Utils

structure HandshakeSeverResponse where
  protocols : List (List UInt8) := []
  keyValue : KeyValue := []
  deriving DecidableEq, Repr

def HandshakeSeverResponse.getUpgrade (r : HandshakeSeverResponse) : List UInt8 :=
  (r.keyValue.find (ascii "upgrade")).getD []

/-- The status line, unless it is refused or cannot be parsed. -/
def statusLine (line : List UInt8) : Option KeyValue :=
  let parsed := do
    let (httpProtocol, requestParser) ← (DelimiterTextParser.ofView line (ascii " ")).next
    let (statusCode, _) ← requestParser.nextInt
    let (_, httpProtocolParser) ← (DelimiterTextParser.ofString httpProtocol (ascii "/")).next
    let (httpVersion, _) ← httpProtocolParser.nextFloat
    return (statusCode, httpVersion)
  match parsed with
  | .error _ => none
  | .ok (statusCode, httpVersion) =>
    if httpVersion.lessThan11 || statusCode != 101 then
      none
    else
      some [(ascii "ServerResponse", ascii (toString statusCode))]

section Hash

variable (getBase64Hash : List UInt8 → List UInt8)

/-- The checks that follow the protocols. -/
def acceptKey (response : HandshakeSeverResponse) (key : List UInt8) :
    Outcome (HandshakeSeverResponse × Bool) :=
  match response.keyValue.find (ascii "sec-websocket-accept") with
  | none => .ok (response, false)
  | some accept => .ok (response, accept == getAcceptKey getBase64Hash key)

/-- The checks that follow the header lines. -/
def acceptResponse (keyValue : KeyValue) (key : List UInt8) :
    Outcome (HandshakeSeverResponse × Bool) :=
  let response : HandshakeSeverResponse := { keyValue }
  match keyValue.find (ascii "upgrade") with
  | none => .ok (response, false)
  | some upgrade =>
    if upgrade == ascii "tcp" then
      .ok (response, true)
    else if upgrade != ascii "websocket" then
      .ok (response, false)
    else if (keyValue.find (ascii "connection")).map toLower != some (ascii "upgrade") then
      .ok (response, false)
    else
      match keyValue.find (ascii "sec-websocket-protocol") with
      | none | some [] => acceptKey getBase64Hash response key
      | some protocols =>
        match (DelimiterTextParser.ofString protocols (ascii ", ")).next with
        | .error _ => .thrown
        | .ok (value, parser) =>
          acceptKey getBase64Hash { response with
            protocols := collect DelimiterTextParser.next List.isEmpty (protocols.length + 1) value
              parser } key

def readServerResponse (text key : List UInt8) : Outcome (HandshakeSeverResponse × Bool) :=
  match readLines statusLine text with
  | some (.ok (some keyValue)) => acceptResponse getBase64Hash keyValue key
  | some (.ok none) => .ok ({}, false)
  | some .thrown => .thrown
  | some .outsideText | none => .outsideText

end Hash

end LuPlatform.Websocket
