import LuPlatform.Library.Loop
import LuPlatform.Utils.DelimiterTextParser
import Mathlib.Data.List.Sort

/-! The server's side of the handshake: the request it reads line by line and the response it makes.
Base64 and SHA-1 are one function, a parameter. A text in which the end of a line is missing is read
beyond its end. -/

namespace LuPlatform.Websocket

open Bytes Loop Utils

inductive Outcome (α : Type) where
  | ok (result : α)
  | thrown
  | outsideText
  deriving DecidableEq, Repr

namespace Outcome

variable {α : Type}

def result? : Outcome α → Option α
  | ok result => some result
  | thrown | outsideText => none

theorem result?_eq_some {o : Outcome α} {result : α} : o.result? = some result ↔ o = .ok result := by
  cases o <;> simp [result?]

end Outcome

/-! ### The header lines -/

/-- The map of the header fields; of two fields with one name the first stays. -/
abbrev KeyValue := List (List UInt8 × List UInt8)

namespace KeyValue

def find (keyValue : KeyValue) (key : List UInt8) : Option (List UInt8) := keyValue.lookup key

def emplace (keyValue : KeyValue) (key value : List UInt8) : KeyValue :=
  if (keyValue.find key).isSome then keyValue else keyValue ++ [(key, value)]

end KeyValue

def crlf : List UInt8 := ascii "\r\n"

/-- One line of the loop that requests and responses are both read with. The first line is parsed by
`firstLine`; `none` is a text that is refused. -/
def lineRound (firstLine : List UInt8 → Option KeyValue) (text : List UInt8) :
    Nat × KeyValue → Round (Nat × KeyValue) (Outcome (Option KeyValue))
  | (readHeader, keyValue) =>
    match findFrom crlf text readHeader with
    | none => .leave .outsideText
    | some location =>
      if location = readHeader then
        .leave (.ok (some keyValue))
      else
        let line := (text.drop readHeader).take (location - readHeader)
        if keyValue.isEmpty then
          match firstLine line with
          | none => .leave (.ok none)
          | some keyValue => .again (location + 2, keyValue)
        else
          match find (ascii ":") line with
          | none => .leave (.ok none)
          | some delimiterPos =>
            if delimiterPos + 2 > line.length then
              .leave .thrown
            else
              .again (location + 2, keyValue.emplace (toLower (line.take delimiterPos))
                (line.drop (delimiterPos + 2)))

def readLines (firstLine : List UInt8 → Option KeyValue) (text : List UInt8) :
    Option (Outcome (Option KeyValue)) :=
  loop (lineRound firstLine text) (text.length + 1) (0, [])

/-- Every line moves the read position on, so the loop ends. -/
theorem readLines_terminates (firstLine : List UInt8 → Option KeyValue) (text : List UInt8) :
    ∃ outcome, readLines firstLine text = some outcome := by
  refine loop_terminates (fun s => s.1 ≤ text.length) (fun s => text.length - s.1) ?_
    (Nat.zero_le _) (Nat.lt_succ_self _)
  rintro ⟨readHeader, keyValue⟩ s' hle hround
  simp only [lineRound] at hround
  split at hround
  · cases hround
  · rename_i location hfind
    obtain ⟨hpos, _⟩ := findFrom_eq_some hfind
    have hend : location + 2 ≤ text.length := findFrom_end_le hfind
    have hnext : s'.1 = location + 2 := by grind
    simp only [hnext]
    omega

/-! ### The request -/

structure HandshakeRequest where
  protocols : List (List UInt8) := []
  websocketVersions : List Int := []
  key : List UInt8 := []
  upgrade : List UInt8 := []
  keyValue : KeyValue := []
  deriving DecidableEq, Repr

/-- The request line, unless it is refused or cannot be parsed. -/
def requestLine (expectedResource line : List UInt8) : Option KeyValue :=
  let parsed := do
    let (verb, requestParser) ← (DelimiterTextParser.ofView line (ascii " ")).next
    let (resource, requestParser) ← requestParser.next
    let (httpProtocol, _) ← requestParser.next
    let (_, httpProtocolParser) ← (DelimiterTextParser.ofString httpProtocol (ascii "/")).next
    let (httpVersion, _) ← httpProtocolParser.nextFloat
    return (verb, resource, httpVersion)
  match parsed with
  | .error _ => none
  | .ok (verb, resource, httpVersion) =>
    if verb != ascii "GET" || resource != expectedResource || httpVersion.lessThan11 then
      none
    else
      some [(ascii "request-method", line)]

/-- The items of a list, up to the one it ends with; an exception ends the list as well. Every item
moves the parser on, so as many as the line has characters are enough. -/
def collect {α : Type} (next : DelimiterTextParser →
    Except (List UInt8) (α × DelimiterTextParser)) (isEnd : α → Bool) :
    Nat → α → DelimiterTextParser → List α
  | 0, _, _ => []
  | fuel + 1, value, parser =>
    if isEnd value then
      []
    else
      value :: match next parser with
        | .error _ => []
        | .ok (value, parser) => collect next isEnd fuel value parser

/-! ### The response -/

/-- `std::set_intersection` of two descending lists. -/
def setIntersection : List Int → List Int → List Int
  | [], _ => []
  | a :: list1, list2 =>
    match list2.dropWhile (· > a) with
    | [] => []
    | b :: list2 =>
      if b = a then a :: setIntersection list1 list2 else setIntersection list1 (b :: list2)

def listIntersection (list1 list2 : List Int) : List Int :=
  setIntersection (list1.insertionSort (· ≥ ·)) (list2.insertionSort (· ≥ ·))

section Hash

variable (getBase64Hash : List UInt8 → List UInt8)

def getAcceptKey (key : List UInt8) : List UInt8 :=
  getBase64Hash (key ++ ascii "258EAFA5-E914-47DA-95CA-C5AB0DC85B11")

/-- `HandshakeResponse`: the text it is constructed with, empty for a request that is not met. -/
def handshakeResponse (handshakeRequest : HandshakeRequest) (supportedVersions : List Int)
    (supportedProtocol : List UInt8) : List UInt8 :=
  let protocol := (handshakeRequest.protocols.find? (· == supportedProtocol)).getD []
  if handshakeRequest.upgrade == ascii "tcp" then
    ascii "HTTP/1.1 101 Switching Protocols\r\nUpgrade: tcp\r\n\r\n"
  else
    let matchingVersions := listIntersection supportedVersions handshakeRequest.websocketVersions
    if protocol.isEmpty || matchingVersions.isEmpty then
      []
    else
      ascii "HTTP/1.1 101 Switching Protocols\r\nUpgrade: websocket\r\nConnection: Upgrade\r\n" ++
        ascii "Sec-WebSocket-Accept: " ++ getAcceptKey getBase64Hash handshakeRequest.key ++
        crlf ++ ascii "Sec-WebSocket-Protocol: " ++ supportedProtocol ++ crlf ++ crlf

/-- What is answered to a WebSocket request, from its protocols on. -/
def answerWebSocket (request : HandshakeRequest) (supportedProtocol : List UInt8)
    (supportedVersion : List Int) (protocols version : List UInt8) :
    Outcome (HandshakeRequest × List UInt8) :=
  let protocolsParse := DelimiterTextParser.ofString protocols (ascii ", ")
  match protocolsParse.next with
  | .error _ => .thrown
  | .ok (value, parser) =>
    let request := { request with
      protocols := collect DelimiterTextParser.next List.isEmpty (protocols.length + 1) value parser }
    match (protocolsParse.nextLine version).nextInt with
    | .error _ => .thrown
    | .ok (value, parser) =>
      let request := { request with
        websocketVersions :=
          collect DelimiterTextParser.nextInt (· == 0) (version.length + 1) value parser }
      if request.protocols.isEmpty then
        .ok (request, [])
      else
        .ok (request, handshakeResponse getBase64Hash request supportedVersion supportedProtocol)

/-- The checks that follow the header lines. -/
def answer (supportedProtocol : List UInt8) (supportedVersion : List Int) (keyValue : KeyValue) :
    Outcome (HandshakeRequest × List UInt8) :=
  match keyValue.find (ascii "upgrade") with
  | none => .ok ({ keyValue }, [])
  | some upgrade =>
    let request : HandshakeRequest := { keyValue, upgrade }
    if upgrade == ascii "tcp" then
      .ok (request, handshakeResponse getBase64Hash request supportedVersion supportedProtocol)
    else if upgrade != ascii "websocket" then
      .ok (request, [])
    else
      match keyValue.find (ascii "sec-websocket-key") with
      | none => .ok (request, [])
      | some key =>
        let request := { request with key }
        if (keyValue.find (ascii "connection")).map toLower != some (ascii "upgrade") then
          .ok (request, [])
        else
          match keyValue.find (ascii "sec-websocket-protocol") with
          | none | some [] => .ok (request, [])
          | some protocols =>
            match keyValue.find (ascii "sec-websocket-version") with
            | none =>
              -- the protocols are parsed first, and their first item may be missing
              match (DelimiterTextParser.ofString protocols (ascii ", ")).next with
              | .error _ => .thrown
              | .ok _ => .ok (request, [])
            | some version =>
              answerWebSocket getBase64Hash request supportedProtocol supportedVersion protocols version

/-- The response and the request object it leaves; an empty response refuses the request. -/
def getResponse (text expectedResource supportedProtocol : List UInt8)
    (supportedVersion : List Int) : Outcome (HandshakeRequest × List UInt8) :=
  match readLines (requestLine expectedResource) text with
  | some (.ok (some keyValue)) =>
    answer getBase64Hash supportedProtocol supportedVersion keyValue
  | some (.ok none) => .ok ({}, [])
  | some .thrown => .thrown
  | some .outsideText | none => .outsideText

end Hash

/-! ### What the client asks for -/

structure InitialRequestInfo where
  resourceName : List UInt8
  host : List UInt8
  upgrade : List UInt8
  origin : List UInt8
  wsVersion : List UInt8
  extensions : List UInt8
  protocols : List (List UInt8)
  headers : List (List UInt8 × List UInt8)
  deriving DecidableEq, Repr

def headerLine (name value : List UInt8) : List UInt8 := name ++ ascii ": " ++ value ++ crlf

def createHandShakeRequest (handshakeInfo : InitialRequestInfo) (key : List UInt8) : List UInt8 :=
  ascii "GET " ++ handshakeInfo.resourceName ++ ascii " HTTP/1.1\r\n" ++
    headerLine (ascii "Host") handshakeInfo.host ++
    headerLine (ascii "Upgrade")
      (if handshakeInfo.upgrade.isEmpty then ascii "websocket" else handshakeInfo.upgrade) ++
    headerLine (ascii "Connection") (ascii "Upgrade") ++
    headerLine (ascii "Sec-WebSocket-Key") key ++
    (if handshakeInfo.origin.isEmpty then [] else headerLine (ascii "Origin") handshakeInfo.origin) ++
    headerLine (ascii "Sec-WebSocket-Version") handshakeInfo.wsVersion ++
    (if handshakeInfo.extensions.isEmpty then []
      else headerLine (ascii "Sec-WebSocket-Extensions") handshakeInfo.extensions) ++
    (if handshakeInfo.protocols.isEmpty then []
      else headerLine (ascii "Sec-WebSocket-Protocol")
        (List.intercalate (ascii ", ") handshakeInfo.protocols)) ++
    (handshakeInfo.headers.map fun header => headerLine header.1 header.2).flatten ++
    crlf

end LuPlatform.Websocket
