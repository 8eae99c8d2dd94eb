import Gunda.Capture.Messages

/-!
# The opening handshake

`read_head`, `parse_handshake` and `accept` of `gunda-capture/src/websocket.rs`. The
`sha1` and `base64` crates answer the key of the client.
-/
namespace Gunda.Capture

open Gunda.Lib Gunda.Lib.Text

/-- Largest request head accepted, in bytes. -/
def MAX_HANDSHAKE_BYTES : Nat := 16 * 1024

def HANDSHAKE_GUID : Text := "258EAFA5-E914-47DA-95CA-C5AB0DC85B11".toList

structure Handshake where
  path : Text
  origin : Option Text
  deriving DecidableEq, Repr

/-- `Sec-WebSocket-Accept` of a key: SHA-1 of what is hashed, in Base64. -/
structure Digest where
  sha1 : Bytes → Bytes
  base64 : Bytes → Text

def acceptKey (digest : Digest) (key : Text) : Text :=
  digest.base64 (digest.sha1 (toUtf8 key ++ toUtf8 HANDSHAKE_GUID))

/-! ## The request -/

/-- The parts between line ends. -/
def splitLines : Text → List Text
  | [] => [[]]
  | '\r' :: '\n' :: rest => [] :: splitLines rest
  | c :: rest =>
      match splitLines rest with
      | line :: lines => (c :: line) :: lines
      | [] => [[c]]

structure RequestHeaders where
  upgrade : Bool
  connection : Bool
  key : Option Text
  version : Bool
  origin : Option Text

def RequestHeaders.set (headers : RequestHeaders) (name value : Text) : RequestHeaders :=
  if eqIgnoreAsciiCase name "upgrade".toList then
    { headers with upgrade := eqIgnoreAsciiCase value "websocket".toList }
  else if eqIgnoreAsciiCase name "connection".toList then
    { headers with connection := (splitAll ',' value).any fun token =>
        eqIgnoreAsciiCase (trim token) "upgrade".toList }
  else if eqIgnoreAsciiCase name "sec-websocket-key".toList then { headers with key := some value }
  else if eqIgnoreAsciiCase name "sec-websocket-version".toList then
    { headers with version := value = "13".toList }
  else if eqIgnoreAsciiCase name "origin".toList then { headers with origin := some value }
  else headers

/-- The header lines, up to the first empty one. -/
def readHeaders (headers : RequestHeaders) : List Text → Option RequestHeaders
  | [] => some headers
  | [] :: _ => some headers
  | line :: lines => do
      let (name, value) ← splitOnce ':' line
      readHeaders (headers.set (trim name) (trim value)) lines

/-- The path of a request line, if its method and version are right. -/
def requestPath (line : Text) : Option Text :=
  match splitAll ' ' line with
  | method :: path :: version :: _ =>
      if method = "GET".toList ∧ "HTTP/1.".toList.isPrefixOf version then some path else none
  | _ => none

def upgradeResponse (digest : Digest) (key : Text) : Text :=
  "HTTP/1.1 101 Switching Protocols\r\n".toList ++ "Upgrade: websocket\r\n".toList ++
    "Connection: Upgrade\r\n".toList ++ "Sec-WebSocket-Accept: ".toList ++
      acceptKey digest key ++ "\r\n\r\n".toList

/-- The handshake and the response it requires. -/
def parseHandshake (digest : Digest) (head : Text) : Except WebSocketError (Handshake × Text) :=
  match splitLines head with
  | [] => .error .handshake
  | first :: lines =>
      match requestPath first, readHeaders ⟨false, false, none, false, none⟩ lines with
      | some path, some headers =>
          if headers.upgrade = false ∨ headers.connection = false ∨ headers.version = false then
            .error .handshake
          else match headers.key.filter (· ≠ []) with
            | none => .error .handshake
            | some key => .ok (⟨path, headers.origin⟩, upgradeResponse digest key)
      | _, _ => .error .handshake

/-! ## Accepting -/

namespace Transport

/-- Reads the request head one byte at a time, with the bytes that are still accepted. -/
def readHead : Nat → Bytes → Transport → Except WebSocketError (Bytes × Transport)
  | 0, _, _ => .error .handshake
  | count + 1, head, transport =>
      match takeExact 1 transport.incoming with
      | none => match transport.ending with
          | .unexpectedEof => .error .handshake
          | .failed kind => .error (.io (.failed kind))
      | some (byte, rest) =>
          let head := head ++ byte
          if "\r\n\r\n".toList.map (fun c => UInt8.ofNat c.toNat) <:+ head then
            .ok (head, { transport with incoming := rest })
          else readHead count head { transport with incoming := rest }

/-- The handshake, once the response to it is decided. -/
def readHandshake (transport : Transport) (digest : Digest) :
    Except WebSocketError ((Handshake × Text) × Transport) := do
  let (head, transport) ← readHead (MAX_HANDSHAKE_BYTES + 1) [] transport
  match fromUtf8 head with
  | none => .error .handshake
  | some head => do
      let parsed ← parseHandshake digest head
      pure (parsed, transport)

def accept (transport : Transport) (digest : Digest) :
    Except WebSocketError Handshake × Transport :=
  match transport.readHandshake digest with
  | .error error => (.error error, transport)
  | .ok ((handshake, response), transport) =>
      match transport.writeAll (toUtf8 response) with
      | (.ok (), transport) => (.ok handshake, transport)
      | (.error error, transport) => (.error error, transport)

end Transport

end Gunda.Capture
