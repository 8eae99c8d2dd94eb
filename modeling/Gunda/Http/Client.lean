import Gunda.Core.Download
import Gunda.Lib.Bytes
import Gunda.Lib.Program
import Gunda.Lib.Text

/-!
# The HTTP client

`gunda-http/src/client.rs`, `body.rs` and `validator.rs`: requests with their
header policy, redirects followed by the client itself, and the metadata of a
response. The transport answers one exchange at a time; URLs are the `url` crate's,
and a character of a header from 0x80 stands for bytes from 0x80.
-/
namespace Gunda.Http

open Gunda.Lib Gunda.Lib.Text
open Gunda.Core (Url RequestContext RequestHeader)

inductive HttpError where
  | configuration | invalidRequest | timeout | transport | redirect
  | unexpectedStatus (status : Nat)
  | invalidMetadata | unsupportedEncoding | bodyLengthMismatch | byteCountOverflow
  deriving DecidableEq, Repr

/-- `url::Url` as far as fetching uses it. -/
structure UrlLibrary where
  join : Url → Text → Option Url
  scheme : Url → Text
  path : Url → Text
  host : Url → Option Text
  username : Url → Text
  password : Url → Option Text
  sameOrigin : Url → Url → Bool

inductive Method where
  | get | head
  deriving DecidableEq, Repr

/-- Header names are kept in lower case, values in the order they were added. -/
abbrev HeaderMap := List (Text × Text)

namespace HeaderMap

def getAll (headers : HeaderMap) (name : Text) : List Text :=
  (headers.filter fun header => header.1 = name).map (·.2)

/-- Replaces every value of the name. -/
def insert (headers : HeaderMap) (name value : Text) : HeaderMap :=
  (headers.filter fun header => header.1 ≠ name) ++ [(name, value)]

end HeaderMap

structure Exchange where
  method : Method
  url : Url
  headers : HeaderMap
  deriving DecidableEq, Repr

/-- A response: its blocks of body, and the failure that cuts the body short. -/
structure Response where
  status : Nat
  headers : HeaderMap
  chunks : List Bytes
  failure : Option HttpError
  deriving DecidableEq, Repr

/-- A quoted text of visible characters other than a quote. -/
def isStrongTag (value : Text) : Bool :=
  (stripPrefix ['"'] value).any fun value => (stripSuffix ['"'] value).any fun tag =>
    tag.all fun c => c.toNat = 0x21 || (0x23 ≤ c.toNat && c.toNat ≤ 0x7E) || 0x80 ≤ c.toNat

/-- A strong validator: it names one representation. -/
structure StrongEntityTag where
  value : Text
  strong : isStrongTag value
  deriving DecidableEq, Repr

def StrongEntityTag.parse (value : Text) : Option StrongEntityTag :=
  if h : isStrongTag value then some ⟨value, h⟩ else none

/-- What inspection keeps of a response's headers. -/
structure HttpInspection where
  contentLength : Option Nat
  contentType : Option Text
  strongEtag : Option StrongEntityTag
  deriving DecidableEq, Repr

/-- A program that fails with an HTTP error, over the operations of its caller. -/
abbrev Client (Op : Type) (Ans : Op → Type) (α : Type) : Type := Fallible Op Ans HttpError α

/-! ## Headers -/

def isVisibleAscii (value : Text) : Bool :=
  value.all fun c => (0x20 ≤ c.toNat && c.toNat ≤ 0x7E) || c.toNat = 9

/-- The one value of a header, as text. -/
def singleHeader (headers : HeaderMap) (name : Text) : Except HttpError (Option Text) :=
  match headers.getAll name with
  | [] => .ok none
  | [value] => if isVisibleAscii value then .ok (some value) else .error .invalidMetadata
  | _ => .error .invalidMetadata

def isTokenCharacter (c : Char) : Bool := c.isAlphanum || "!#$%&'*+-.^_|~".toList.contains c ||
  c.toNat = 0x60

/-- `HeaderName::from_bytes`. -/
def headerName (name : String) : Except HttpError Text :=
  if name.toList ≠ [] ∧ name.toList.all isTokenCharacter then .ok (toAsciiLowercase name.toList)
  else .error .invalidRequest

/-- `HeaderValue::from_bytes`. -/
def headerValue (value : String) : Except HttpError Text :=
  if value.toList.all fun c => (0x20 ≤ c.toNat && c.toNat ≠ 0x7F) || c.toNat = 9 then
    .ok value.toList
  else .error .invalidRequest

/-- Headers that belong to the transport policy. -/
def transportOwned : List Text :=
  ["host", "connection", "content-length", "transfer-encoding", "te", "trailer", "upgrade",
    "keep-alive", "proxy-connection", "proxy-authorization", "expect", "accept-encoding", "range",
    "if-range", "if-match", "if-none-match", "if-modified-since",
    "if-unmodified-since"].map String.toList

def requestHeader (header : RequestHeader) : Except HttpError (Text × Text) := do
  let name ← headerName header.name
  if name ∈ transportOwned then
    throw .invalidRequest
  pure (name, ← headerValue header.value)

def requestHeaders (request : RequestContext) : Except HttpError HeaderMap := do
  let headers ← request.headers.mapM requestHeader
  pure (HeaderMap.insert headers "accept-encoding".toList "identity".toList)

/-- What still travels to a different origin. -/
def transportHeaders (headers : HeaderMap) : HeaderMap :=
  ["accept-encoding".toList, "range".toList, "if-range".toList].filterMap fun name =>
    (headers.getAll name).head?.map (name, ·)

/-! ## Metadata -/

def parseContentLength (value : Text) : Except HttpError Nat :=
  let value := trim value
  if value = [] ∨ ¬ value.all Char.isDigit then .error .invalidMetadata
  else match parseU64 value with
    | some length => .ok length
    | none => .error .invalidMetadata

def responseStrongEtag (headers : HeaderMap) : Option StrongEntityTag :=
  match headers.getAll "etag".toList with
  | [value] => StrongEntityTag.parse value
  | _ => none

def inspectHeaders (headers : HeaderMap) : Except HttpError HttpInspection := do
  let encoding ← singleHeader headers "content-encoding".toList
  if encoding.any fun encoding => !eqIgnoreAsciiCase (trim encoding) "identity".toList then
    throw .unsupportedEncoding
  let contentLength ← (← singleHeader headers "content-length".toList).mapM parseContentLength
  let contentType ← singleHeader headers "content-type".toList
  pure ⟨contentLength, contentType, responseStrongEtag headers⟩

def inspectResponse (response : Response) : Except HttpError HttpInspection :=
  if response.status ≠ 200 then .error (.unexpectedStatus response.status)
  else if response.headers.getAll "content-range".toList ≠ [] then .error .invalidMetadata
  else inspectHeaders response.headers

/-- The bytes received once a block is read; a body longer than announced is refused. -/
def receiveChunk (metadata : HttpInspection) (receivedBytes : Nat) (chunk : Bytes) :
    Except HttpError Nat :=
  if 2 ^ 64 ≤ receivedBytes + chunk.length then .error .byteCountOverflow
  else if metadata.contentLength.any (· < receivedBytes + chunk.length) then
    .error .bodyLengthMismatch
  else .ok (receivedBytes + chunk.length)

/-- The end of a body: a body shorter than announced is refused. -/
def finishBody (metadata : HttpInspection) (receivedBytes : Nat) (failure : Option HttpError) :
    Except HttpError Unit :=
  match failure with
  | some error => .error error
  | none =>
      if metadata.contentLength.any (· ≠ receivedBytes) then .error .bodyLengthMismatch
      else .ok ()

/-! ## Requests -/

section

variable (urls : UrlLibrary)

def validateUrl (url : Url) : Except HttpError Unit :=
  if (urls.scheme url ≠ "http".toList ∧ urls.scheme url ≠ "https".toList) ∨ urls.host url = none ∨
      urls.username url ≠ [] ∨ urls.password url ≠ none then .error .invalidRequest
  else .ok ()

def validateRedirect (current next : Url) : Except HttpError Unit := do
  validateUrl urls next
  if urls.scheme current = "https".toList ∧ urls.scheme next ≠ "https".toList then
    throw .invalidRequest

/-- Where a redirect leads. -/
def redirectTarget (url : Url) (response : Response) : Except HttpError Url := do
  let some location ← singleHeader response.headers "location".toList
    | throw .invalidMetadata
  let some next := urls.join url location
    | throw .invalidMetadata
  validateRedirect urls url next
  pure next

def isRedirect (status : Nat) : Bool :=
  status = 301 || status = 302 || status = 303 || status = 307 || status = 308

variable {Op : Type} {Ans : Op → Type}
  (send : Exchange → Program Op Ans (Except HttpError Response))

/-- The source's loop, by the redirects it may still follow. -/
def followRedirects (method : Method) : Nat → Url → HeaderMap → Client Op Ans Response
  | hops, url, headers => do
      let response ← ExceptT.mk (send ⟨method, url, headers⟩)
      if !isRedirect response.status then
        pure response
      else match hops with
        | 0 => throw .redirect
        | hops + 1 => do
            let next ← ExceptT.mk (pure (redirectTarget urls url response))
            followRedirects method hops next
              (if urls.sameOrigin url next then headers else transportHeaders headers)

def sendRedirected (request : RequestContext) (method : Method) (headers : HeaderMap) :
    Client Op Ans Response :=
  followRedirects urls send method 10 request.url headers

def inspect (request : RequestContext) : Client Op Ans HttpInspection := do
  ExceptT.mk (pure (validateUrl urls request.url))
  let headers ← ExceptT.mk (pure (requestHeaders request))
  let response ← sendRedirected urls send request .head headers
  ExceptT.mk (pure (inspectResponse response))

/-- A full-resource request: the response and its metadata. -/
def openBody (request : RequestContext) : Client Op Ans (Response × HttpInspection) := do
  ExceptT.mk (pure (validateUrl urls request.url))
  let headers ← ExceptT.mk (pure (requestHeaders request))
  let response ← sendRedirected urls send request .get headers
  let metadata ← ExceptT.mk (pure (inspectResponse response))
  pure (response, metadata)

end

end Gunda.Http
