import Gunda.Http.Client

/-!
# Range requests

`gunda-http/src/range.rs` and `HttpClient::open_range`: the rest of a
representation is asked for under its strong validator, and an answer is taken
only if it is that interval of it.
-/
namespace Gunda.Http

open Gunda.Lib Gunda.Lib.Text
open Gunda.Core (RequestContext)

def parseDecimal (value : Text) : Except HttpError Nat :=
  if value = [] ∨ ¬ value.all Char.isDigit then .error .invalidMetadata
  else match parseU64 value with
    | some number => .ok number
    | none => .error .invalidMetadata

/-- An interval of a representation, both of its bounds included. -/
structure ContentRange where
  start : Nat
  last : Nat
  total : Nat
  ordered : start ≤ last
  inside : last < total
  deriving DecidableEq, Repr

namespace ContentRange

def splitPart (separator : Char) (value : Text) : Except HttpError (Text × Text) :=
  match splitOnce separator value with
  | some parts => .ok parts
  | none => .error .invalidMetadata

def parse (value : Text) : Except HttpError ContentRange := do
  let (unit, value) ← splitPart ' ' value
  if !eqIgnoreAsciiCase unit "bytes".toList then
    throw .invalidMetadata
  let (interval, total) ← splitPart '/' value
  let (start, last) ← splitPart '-' interval
  let start ← parseDecimal start
  let last ← parseDecimal last
  let total ← parseDecimal total
  if h : start ≤ last ∧ last < total then pure ⟨start, last, total, h.1, h.2⟩
  else throw .invalidMetadata

def bodyLength (range : ContentRange) : Nat := range.last - range.start + 1

example : (parse "bytes 5-9/10".toList).toOption.map bodyLength = some 5 := by decide

end ContentRange

/-- The one interval a response names. -/
def contentRange (headers : HeaderMap) : Except HttpError ContentRange := do
  let some range ← singleHeader headers "content-range".toList
    | throw .invalidMetadata
  ContentRange.parse range

def isMultipart (metadata : HttpInspection) : Bool :=
  metadata.contentType.any fun value =>
    eqIgnoreAsciiCase (trim ((splitAll ';' value).headD [])) "multipart/byteranges".toList

/-- The answer to a range request: the interval from `start` to the end of a
representation of that size, under the validator where it names one. -/
def inspectRange (start total : Nat) (validator : StrongEntityTag) (response : Response) :
    Except HttpError HttpInspection := do
  if response.status ≠ 206 then
    throw (.unexpectedStatus response.status)
  let range ← contentRange response.headers
  if range.start ≠ start ∨ range.total ≠ total ∨ range.last ≠ total - 1 then
    throw .invalidMetadata
  let metadata ← inspectHeaders response.headers
  if metadata.contentLength.any (· ≠ range.bodyLength) then
    throw .invalidMetadata
  if isMultipart metadata then
    throw .invalidMetadata
  if response.headers.getAll "etag".toList ≠ [] ∧ metadata.strongEtag ≠ some validator then
    throw .invalidMetadata
  pure { metadata with contentLength := some range.bodyLength }

/-- The headers of a request for what follows the first `start` bytes. -/
def rangeHeaders (headers : HeaderMap) (start : Nat) (validator : StrongEntityTag) : HeaderMap :=
  HeaderMap.insert
    (HeaderMap.insert headers "range".toList ("bytes=".toList ++ ofNat start ++ "-".toList))
    "if-range".toList validator.value

section

variable (urls : UrlLibrary) {Op : Type} {Ans : Op → Type}
  (send : Exchange → Program Op Ans (Except HttpError Response))

def openRange (request : RequestContext) (start total : Nat) (validator : StrongEntityTag) :
    Client Op Ans (Response × HttpInspection) := do
  ExceptT.mk (pure (validateUrl urls request.url))
  if start = 0 ∨ total ≤ start then
    throw .invalidRequest
  let headers ← ExceptT.mk (pure (requestHeaders request))
  let response ← sendRedirected urls send request .get (rangeHeaders headers start validator)
  let metadata ← ExceptT.mk (pure (inspectRange start total validator response))
  pure (response, metadata)

end

/-! ## Intervals of a resource -/

/-- The answer to a request for an interval, which has to be that interval. -/
def inspectByteRange (first last : Nat) (response : Response) :
    Except HttpError (HttpInspection × ContentRange) := do
  if response.status ≠ 206 then
    throw (.unexpectedStatus response.status)
  let range ← contentRange response.headers
  if range.start ≠ first ∨ range.last ≠ last then
    throw .invalidMetadata
  let metadata ← inspectHeaders response.headers
  if metadata.contentLength.any (· ≠ range.bodyLength) then
    throw .invalidMetadata
  if isMultipart metadata then
    throw .invalidMetadata
  pure ({ metadata with contentLength := some range.bodyLength }, range)

def byteRangeHeaders (headers : HeaderMap) (first last : Nat) : HeaderMap :=
  HeaderMap.insert headers "range".toList
    ("bytes=".toList ++ ofNat first ++ "-".toList ++ ofNat last)

section

variable (urls : UrlLibrary) {Op : Type} {Ans : Op → Type}
  (send : Exchange → Program Op Ans (Except HttpError Response))

/-- An interval that the resource's own manifest names. -/
def openByteRange (request : RequestContext) (first last : Nat) :
    Client Op Ans (Response × HttpInspection × ContentRange) := do
  ExceptT.mk (pure (validateUrl urls request.url))
  if last < first then
    throw .invalidRequest
  let headers ← ExceptT.mk (pure (requestHeaders request))
  let response ← sendRedirected urls send request .get (byteRangeHeaders headers first last)
  let (metadata, range) ← ExceptT.mk (pure (inspectByteRange first last response))
  pure (response, metadata, range)

end

/-! ## Bodies -/

/-- The blocks `next_chunk` hands out one after the other, and how the body ends. -/
def deliver (metadata : HttpInspection) (failure : Option HttpError) :
    Nat → List Bytes → List Bytes × Except HttpError Unit
  | receivedBytes, [] => ([], finishBody metadata receivedBytes failure)
  | receivedBytes, chunk :: chunks =>
      if chunk = [] then deliver metadata failure receivedBytes chunks
      else match receiveChunk metadata receivedBytes chunk with
        | .error error => ([], .error error)
        | .ok received =>
            let later := deliver metadata failure received chunks
            (chunk :: later.1, later.2)

section Deliver

variable {metadata : HttpInspection} {failure : Option HttpError} {receivedBytes : Nat}
  {chunks : List Bytes}

theorem receiveChunk_ok {chunk : Bytes} {received : Nat}
    (h : receiveChunk metadata receivedBytes chunk = .ok received) :
    received = receivedBytes + chunk.length := by
  unfold receiveChunk at h
  split at h
  · cases h
  · split at h
    · cases h
    · cases h
      rfl

theorem finishBody_ok (h : finishBody metadata receivedBytes failure = .ok ()) :
    failure = none ∧ ∀ length ∈ metadata.contentLength, length = receivedBytes := by
  unfold finishBody at h
  split at h
  · cases h
  · split at h
    · cases h
    · rename_i agrees
      refine ⟨rfl, fun length known => ?_⟩
      rw [known] at agrees
      simpa using agrees

/-- Whatever is handed out is a front of what was sent. -/
theorem deliver_leads :
    (deliver metadata failure receivedBytes chunks).1.flatten <+: chunks.flatten := by
  induction chunks generalizing receivedBytes with
  | nil => exact List.nil_prefix
  | cons chunk chunks ih =>
    unfold deliver
    split
    · rename_i empty
      rw [empty, List.flatten_cons, List.nil_append]
      exact ih
    · split
      · exact List.nil_prefix
      · rw [List.flatten_cons, List.flatten_cons, List.prefix_append_right_inj]
        exact ih

/-- A body that ends well was handed out whole, and is as long as was announced. -/
theorem deliver_whole (ended : (deliver metadata failure receivedBytes chunks).2 = .ok ()) :
    (deliver metadata failure receivedBytes chunks).1.flatten = chunks.flatten ∧ failure = none ∧
      ∀ length ∈ metadata.contentLength, length = receivedBytes + chunks.flatten.length := by
  induction chunks generalizing receivedBytes with
  | nil =>
    obtain ⟨unfailed, announced⟩ := finishBody_ok ended
    exact ⟨rfl, unfailed, announced⟩
  | cons chunk chunks ih =>
    unfold deliver at ended ⊢
    split at ended
    · rename_i empty
      obtain ⟨whole, unfailed, announced⟩ := ih ended
      rw [if_pos empty, empty, List.flatten_cons, List.nil_append]
      exact ⟨whole, unfailed, announced⟩
    · rename_i filled
      rw [if_neg filled]
      split at ended
      · cases ended
      · rename_i received taken
        obtain ⟨whole, unfailed, announced⟩ := ih ended
        rw [List.flatten_cons, whole, List.flatten_cons]
        refine ⟨rfl, unfailed, fun length known => ?_⟩
        have total := announced length known
        have counted := receiveChunk_ok taken
        rw [List.length_append]
        omega

end Deliver

end Gunda.Http
