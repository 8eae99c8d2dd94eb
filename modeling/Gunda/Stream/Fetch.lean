import Gunda.Http.Client
import Gunda.Lib.Trace
import Gunda.Stream.Plan

/-!
# Fetching and planning a manifest

`StreamExecutor::plan` of `gunda-stream/src/executor.rs`: the manifest of a job
is read, and of a master playlist the playlists of the chosen variant and
rendition as well. The trace keeps every exchange, and a mark where a manifest
just read is planned against a base.
-/
namespace Gunda.Stream

open Gunda.Lib Gunda.Lib.Text
open Gunda.Core (Url RequestContext RequestHeader DownloadFailure)
open Gunda.Http (HttpError Exchange Response HttpInspection)

inductive PlanningOp where
  | exchange (request : Exchange)
  /-- The manifest just read is planned against a base; without effect. -/
  | planned (base : Url)
  deriving DecidableEq

abbrev PlanningOp.Answer : PlanningOp → Type
  | .exchange _ => Except HttpError Response
  | .planned _ => Unit

abbrev PlanningTrace : Type := Trace PlanningOp PlanningOp.Answer

abbrev Planning (ε α : Type) : Type := Fallible PlanningOp PlanningOp.Answer ε α

/-! ## Failures -/

def httpFailure (error : HttpError) : DownloadFailure :=
  let message := "a segmented media request failed"
  match error with
  | .unexpectedStatus status =>
      if 400 ≤ status ∧ status < 500 then ⟨.remoteRejected, message, false⟩
      else ⟨.network, message, true⟩
  | .timeout | .transport | .redirect => ⟨.network, message, true⟩
  | .invalidRequest | .configuration => ⟨.internal, message, false⟩
  | .invalidMetadata | .unsupportedEncoding | .bodyLengthMismatch | .byteCountOverflow =>
      ⟨.invalidResponse, message, false⟩

def UnsupportedFeature.message : UnsupportedFeature → String
  | .encryptedSegments => "encrypted segments are not supported"
  | .dataUriSegments => "inline data segments are not supported"
  | .segmentIndex => "segment-index addressing requires a range index that is not supported"
  | .separateTracks => "separate audio and video tracks require muxing"
  | .multiPeriod => "multi-period presentations are not supported"
  | .incompletePresentation => "the presentation is not finished and cannot be captured"

def manifestFailure : ManifestError → DownloadFailure
  | .unsupported feature => ⟨.unsupportedResource, feature.message, false⟩
  | .notAManifest | .ambiguousPlaylist =>
      ⟨.unsupportedResource, "the resource is not a supported segmented-stream manifest", false⟩
  | .malformed | .invalidByteRange | .invalidNumber =>
      ⟨.invalidResponse, "the media manifest is malformed", false⟩
  | .selectionUnavailable =>
      ⟨.invalidResponse, "the selected quality is no longer available", false⟩
  | .tooManySegments =>
      ⟨.unsupportedResource, "the media manifest contains too many segments", false⟩

def notTextual : DownloadFailure := ⟨.invalidResponse, "the media manifest is not valid text", false⟩

def tooLarge : DownloadFailure :=
  ⟨.unsupportedResource, "the media manifest is too large to be a manifest", false⟩

def nestedMaster : DownloadFailure :=
  ⟨.unsupportedResource, "nested master playlists are not supported", false⟩

def maxManifestBytes : Nat := 8 * 1024 * 1024

/-! ## Reading a manifest -/

/-- The source's loop over the blocks of a body; empty blocks are skipped. -/
def collectManifest (metadata : HttpInspection) (failure : Option HttpError) :
    Bytes → List Bytes → Except DownloadFailure Bytes
  | bytes, [] =>
      ((Http.finishBody metadata bytes.length failure).mapError httpFailure).map fun _ => bytes
  | bytes, chunk :: chunks =>
      if chunk = [] then collectManifest metadata failure bytes chunks
      else do
        let _ ← (Http.receiveChunk metadata bytes.length chunk).mapError httpFailure
        if maxManifestBytes < bytes.length + chunk.length then
          throw tooLarge
        collectManifest metadata failure (bytes ++ chunk) chunks

def manifestText (bytes : Bytes) : Except DownloadFailure Text :=
  match fromUtf8 bytes with
  | some text => .ok text
  | none => .error notTextual

def exchange (request : Exchange) :
    Program PlanningOp PlanningOp.Answer (Except HttpError Response) :=
  Program.perform (PlanningOp.exchange request)

def planned (base : Url) : Planning DownloadFailure Unit := Fallible.perform (PlanningOp.planned base)

/-- A computation that performs nothing. -/
def pureResult {ε α : Type} (result : Except ε α) : Planning ε α := ExceptT.mk (pure result)

variable (urls : Http.UrlLibrary) (decimals : Decimals)

def openManifest (request : RequestContext) :
    Planning DownloadFailure (Bytes × Option Text) := do
  let (response, metadata) ← ExceptT.adapt httpFailure (Http.openBody urls exchange request)
  let bytes ← pureResult (collectManifest metadata response.failure [] response.chunks)
  pure (bytes, metadata.contentType)

/-- Headers travel to the manifest's own origin only, without those that describe
the manifest request. -/
def segmentRequest (url manifestUrl : Url) (headers : List RequestHeader) : RequestContext :=
  let carried := if urls.sameOrigin url manifestUrl then
      headers.filter fun header =>
        toAsciiLowercase header.name.toList ∉
          ["range", "if-range", "host", "content-length"].map String.toList
    else []
  ⟨url, carried, none⟩

/-! ## Planning -/

/-- What planning asks of the `url` crate. -/
def resolver : UrlLibrary := ⟨urls.join, urls.scheme, urls.path⟩

def fetchMediaPlaylist (url base : Url) (request : RequestContext) (track : Nat)
    (bandwidth declaredTotal : Option Nat) : Planning DownloadFailure TrackPlan := do
  let playlistRequest := segmentRequest urls url base request.headers
  let (bytes, _) ← openManifest urls playlistRequest
  let text ← pureResult (manifestText bytes)
  let playlist ← pureResult ((Hls.parse decimals text).mapError manifestFailure)
  planned url
  match ← pureResult ((planHls (resolver urls) decimals url playlist).mapError manifestFailure) with
  | .ready plan =>
      pure (((plan.retracked track).withBandwidth bandwidth).withDeclaredTotal declaredTotal)
  | .fetchVariant .. => throw nestedMaster

/-- The playlists a master playlist points at. -/
def fetchVariant (url base : Url) (request : RequestContext)
    (bandwidth declaredTotal : Option Nat) (audio : Option Url) :
    Planning DownloadFailure TrackPlan := do
  let video ← fetchMediaPlaylist urls decimals url base request 0 bandwidth declaredTotal
  match audio with
  | none => pure video
  | some audio => do
      let track ← fetchMediaPlaylist urls decimals audio base request 1 none none
      pureResult ((video.withAudio track).mapError manifestFailure)

def planExecution (request : RequestContext) :
    Planning DownloadFailure (TrackPlan × Option Text) := do
  let (bytes, contentType) ← openManifest urls request
  let base := request.url
  let text ← pureResult (manifestText bytes)
  if (stripPrefix "#EXTM3U".toList (trimStart text)).isNone then
    let mpd ← pureResult ((Dash.parse decimals text).mapError manifestFailure)
    planned base
    let plan ← pureResult
      ((planDashSelected (resolver urls) base mpd request.selection).mapError manifestFailure)
    pure (plan, contentType)
  else
    let playlist ← pureResult ((Hls.parse decimals text).mapError manifestFailure)
    planned base
    match ← pureResult ((planHlsSelected (resolver urls) decimals base playlist
        request.selection).mapError manifestFailure) with
    | .ready plan => pure (plan, contentType)
    | .fetchVariant url _ bandwidth declaredTotal audio => do
        let plan ← fetchVariant urls decimals url base request bandwidth declaredTotal audio
        pure (plan, contentType)

end Gunda.Stream
