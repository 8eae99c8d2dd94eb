import Gunda.Storage.PathCodec

/-!
# The columns of a download

The rows of the `downloads` and `download_headers` tables, their constraints in the migrations,
and the encoders and decoders of `gunda-storage/src/repository.rs`. A timestamp is the
nanoseconds since the epoch.
-/
namespace Gunda.Storage

open Gunda.Lib
open Gunda.Core (RepositoryError DownloadId DownloadState DownloadOrigin DownloadProgress
  DownloadFailure DownloadJob ExecutionSelection FailureKind FileConflictPolicy NewDownload
  OffsetDateTime RequestHeader ResolvedDestination ResourceDescriptor ResourceKind Url)

def invalidData (message : String) : RepositoryError := ⟨.invalidData, message⟩

def internalError (message : String) : RepositoryError := ⟨.internal, message⟩

/-! ## Names -/

def encodeOrigin : DownloadOrigin → String × Option Text × Option String
  | .desktop => ("desktop", none, none)
  | .cli => ("cli", none, none)
  | .browser pageUrl pageTitle => ("browser", some pageUrl.serialization, pageTitle)

def encodeConflictPolicy : FileConflictPolicy → String
  | .rename => "rename"
  | .overwrite => "overwrite"
  | .fail => "fail"

def decodeConflictPolicy : String → Except RepositoryError FileConflictPolicy
  | "rename" => .ok .rename
  | "overwrite" => .ok .overwrite
  | "fail" => .ok .fail
  | _ => .error (invalidData "stored conflict policy is invalid")

theorem decode_encodeConflictPolicy (policy : FileConflictPolicy) :
    decodeConflictPolicy (encodeConflictPolicy policy) = .ok policy := by
  cases policy <;> rfl

def encodeState : DownloadState → String
  | .queued => "queued"
  | .inspecting => "inspecting"
  | .downloading => "downloading"
  | .paused => "paused"
  | .finalizing => "finalizing"
  | .completed => "completed"
  | .failed => "failed"
  | .cancelled => "cancelled"
  | .interrupted => "interrupted"

def decodeState : String → Except RepositoryError DownloadState
  | "queued" => .ok .queued
  | "inspecting" => .ok .inspecting
  | "downloading" => .ok .downloading
  | "paused" => .ok .paused
  | "finalizing" => .ok .finalizing
  | "completed" => .ok .completed
  | "failed" => .ok .failed
  | "cancelled" => .ok .cancelled
  | "interrupted" => .ok .interrupted
  | _ => .error (invalidData "stored lifecycle state is invalid")

theorem decode_encodeState (state : DownloadState) : decodeState (encodeState state) = .ok state := by
  cases state <;> rfl

def encodeResourceKind : ResourceKind → String
  | .unknown => "unknown"
  | .file => "file"
  | .hls => "hls"
  | .dash => "dash"

def decodeResourceKind : String → Except RepositoryError ResourceKind
  | "unknown" => .ok .unknown
  | "file" => .ok .file
  | "hls" => .ok .hls
  | "dash" => .ok .dash
  | _ => .error (invalidData "stored resource kind is invalid")

theorem decode_encodeResourceKind (kind : ResourceKind) :
    decodeResourceKind (encodeResourceKind kind) = .ok kind := by
  cases kind <;> rfl

def encodeFailureKind : FailureKind → String
  | .network => "network"
  | .authentication => "authentication"
  | .remoteRejected => "remote_rejected"
  | .invalidResponse => "invalid_response"
  | .unsupportedResource => "unsupported_resource"
  | .permissionDenied => "permission_denied"
  | .diskFull => "disk_full"
  | .integrity => "integrity"
  | .storage => "storage"
  | .internal => "internal"

def decodeFailureKind : String → Except RepositoryError FailureKind
  | "network" => .ok .network
  | "authentication" => .ok .authentication
  | "remote_rejected" => .ok .remoteRejected
  | "invalid_response" => .ok .invalidResponse
  | "unsupported_resource" => .ok .unsupportedResource
  | "permission_denied" => .ok .permissionDenied
  | "disk_full" => .ok .diskFull
  | "integrity" => .ok .integrity
  | "storage" => .ok .storage
  | "internal" => .ok .internal
  | _ => .error (invalidData "stored failure kind is invalid")

theorem decode_encodeFailureKind (kind : FailureKind) :
    decodeFailureKind (encodeFailureKind kind) = .ok kind := by
  cases kind <;> rfl

/-! ## Numbers -/

/-- `OffsetDateTime::from_unix_timestamp_nanos`: only the years from -9999 to 9999 exist. -/
def fromUnixTimestampNanos (nanos : Int) : Option OffsetDateTime :=
  if -377705116800000000000 ≤ nanos ∧ nanos < 253402300800000000000 then some nanos else none

def encodeTimestamp (timestamp : OffsetDateTime) : Except RepositoryError Int :=
  let milliseconds := timestamp / 1000000
  if -2 ^ 63 ≤ milliseconds ∧ milliseconds < 2 ^ 63 then .ok milliseconds
  else .error ⟨.constraintViolation, "download timestamp is outside the supported range"⟩

def decodeTimestamp (milliseconds : Int) : Except RepositoryError OffsetDateTime :=
  match fromUnixTimestampNanos (milliseconds * 1000000) with
  | none => .error (invalidData "stored download timestamp is invalid")
  | some timestamp => .ok timestamp

def encodeByteCount (value : Nat) : Except RepositoryError Int :=
  if value < 2 ^ 63 then .ok value
  else .error ⟨.constraintViolation, "download byte count exceeds the storage range"⟩

def decodeByteCount (value : Int) : Except RepositoryError Nat :=
  if value < 0 then .error (invalidData "stored byte count is negative") else .ok value.toNat

/-! ## Rows -/

structure DownloadRow where
  id : Int
  sourceUrl : Text
  origin : String
  sourcePageUrl : Option Text
  sourcePageTitle : Option String
  destinationDirectory : Bytes
  preferredFilename : Option String
  conflictPolicy : String
  state : String
  downloadedBytes : Int
  totalBytes : Option Int
  createdAtUnixMs : Int
  updatedAtUnixMs : Int
  resolvedDestinationPath : Option Bytes
  resourceKind : Option String
  resourceDisplayName : Option String
  resourceContentType : Option String
  lastFailureKind : Option String
  lastFailureMessage : Option String
  lastFailureRetryable : Option Int
  executionSelection : Option Text
  deriving DecidableEq

structure HeaderRow where
  downloadId : Int
  position : Int
  name : String
  value : String
  sensitivity : String
  deriving DecidableEq

/-- `length` of SQLite counts the characters in front of the first NUL. -/
def sqlLength (text : Text) : Nat := (text.takeWhile (· ≠ Char.ofNat 0)).length

namespace DownloadRow

/-- The constraints of the first migration. -/
def meetsCreation (row : DownloadRow) : Bool :=
  0 < row.id && ["desktop", "cli", "browser"].contains row.origin &&
    ["rename", "overwrite", "fail"].contains row.conflictPolicy &&
    ["queued", "inspecting", "downloading", "paused", "finalizing", "completed", "failed",
      "cancelled", "interrupted"].contains row.state &&
    0 ≤ row.downloadedBytes && row.totalBytes.all (0 ≤ ·) &&
    row.totalBytes.all (row.downloadedBytes ≤ ·) &&
    ((row.origin = "browser" && row.sourcePageUrl.isSome) ||
      (["desktop", "cli"].contains row.origin && row.sourcePageUrl.isNone &&
        row.sourcePageTitle.isNone))

/-- The constraints of the second migration. -/
def meetsExecution (row : DownloadRow) : Bool :=
  row.resourceKind.all (["unknown", "file", "hls", "dash"].contains ·) &&
    (row.resourceKind.isSome || (row.resourceDisplayName.isNone && row.resourceContentType.isNone)) &&
    row.lastFailureKind.all (["network", "authentication", "remote_rejected", "invalid_response",
      "unsupported_resource", "permission_denied", "disk_full", "integrity", "storage",
      "internal"].contains ·) &&
    ((row.lastFailureKind.isNone && row.lastFailureMessage.isNone &&
        row.lastFailureRetryable.isNone) ||
      (row.lastFailureKind.isSome && row.lastFailureMessage.isSome &&
        row.lastFailureRetryable.any fun retryable => retryable = 0 || retryable = 1))

/-- The constraint of the fourth migration. -/
def meetsSelection (row : DownloadRow) : Bool :=
  row.executionSelection.all fun selection => 1 ≤ sqlLength selection && sqlLength selection ≤ 128

def meetsChecks (row : DownloadRow) : Bool :=
  row.meetsCreation && row.meetsExecution && row.meetsSelection

end DownloadRow

/-! ## Stored downloads -/

def isSensitive (header : RequestHeader) : Bool := header.sensitivity = .sensitive

def ensurePersistable (download : NewDownload) : Except RepositoryError Unit :=
  if download.request.headers.any isSensitive then
    .error ⟨.sensitiveDataUnsupported, "sensitive request headers cannot be persisted yet"⟩
  else .ok ()

def decodeHeader (row : HeaderRow) : Except RepositoryError RequestHeader :=
  if row.sensitivity ≠ "public" then
    .error (invalidData "stored request header has unsupported sensitivity")
  else .ok ⟨row.name, row.value, .public⟩

section Stored

variable (codec : PathCodec String) (parse : Text → Option Url)

def decodeOrigin (origin : String) (pageUrl : Option Text) (pageTitle : Option String) :
    Except RepositoryError DownloadOrigin :=
  match origin, pageUrl, pageTitle with
  | "desktop", none, none => .ok .desktop
  | "cli", none, none => .ok .cli
  | "browser", none, _ => .error (invalidData "stored browser origin has no page URL")
  | "browser", some pageUrl, pageTitle => match parse pageUrl with
      | none => .error (invalidData "stored browser page URL is invalid")
      | some pageUrl => .ok (.browser pageUrl pageTitle)
  | _, _, _ => .error (invalidData "stored download origin is invalid")

namespace DownloadRow

def decodeSelection (row : DownloadRow) : Except RepositoryError (Option ExecutionSelection) :=
  match row.executionSelection with
  | none => .ok none
  | some value => match ExecutionSelection.new value with
      | none => .error (invalidData "stored execution selection is invalid")
      | some selection => .ok (some selection)

def toNewDownload (row : DownloadRow) (headers : List RequestHeader) :
    Except RepositoryError NewDownload := do
  let url ← match parse row.sourceUrl with
    | none => .error (invalidData "stored source URL is invalid")
    | some url => .ok url
  let origin ← decodeOrigin parse row.origin row.sourcePageUrl row.sourcePageTitle
  let directory ← codec.decode row.destinationDirectory
  let conflictPolicy ← decodeConflictPolicy row.conflictPolicy
  let selection ← row.decodeSelection
  return ⟨⟨url, headers, selection⟩, ⟨directory, row.preferredFilename, conflictPolicy⟩, origin⟩

def downloadId (row : DownloadRow) : Except RepositoryError DownloadId :=
  if h : 0 < row.id then .ok ⟨row.id, h⟩
  else .error (invalidData "stored donwnload has an invalid ID")

def decodeResource (row : DownloadRow) : Except RepositoryError (Option ResourceDescriptor) :=
  match row.resourceKind with
  | some kind => do
      let kind ← decodeResourceKind kind
      return some ⟨kind, row.resourceDisplayName, row.resourceContentType⟩
  | none =>
      if row.resourceDisplayName.isNone ∧ row.resourceContentType.isNone then .ok none
      else .error (invalidData "stored resource metadata is incomplete")

def decodeFailure (row : DownloadRow) : Except RepositoryError (Option DownloadFailure) :=
  match row.lastFailureKind, row.lastFailureMessage, row.lastFailureRetryable with
  | none, none, none => .ok none
  | some kind, some message, some retryable =>
      if retryable = 0 ∨ retryable = 1 then do
        let kind ← decodeFailureKind kind
        return some ⟨kind, message, retryable = 1⟩
      else .error (invalidData "stored failure metadata is invalid")
  | _, _, _ => .error (invalidData "stored failure metadata is invalid")

def toJob (row : DownloadRow) (id : DownloadId) (headers : List RequestHeader) :
    Except RepositoryError DownloadJob := do
  let download ← row.toNewDownload codec parse headers
  match ensurePersistable download with
  | .error _ => throw (invalidData "stored request context is not supported")
  | .ok () => pure ()
  let downloadedBytes ← decodeByteCount row.downloadedBytes
  let totalBytes ← row.totalBytes.mapM decodeByteCount
  let progress ← match DownloadProgress.new downloadedBytes totalBytes with
    | .error _ => .error (invalidData "stored progress is invalid")
    | .ok progress => .ok progress
  let resolved ← row.resolvedDestinationPath.mapM codec.decode
  let resource ← row.decodeResource
  let state ← decodeState row.state
  let failure ← row.decodeFailure
  let createdAt ← decodeTimestamp row.createdAtUnixMs
  let updatedAt ← decodeTimestamp row.updatedAtUnixMs
  return {
    id := id
    request := download.request
    origin := download.origin
    destination := download.destination
    resolvedDestination := resolved.map ResolvedDestination.mk
    resource := resource
    state := state
    progress := progress
    lastFailure := failure
    createdAt := createdAt
    updatedAt := updatedAt }

end DownloadRow

end Stored

end Gunda.Storage
