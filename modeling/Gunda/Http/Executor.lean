import Gunda.Http.Finalize

/-!
# The direct download engine

`HttpExecutor` of `gunda-http/src/executor.rs`: an attempt is prepared from the
saved progress or from nothing, written to the partial file, and published.
-/
namespace Gunda.Http

open Gunda.Lib
open Gunda.Core (RequestContext DownloadFailure DownloadDestination ResolvedDestination
  ResourceDescriptor DownloadId DownloadJob ExecutionInput ExecutionOutput PreparedTransfer)

/-! ## Failures -/

def recoveryIntegrity (message : String) : DownloadFailure := ⟨.integrity, message, false⟩

def storageFailure (message : String) : DownloadFailure := ⟨.storage, message, false⟩

def filesystemFailure : IoErrorKind → DownloadFailure
  | .permissionDenied => ⟨.permissionDenied, "filesystem permission was denied", false⟩
  | .storageFull => ⟨.diskFull, "filesystem has insufficient free space", false⟩
  | .alreadyExists => ⟨.storage, "an output or staging path already exists", false⟩
  | .notFound => ⟨.storage, "a required filesystem path does not exist", false⟩
  | _ => ⟨.storage, "filesystem operation failed", false⟩

def finalizationFailure : FinalizeError → DownloadFailure
  | .file kind => filesystemFailure kind
  | .invalidPartial =>
      ⟨.integrity, "partial file no longer matches the transfer result", false⟩
  | .invalidFilename => storageFailure "destination filename is invalid or reserved"
  | .differentDirectory => storageFailure "staging and final output must use the same directory"
  | .nameAttemptsExhausted =>
      storageFailure "no destination name was available within the attempt limit"

def resumeFileFailure : ResumeFileError → DownloadFailure
  | .partialUnavailable kind | .outputUnavailable kind => filesystemFailure kind
  | .missingPartial => recoveryIntegrity "saved HTTP partial file is missing"
  | .partialTooShort =>
      recoveryIntegrity "saved HTTP partial file is shorter than its durable checkpoint"
  | .unsafePartial => recoveryIntegrity "saved HTTP partial path is not a regular file"
  | .outputExists => storageFailure "planned output already exists during HTTP recovery"

section Failures

variable (canonicalReason : Nat → Option String)

/-- Names the status by its canonical reason, where it has one. -/
def statusFailure (status : Nat) : DownloadFailure :=
  let reason := (canonicalReason status).getD "Unknown status"
  { kind := if status = 401 ∨ status = 403 then .authentication else .remoteRejected
    message := "HTTP " ++ String.ofList (Text.ofNat status) ++ " " ++ reason
    retryable := status = 408 ∨ status = 429 ∨ (500 ≤ status ∧ status ≤ 599) }

def httpFailure : HttpError → DownloadFailure
  | .unexpectedStatus status => statusFailure canonicalReason status
  | .configuration => ⟨.internal, "could not configure the HTTP client", false⟩
  | .invalidRequest =>
      ⟨.unsupportedResource, "request context is invalid or unsupported", false⟩
  | .timeout => ⟨.network, "HTTP request timed out", true⟩
  | .transport => ⟨.network, "HTTP transport failed", true⟩
  | .redirect => ⟨.remoteRejected, "HTTP redirect could not be followed safely", false⟩
  | .invalidMetadata => ⟨.invalidResponse, "HTTP response metadata is invalid", false⟩
  | .unsupportedEncoding => ⟨.unsupportedResource, "HTTP content encoding is unsupported", false⟩
  | .bodyLengthMismatch =>
      ⟨.integrity, "HTTP body length does not match response metadata", false⟩
  | .byteCountOverflow =>
      ⟨.unsupportedResource, "resource size exceeds the supported range", false⟩

def resumeHttpFailure : HttpError → DownloadFailure
  | .unexpectedStatus status =>
      if status = 200 ∨ status = 412 ∨ status = 416 then
        recoveryIntegrity "remote resource could not satisfy the saved HTTP checkpoint"
      else statusFailure canonicalReason status
  | error => httpFailure canonicalReason error

def partialFailure : PartialDownloadError → DownloadFailure
  | .http error => httpFailure canonicalReason error
  | .file _ kind => filesystemFailure kind
  | .invalidBodyState =>
      ⟨.internal, "transfer received an unavailable or previously consumed HTTP body", false⟩
  | .byteCountOverflow =>
      ⟨.unsupportedResource, "resource size exceeds the supported range", false⟩
  | .invalidPartial =>
      recoveryIntegrity "partial file no longer matches its durable HTTP checkpoint"
  | .resumeStore _ => storageFailure "could not persist HTTP resume state"

end Failures

/-! ## Preparation -/

abbrev Preparing (α : Type) : Type := Attempt DownloadFailure α

def exchange (request : Exchange) : Program HttpOp HttpOp.Answer (Except HttpError Response) :=
  Program.perform (HttpOp.exchange request)

inductive PreparedBody where
  | fresh (body : HttpBody)
  | resumed (body : ResumeBody) (state : HttpResumeState)

structure HttpPrepared where
  body : PreparedBody
  metadata : HttpInspection
  resource : ResourceDescriptor
  startingBytes : Nat
  destination : DownloadDestination
  plannedDestination : ResolvedDestination
  stored : Bool

namespace HttpPrepared

def supportsPause (prepared : HttpPrepared) : Bool :=
  match prepared.body with
  | .resumed .. => true
  | .fresh _ => prepared.stored && prepared.metadata.contentLength.isSome &&
      prepared.metadata.strongEtag.isSome

/-- What the manager asks of the prepared transfer. -/
def toPrepared (prepared : HttpPrepared) : PreparedTransfer where
  resource := prepared.resource
  totalBytes := prepared.metadata.contentLength
  totalBytesIsEstimated := false
  startingBytes := prepared.startingBytes
  supportsPause := prepared.supportsPause
  stoppedProgressMayRewind := false
  plannedDestination := prepared.plannedDestination

end HttpPrepared

def httpResource (previous : Option ResourceDescriptor) (metadata : HttpInspection) :
    Preparing ResourceDescriptor :=
  if previous.any (·.kind ≠ .file) then
    throw (recoveryIntegrity "saved resource type is not a direct HTTP file")
  else
    pure ⟨.file, previous.bind (·.displayName),
      (metadata.contentType.map String.ofList).orElse fun _ => previous.bind (·.contentType)⟩

def resumedMetadata (state : HttpResumeState) (contentType : Option Text) : HttpInspection :=
  ⟨some state.totalBytes, contentType, some state.strongEtag⟩

section

variable (urls : UrlLibrary) (canonicalReason : Nat → Option String)

def openFull (request : RequestContext) : Preparing HttpBody := do
  let (response, metadata) ←
    ExceptT.adapt (httpFailure canonicalReason) (openBody urls exchange request)
  pure (.new response metadata)

def prepareFresh (input : ExecutionInput) (destination : DownloadDestination)
    (planned : ResolvedDestination) (stored : Bool) : Preparing HttpPrepared := do
  let body ← openFull urls canonicalReason input.request
  let resource ← httpResource input.resource body.metadata
  pure ⟨.fresh body, body.metadata, resource, 0, destination, planned, stored⟩

/-- The body that is left to write, under the saved validator. -/
def openRemaining (input : ExecutionInput) (state : HttpResumeState) :
    Preparing (ResumeBody × HttpInspection) := do
  let savedType := input.resource.bind (·.contentType.map String.toList)
  if state.durableBytes = state.totalBytes then
    pure (.complete, resumedMetadata state savedType)
  else if state.durableBytes = 0 then
    let body ← openFull urls canonicalReason input.request
    if body.metadata.contentLength ≠ some state.totalBytes ∨
        body.metadata.strongEtag ≠ some state.strongEtag then
      throw (recoveryIntegrity "remote resource no longer matches HTTP resume state")
    pure (.full body, body.metadata)
  else
    let (response, metadata) ← ExceptT.adapt (resumeHttpFailure canonicalReason)
      (openRange urls exchange input.request state.durableBytes state.totalBytes state.strongEtag)
    pure (.range (.new response metadata),
      resumedMetadata state (metadata.contentType.orElse fun _ => savedType))

/-- A complete partial file is published next, so its planned output must be free. -/
def outputToInspect (state : HttpResumeState) (planned : ResolvedDestination) : Option String :=
  if state.durableBytes = state.totalBytes then some planned.finalPath else none

def prepareResumed (input : ExecutionInput) (destination : DownloadDestination)
    (state : HttpResumeState) : Preparing HttpPrepared := do
  if input.progress.totalBytes ≠ some state.totalBytes then
    throw (recoveryIntegrity "saved download size does not match HTTP resume state")
  if input.resource.any (·.kind ≠ .file) then
    throw (recoveryIntegrity "saved resource type is not resumable as a direct HTTP file")
  let some planned := input.resolvedDestination
    | throw (recoveryIntegrity "interrupted HTTP download has no planned destination")
  ExceptT.adapt resumeFileFailure
    (inspectResumeCandidate (outputToInspect state planned) state.durableBytes)
  let (body, metadata) ← openRemaining urls canonicalReason input state
  let resource ← httpResource input.resource metadata
  pure ⟨.resumed body state, metadata, resource, state.durableBytes, destination, planned, true⟩

/-- `HttpExecutor::prepare`, with or without a resume store. -/
def prepare (stored : Bool) (input : ExecutionInput) : Preparing HttpPrepared := do
  let (destination, planned) ←
    orFail finalizationFailure (planDestination urls input.id input.request.url input.destination)
  if !stored then
    prepareFresh urls canonicalReason input destination planned false
  else
    let found ← orFail (fun _ => storageFailure "could not load HTTP resume state")
      (← HttpOp.perform .findState)
    match found with
    | none => prepareFresh urls canonicalReason input destination planned true
    | some state => prepareResumed urls canonicalReason input destination state

/-! ## Transfer and publication -/

def transferControlled (prepared : HttpPrepared) : Preparing PartialOutcome :=
  ExceptT.adapt (partialFailure canonicalReason) (match prepared.body with
    | .fresh body => writeBodyToPartial body prepared.stored
    | .resumed body state => resumeBodyToPartial body prepared.metadata state)

def finalize (id : DownloadId) (destination : DownloadDestination) (download : PartialDownload) :
    Fallible PublishOp PublishOp.Answer DownloadFailure ExecutionOutput := do
  let finalized ←
    ExceptT.adapt finalizationFailure (publish id destination download.writtenBytes)
  pure ⟨finalized.destination, finalized.writtenBytes, finalized.partialCleanupError.isSome⟩

/-! ## Resume and restart -/

def sawOk {ε α : Type} (program : Attempt ε α) : Preparing Bool :=
  ExceptT.mk ((fun result => .ok result.isOk) <$> program.run)

def canResume (stored : Bool) (job : DownloadJob) : Preparing Bool := do
  if (job.state ≠ .paused ∧ job.state ≠ .interrupted) ∨
      (urls.scheme job.request.url ≠ "http".toList ∧
        urls.scheme job.request.url ≠ "https".toList) ∨
      job.resource.any (·.kind ≠ .file) then
    pure false
  else if !stored then
    pure false
  else
    let found ← orFail (fun _ => storageFailure "could not inspect HTTP resume state")
      (← HttpOp.perform .findState)
    match found, job.resolvedDestination with
    | some state, some destination =>
        if job.progress.totalBytes ≠ some state.totalBytes then
          pure false
        else sawOk (inspectResumeCandidate (outputToInspect state destination) state.durableBytes)
    | _, _ => pure false

end

inductive RestartResetError where
  | partialFile (kind : IoErrorKind)
  | resumeStorage (kind : Core.RepositoryErrorKind)
  deriving DecidableEq, Repr

/-- The partial file goes first, then the row that describes it. -/
def resetForRestart (stored : Bool) : Attempt RestartResetError Unit := do
  ExceptT.adapt .partialFile removePartialForRestart
  if stored then
    orFail .resumeStorage (← HttpOp.perform .clearState)

end Gunda.Http
