import Gunda.Stream.Fingerprint
import Gunda.Stream.Transfer

/-!
# Preparing a segmented download

`StreamExecutor::prepare` of `gunda-stream/src/executor.rs`: the presentation is
planned and measured, and saved progress is accepted or refused.
-/
namespace Gunda.Stream

open Gunda.Lib
open Gunda.Core (Url RequestContext DownloadFailure DownloadDestination ResolvedDestination
  RepositoryErrorKind ExecutionInput)
open Gunda.Http (HttpError HttpInspection)

inductive PrepareOp where
  /-- The manifest is read and planned. -/
  | plan (request : RequestContext)
  /-- The first bytes of the first resource are read. -/
  | container (request : RequestContext) (plan : TrackPlan)
  | inspect (request : RequestContext)
  /-- The total that the answer to one byte names. -/
  | openByteRange (request : RequestContext) (first last : Nat)
  | openMetadata (request : RequestContext)
  | planDestination (url : Url) (destination : DownloadDestination) (container : Option Container)
  | findState
  | initializeState (fingerprint : PlanFingerprint) (trackCount : Nat)

abbrev PrepareOp.Answer : PrepareOp → Type
  | .plan _ => Except DownloadFailure (TrackPlan × Option Text)
  | .container .. => Option Container
  | .inspect _ | .openMetadata _ => Except HttpError HttpInspection
  | .openByteRange .. => Except HttpError Nat
  | .planDestination .. => Except DownloadFailure (DownloadDestination × ResolvedDestination)
  | .findState => Except RepositoryErrorKind (Option StreamResumeState)
  | .initializeState .. => Except RepositoryErrorKind StreamResumeState

abbrev Preparing (α : Type) : Type := Fallible PrepareOp PrepareOp.Answer DownloadFailure α

namespace Prepare

def perform (op : PrepareOp) : Preparing op.Answer := Fallible.perform op

def attempt {ε α : Type} (failure : ε → DownloadFailure) : Except ε α → Preparing α
  | .ok value => pure value
  | .error error => throw (failure error)

end Prepare

open Prepare

/-! ## The size of the media -/

def maxProbedResources : Nat := 512

section

variable (urls : Http.UrlLibrary)

/-- A resource without a declared length is asked for it in three ways. -/
def resourceLength (request : RequestContext) : Preparing (Option Nat) := do
  match (← Prepare.perform (.inspect request)).toOption.bind (·.contentLength) with
  | some length => pure (some length)
  | none =>
      match ← Prepare.perform (.openByteRange request 0 0) with
      | .ok total => pure (some total)
      | .error _ => do
          let opened ← Prepare.perform (.openMetadata request)
          pure (opened.toOption.bind (·.contentLength))

def lengthOf (request : RequestContext) (resource : StreamResource) : Preparing (Option Nat) :=
  match resource.knownLength with
  | some length => pure (some length)
  | none => resourceLength (segmentRequest urls resource.url request.url request.headers)

/-- The sum of the lengths; a probe that failed leaves it unknown. -/
def measureResources (request : RequestContext) :
    List StreamResource → Nat → Preparing (Option Nat)
  | [], total => pure (some total)
  | resource :: rest, total => do
      match ← lengthOf urls request resource with
      | none => pure none
      | some length =>
          if maxU64 < total + length then pure none
          else measureResources request rest (total + length)

def measure (request : RequestContext) (plan : TrackPlan) : Preparing (Option Nat) :=
  match plan.knownTotalBytes with
  | some total => pure (some total)
  | none =>
      if maxProbedResources < plan.resources.length then pure none
      else measureResources urls request plan.resources 0

/-! ## Saved progress -/

def validateTrackBounds (state : StreamResumeState) (plan : TrackPlan) : Bool :=
  state.tracks.zipIdx.all fun (checkpoint, track) =>
    checkpoint.nextResource ≤ (plan.resourcesOf track).length

/-- The row of an earlier attempt at this presentation, or a new one. -/
def loadState (fingerprint : PlanFingerprint) (plan : TrackPlan) :
    Preparing StreamResumeState := do
  let found ← Prepare.attempt (storageFailureWith "could not load segmented resume state")
    (← Prepare.perform .findState)
  match found with
  | some state =>
      if state.fingerprint ≠ fingerprint ∨ state.tracks.length ≠ plan.trackCount then
        throw (recoveryIntegrity "saved progress does not match this presentation")
      else if !validateTrackBounds state plan then
        throw (recoveryIntegrity "saved segment position exceeds the presentation")
      else pure state
  | none =>
      Prepare.attempt (storageFailureWith "could not initialize segmented resume state")
        (← Prepare.perform (.initializeState fingerprint plan.trackCount))

/-- A size known exactly has to agree with the saved one and cover the durable bytes. -/
def acceptTotal (saved total : Option Nat) (estimated : Bool) (state : StreamResumeState) :
    Preparing Unit :=
  if !estimated && (saved.isSome && total.isSome && saved ≠ total) then
    throw (recoveryIntegrity "saved download size does not match the segmented media")
  else if !estimated && total.any (· < state.startingBytes) then
    throw (recoveryIntegrity "saved progress exceeds the segmented media size")
  else pure ()

structure StreamPrepared where
  tracks : PreparedTracks
  contentType : Option Text
  totalBytes : Option Nat
  totalIsEstimated : Bool
  destination : DownloadDestination
  plannedDestination : ResolvedDestination

namespace StreamPrepared

def startingBytes (prepared : StreamPrepared) : Nat :=
  (prepared.tracks.resume.map (·.startingBytes)).getD 0

def supportsPause (prepared : StreamPrepared) : Bool := prepared.tracks.resume.isSome

def stoppedProgressMayRewind (_ : StreamPrepared) : Bool := true

end StreamPrepared

variable (identity : UrlIdentity)

/-- What the measured size is taken for: exact, or else the manifest's estimate. -/
def declaredTotal (measured : Option Nat) (plan : TrackPlan) : Option Nat × Bool :=
  match measured with
  | some total => (some total, false)
  | none => (plan.estimatedTotalBytes, plan.estimatedTotalBytes.isSome)

def loadResume (input : ExecutionInput) (plan : TrackPlan) (total : Option Nat × Bool) :
    Preparing StreamResumeState := do
  let state ← loadState (PlanFingerprint.of identity plan input.request.url) plan
  acceptTotal input.progress.totalBytes total.1 total.2 state
  pure state

def prepare (stored : Bool) (input : ExecutionInput) : Preparing StreamPrepared := do
  let (plan, contentType) ← Prepare.attempt id (← Prepare.perform (.plan input.request))
  let container ← Prepare.perform (.container input.request plan)
  let measured ← measure urls input.request plan
  let total := declaredTotal measured plan
  -- tracks fetched apart are published as the one file they are muxed into
  let container := if 1 < plan.trackCount then some .mp4 else container
  let (destination, planned) ← Prepare.attempt id
    (← Prepare.perform (.planDestination input.request.url input.destination container))
  let resume ←
    if stored then some <$> loadResume identity input plan total
    else pure none
  pure ⟨⟨plan, resume⟩, contentType, total.1, total.2, destination, planned⟩

end

end Gunda.Stream
