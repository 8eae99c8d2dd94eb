import Gunda.Stream.Fetch
import Gunda.Stream.Resume
import Gunda.Stream.Ts.Elementary

/-!
# Transferring a segmented download

`StreamPreparedTransfer` of `gunda-stream/src/executor.rs`: every resource of a
track is appended to the track's staging file, with a checkpoint after some of
them. The loop over a body's blocks is a recursion on the blocks the origin sends.
-/
namespace Gunda.Stream

open Gunda.Lib
open Gunda.Core (Url RequestContext RequestHeader DownloadFailure RepositoryErrorKind
  DownloadControlRequest)
open Gunda.Http (HttpError)

/-- The files a job stages its media in. -/
inductive StagingPath where
  | partialPath | videoPath | audioPath
  deriving DecidableEq, Repr

def trackPath (track : Nat) : StagingPath := if track = 1 then .audioPath else .videoPath

def stagedPath (track trackCount : Nat) : StagingPath :=
  if trackCount = 1 then .partialPath else trackPath track

inductive FileType where
  | regular | other
  deriving DecidableEq, Repr

/-- The blocks of a body and the failure that cuts it short. -/
structure SegmentBody where
  chunks : List Bytes
  failure : Option HttpError
  deriving DecidableEq, Repr

inductive TransferOp where
  /-- Whether a stop was requested before the next resource. -/
  | isRequested
  | requestKind
  /-- Whether a stop wins over the next block of a body, perhaps with part of the block
  in the file. -/
  | stopped (path : StagingPath)
  /-- Whether a second has passed since the last checkpoint. -/
  | checkpointElapsed
  | openBody (request : RequestContext) (interval : Option (Nat × Nat))
  | report (writtenBytes : Nat)
  | fileType (path : StagingPath)
  | createNew (path : StagingPath)
  | openExisting (path : StagingPath)
  | length (path : StagingPath)
  | setLen (path : StagingPath) (bytes : Nat)
  | seekEnd (path : StagingPath)
  | write (path : StagingPath) (block : Bytes)
  | flush (path : StagingPath)
  | syncAll (path : StagingPath)
  | removeFile (path : StagingPath)
  | saveState (state : StreamResumeState)
  | clearState
  | muxMp4 (video audio output : StagingPath)
  deriving DecidableEq

abbrev TransferOp.Answer : TransferOp → Type
  | .isRequested | .stopped _ | .checkpointElapsed => Bool
  | .requestKind => Option DownloadControlRequest
  | .openBody .. => Except HttpError SegmentBody
  | .report _ => Unit
  | .fileType _ => Except IoErrorKind FileType
  | .length _ => Except IoErrorKind Nat
  | .createNew _ | .openExisting _ | .setLen .. | .seekEnd _ | .write .. | .flush _ | .syncAll _
  | .removeFile _ => Except IoErrorKind Unit
  | .saveState _ => Except RepositoryErrorKind StreamResumeState
  | .clearState => Except RepositoryErrorKind Unit
  | .muxMp4 .. => Except MuxError Nat

abbrev Transfer (α : Type) : Type := Fallible TransferOp TransferOp.Answer DownloadFailure α

/-! ## Failures -/

def sizeOverflow : DownloadFailure :=
  ⟨.internal, "the staged media size exceeds the supported range", false⟩

def recoveryIntegrity (message : String) : DownloadFailure := ⟨.integrity, message, false⟩

def storageFailureWith (message : String) (kind : RepositoryErrorKind) : DownloadFailure :=
  ⟨.storage, message, kind = .internal ∨ kind = .unavailable⟩

def stagingFailure (error : IoErrorKind) : DownloadFailure :=
  let message := "could not stage segmented media"
  match error with
  | .permissionDenied => ⟨.permissionDenied, message, false⟩
  | .alreadyExists => ⟨.storage, message, false⟩
  | _ => ⟨.storage, message, true⟩

def internalFailure (message : String) : DownloadFailure := ⟨.internal, message, false⟩

def muxFailure : MuxError → DownloadFailure
  | .malformed _ | .unsupported _ =>
      ⟨.invalidResponse, "the separate tracks are not a form that can be combined into one file",
        false⟩
  | .tooLarge =>
      ⟨.unsupportedResource, "the separate tracks are too large to be combined into one file", false⟩
  | .io _ => stagingFailure .other

/-! ## Files -/

def perform (op : TransferOp) : Transfer op.Answer := Fallible.perform op

/-- An operation whose error ends the transfer. -/
def attempt {ε α : Type} (failure : ε → DownloadFailure) : Except ε α → Transfer α
  | .ok value => pure value
  | .error error => throw (failure error)

def createTrack (path : StagingPath) : Transfer Unit := do
  attempt stagingFailure (← perform (.createNew path))

def flushTrack (path : StagingPath) : Transfer Unit := do
  attempt stagingFailure (← perform (.flush path))

def setTrackLen (path : StagingPath) (bytes : Nat) : Transfer Unit := do
  attempt stagingFailure (← perform (.setLen path bytes))

def seekTrackEnd (path : StagingPath) : Transfer Unit := do
  attempt stagingFailure (← perform (.seekEnd path))

def syncTrack (path : StagingPath) : Transfer Unit := do
  attempt stagingFailure (← perform (.syncAll path))

/-- Opens the file at the end of its durable bytes. -/
def continueTrack (path : StagingPath) (durableBytes : Nat) : Transfer Unit := do
  attempt stagingFailure (← perform (.openExisting path))
  let length ← attempt stagingFailure (← perform (.length path))
  if length < durableBytes then
    throw (recoveryIntegrity "staged segmented media is shorter than saved progress")
  if durableBytes < length then
    setTrackLen path durableBytes
  seekTrackEnd path

def openTrack (path : StagingPath) (durableBytes : Nat) (resuming : Bool) : Transfer Unit := do
  if !resuming then
    createTrack path
  else
    match ← perform (.fileType path) with
    | .ok .regular => continueTrack path durableBytes
    | .ok .other => throw (recoveryIntegrity "staged segmented media is not a regular file")
    | .error .notFound =>
        if durableBytes = 0 then createTrack path
        else throw (recoveryIntegrity "staged segmented media is missing")
    | .error error => throw (stagingFailure error)

def truncateTrack (path : StagingPath) (bytes : Nat) : Transfer Unit := do
  flushTrack path
  setTrackLen path bytes
  seekTrackEnd path

/-- Saves the checkpoint; a transfer always has the store its resume state came from. -/
def saveTrack (state : StreamResumeState) (track : Nat) (checkpoint : TrackCheckpoint) :
    Transfer StreamResumeState := do
  match state.withTrack track checkpoint with
  | none => throw (recoveryIntegrity "segmented checkpoint cannot move backwards")
  | some candidate =>
      let persisted ← attempt (storageFailureWith "could not save segmented progress")
        (← perform (.saveState candidate))
      if persisted ≠ candidate then
        throw (storageFailureWith "segmented progress was not stored as written" .invalidData)
      pure persisted

def checkpointTrack (path : StagingPath) (resume : Option StreamResumeState) (track : Nat)
    (checkpoint : TrackCheckpoint) : Transfer (Option StreamResumeState) := do
  flushTrack path
  syncTrack path
  match resume with
  | none => pure none
  | some state => some <$> saveTrack state track checkpoint

def removeStagingFile (path : StagingPath) : Transfer (Except IoErrorKind Unit) := do
  match ← perform (.fileType path) with
  | .ok .regular => perform (.removeFile path)
  | .ok .other => pure (.error .invalidInput)
  | .error .notFound => pure (.ok ())
  | .error error => pure (.error error)

def cleanupStaging (paths : List StagingPath) (stored : Bool) : Transfer Unit := do
  paths.forM fun path => do let _ ← removeStagingFile path
  if stored then
    let _ ← perform .clearState

/-! ## One track -/

/-- How the blocks of a body came to an end. -/
inductive BodyEnd where
  | stopped
  | failed (failure : DownloadFailure)
  | complete (written : Nat)

def checkedAdd (a b : Nat) : Transfer Nat :=
  if maxU64 < a + b then throw sizeOverflow else pure (a + b)

/-- Appends the blocks to the file, each unless a stop comes first. -/
def appendBody (path : StagingPath) (base : Nat) (failure : Option HttpError) :
    List Bytes → Nat → Transfer BodyEnd
  | chunks, written => do
      if ← perform (.stopped path) then
        pure .stopped
      else
        match chunks with
        | [] => pure (match failure with
            | none => .complete written
            | some error => .failed (httpFailure error))
        | chunk :: rest =>
            match ← perform (.write path chunk) with
            | .error error => pure (.failed (stagingFailure error))
            | .ok () =>
                let written ← checkedAdd written chunk.length
                let reported ← checkedAdd base written
                perform (.report reported)
                appendBody path base failure rest written

/-- The counters of the loop over a track's resources. -/
structure TrackCursor where
  nextResource : Nat
  written : Nat
  lastCheckpointBytes : Nat
  resume : Option StreamResumeState

structure TrackResult where
  written : Nat
  stopped : Bool
  resume : Option StreamResumeState
  deriving DecidableEq

def checkpointInterval : Nat := 8 * 1024 * 1024

/-- Whether the resource just written is followed by a checkpoint. -/
def checkpointDue (resourceCount : Nat) (cursor : TrackCursor) : Transfer Bool :=
  if cursor.nextResource = resourceCount ∨
      checkpointInterval ≤ cursor.written - cursor.lastCheckpointBytes then
    pure true
  else perform .checkpointElapsed

section

variable (urls : Http.UrlLibrary) (manifestUrl : Url) (headers : List RequestHeader)

def openResource (resource : StreamResource) : Transfer SegmentBody := do
  let request := segmentRequest urls resource.url manifestUrl headers
  attempt httpFailure (← perform (.openBody request resource.byteInterval))

/-- The file goes back to where the resource began, and that is saved. -/
def abandonResource (path : StagingPath) (track : Nat) (cursor : TrackCursor) :
    Transfer (Option StreamResumeState) := do
  truncateTrack path cursor.written
  checkpointTrack path cursor.resume track ⟨cursor.nextResource, cursor.written⟩

def writeResources (track : Nat) (path : StagingPath) (base resourceCount : Nat) :
    List StreamResource → TrackCursor → Transfer TrackResult
  | [], cursor => do
      let resume ← checkpointTrack path cursor.resume track ⟨cursor.nextResource, cursor.written⟩
      pure ⟨cursor.written, false, resume⟩
  | resource :: rest, cursor => do
      if ← perform .isRequested then
        let resume ← checkpointTrack path cursor.resume track ⟨cursor.nextResource, cursor.written⟩
        pure ⟨cursor.written, true, resume⟩
      else
        let body ← openResource urls manifestUrl headers resource
        match ← appendBody path base body.failure body.chunks cursor.written with
        | .stopped => do
            let resume ← abandonResource path track cursor
            pure ⟨cursor.written, true, resume⟩
        | .failed failure => do
            let _ ← abandonResource path track cursor
            throw failure
        | .complete written => do
            let cursor := { cursor with nextResource := cursor.nextResource + 1, written := written }
            if ← checkpointDue resourceCount cursor then
              let resume ←
                checkpointTrack path cursor.resume track ⟨cursor.nextResource, cursor.written⟩
              writeResources track path base resourceCount rest
                { cursor with lastCheckpointBytes := cursor.written, resume := resume }
            else writeResources track path base resourceCount rest cursor

/-- The checkpoint a track continues from; the state has one for every track. -/
def checkpointOf (resume : Option StreamResumeState) (track : Nat) : TrackCheckpoint :=
  match resume with
  | none => .start
  | some state => state.tracks.getD track .start

def writeTrack (plan : TrackPlan) (track : Nat) (path : StagingPath) (base : Nat)
    (resume : Option StreamResumeState) : Transfer TrackResult := do
  let checkpoint := checkpointOf resume track
  let resources := plan.resourcesOf track
  if resources.length < checkpoint.nextResource then
    throw (recoveryIntegrity "saved segment position exceeds the presentation")
  openTrack path checkpoint.durableBytes resume.isSome
  writeResources urls manifestUrl headers track path base resources.length
    (resources.drop checkpoint.nextResource)
    ⟨checkpoint.nextResource, checkpoint.durableBytes, checkpoint.durableBytes, resume⟩

/-! ## One attempt -/

/-- What an attempt takes from preparation. -/
structure PreparedTracks where
  plan : TrackPlan
  resume : Option StreamResumeState

inductive StreamOutcome where
  | stopped (writtenBytes : Nat)
  | finished (writtenBytes publishedBytes : Nat) (stagingPaths : List StagingPath)
  deriving DecidableEq

/-- Without saved progress nothing of a failed attempt is kept. -/
def discardingOnFailure {α : Type} (prepared : PreparedTracks) (paths : List StagingPath)
    (track : Transfer α) : Transfer α :=
  tryCatch track fun failure => do
    if prepared.resume.isNone then
      cleanupStaging paths false
    throw failure

def stopTransfer (prepared : PreparedTracks) (paths : List StagingPath) (written : Nat) :
    Transfer StreamOutcome := do
  if (← perform .requestKind) = some .cancel then
    cleanupStaging paths prepared.resume.isSome
  pure (.stopped written)

/-- The tracks one after another, each counting from where the last one ended. -/
def writeTracks (prepared : PreparedTracks) (paths : List StagingPath) :
    List (StagingPath × Nat) → Nat → Option StreamResumeState → Transfer TrackResult
  | [], written, resume => pure ⟨written, false, resume⟩
  | (path, track) :: rest, written, resume => do
      let result ← discardingOnFailure prepared paths
        (writeTrack urls manifestUrl headers prepared.plan track path written resume)
      let written ← checkedAdd written result.written
      if result.stopped then
        pure ⟨written, true, result.resume⟩
      else writeTracks prepared paths rest written result.resume

def transferMuxed (prepared : PreparedTracks) : Transfer StreamOutcome := do
  let paths := (List.range prepared.plan.trackCount).map trackPath
  let result ← writeTracks urls manifestUrl headers prepared paths paths.zipIdx 0 prepared.resume
  if result.stopped then
    stopTransfer prepared paths result.written
  else
    match paths with
    | video :: audio :: _ =>
        let combined ← attempt muxFailure (← perform (.muxMp4 video audio .partialPath))
        pure (.finished result.written combined paths)
    | _ => throw (internalFailure "a muxed download holds exactly two tracks")

def transferControlled (prepared : PreparedTracks) : Transfer StreamOutcome := do
  if 1 < prepared.plan.trackCount then
    transferMuxed urls manifestUrl headers prepared
  else
    let result ← discardingOnFailure prepared [.partialPath]
      (writeTrack urls manifestUrl headers prepared.plan 0 .partialPath 0 prepared.resume)
    if result.stopped then
      stopTransfer prepared [.partialPath] result.written
    else pure (.finished result.written result.written [])

end

end Gunda.Stream
