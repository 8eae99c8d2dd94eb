import Gunda.Http.Ranges
import Gunda.Http.Resume
import Gunda.Lib.Durable

/-!
# Transferring into the partial file

`gunda-http/src/partial.rs` and `recovery.rs`: a body is written to a file created
for it, or to the synchronized front of an earlier one. The handle a transfer holds
is the partial file's as long as `matchesPath` says so.
-/
namespace Gunda.Http

open Gunda.Lib
open Gunda.Core (RepositoryErrorKind)

inductive LocalFileState where
  | missing
  | regularFile (bytes : Nat)
  | symlink | other
  | unavailable (kind : IoErrorKind)
  deriving DecidableEq, Repr

structure FileMetadata where
  isFile : Bool
  len : Nat
  deriving DecidableEq, Repr

inductive HttpOp where
  | exchange (request : Exchange)
  /-- Whether a stop was requested. -/
  | isRequested
  /-- Whether a stop wins over the next block of the body. -/
  | stopped
  /-- Whether a second has passed since the last checkpoint. -/
  | checkpointElapsed
  | report (writtenBytes : Nat)
  | findState
  | initializeState (strongEtag : StrongEntityTag) (totalBytes : Nat)
  | saveState (state : HttpResumeState)
  | clearState
  | inspectOutput (finalPath : String)
  | inspectPartial
  | createNew
  | openExisting
  | metadata
  | identity
  | matchesPath
  | setLen (bytes : Nat)
  | seek (position : Nat)
  | write (block : Bytes)
  | flush
  | syncAll
  | removePartial
  deriving DecidableEq

abbrev HttpOp.Answer : HttpOp → Type
  | .exchange _ => Except HttpError Response
  | .isRequested | .stopped | .checkpointElapsed => Bool
  | .report _ => Unit
  | .findState => Except RepositoryErrorKind (Option HttpResumeState)
  | .initializeState .. | .saveState _ => Except RepositoryErrorKind HttpResumeState
  | .clearState => Except RepositoryErrorKind Unit
  | .inspectOutput _ | .inspectPartial => LocalFileState
  | .metadata => Except IoErrorKind FileMetadata
  | .matchesPath => Except IoErrorKind Bool
  | .createNew | .openExisting | .identity | .setLen _ | .seek _ | .write _ | .flush | .syncAll
  | .removePartial => Except IoErrorKind Unit

abbrev Attempt (ε α : Type) : Type := Fallible HttpOp HttpOp.Answer ε α

namespace HttpOp

def perform {ε : Type} (op : HttpOp) : Attempt ε op.Answer := Fallible.perform op

end HttpOp

open HttpOp (perform)

/-- An operation whose error ends the attempt. -/
def orFail {ε ε' α : Type} (failure : ε → ε') : Except ε α → Attempt ε' α
  | .ok value => pure value
  | .error error => throw (failure error)

/-! ## Errors -/

inductive FileOperation where
  | create | openFile | write | flush | seek | sync | truncate | remove
  deriving DecidableEq, Repr

inductive PartialDownloadError where
  | http (error : HttpError)
  | file (operation : FileOperation) (kind : IoErrorKind)
  | byteCountOverflow | invalidBodyState | invalidPartial
  | resumeStore (kind : RepositoryErrorKind)
  deriving DecidableEq, Repr

inductive ResumeFileError where
  | missingPartial | partialTooShort | unsafePartial
  | partialUnavailable (kind : IoErrorKind)
  | outputExists
  | outputUnavailable (kind : IoErrorKind)
  deriving DecidableEq, Repr

/-! ## Recovery -/

def inspectOutput (plannedOutput : Option String) : Attempt ResumeFileError Unit := do
  match plannedOutput with
  | none => pure ()
  | some finalPath =>
      match ← perform (.inspectOutput finalPath) with
      | .missing => pure ()
      | .unavailable kind => throw (.outputUnavailable kind)
      | _ => throw .outputExists

def expectPartial (durableBytes : Nat) : LocalFileState → Attempt ResumeFileError Unit
  | .regularFile bytes => if bytes < durableBytes then throw .partialTooShort else pure ()
  | .missing => throw .missingPartial
  | .unavailable kind => throw (.partialUnavailable kind)
  | .symlink | .other => throw .unsafePartial

def openPartial : Attempt ResumeFileError Unit := do
  match ← perform .openExisting with
  | .ok () => pure ()
  | .error kind =>
      match ← perform .inspectPartial with
      | .missing => throw .missingPartial
      | .symlink | .other => throw .unsafePartial
      | _ => throw (.partialUnavailable kind)

/-- `inspect_resume_candidate`: the partial file is opened if it is a regular file
that holds the durable bytes. -/
def inspectResumeCandidate (plannedOutput : Option String) (durableBytes : Nat) :
    Attempt ResumeFileError Unit := do
  inspectOutput plannedOutput
  expectPartial durableBytes (← perform .inspectPartial)
  openPartial
  let metadata ← orFail .partialUnavailable (← perform .metadata)
  if !metadata.isFile then
    throw .unsafePartial
  if metadata.len < durableBytes then
    throw .partialTooShort
  orFail .partialUnavailable (← perform .identity)
  match ← perform .matchesPath with
  | .ok true => pure ()
  | .ok false => throw .unsafePartial
  | .error .notFound => throw .missingPartial
  | .error kind => throw (.partialUnavailable kind)

def removePartialForRestart : Attempt IoErrorKind Unit := do
  match ← perform .inspectPartial with
  | .missing => pure ()
  | .unavailable kind => throw kind
  | .symlink | .other => throw .invalidInput
  | .regularFile _ => do
      ExceptT.adapt (fun _ => .invalidInput) (inspectResumeCandidate none 0)
      orFail id (← perform .removePartial)

/-! ## Writing -/

/-- A body nothing was read of yet. -/
structure HttpBody where
  metadata : HttpInspection
  chunks : List Bytes
  failure : Option HttpError

def HttpBody.new (response : Response) (metadata : HttpInspection) : HttpBody :=
  ⟨metadata, response.chunks, response.failure⟩

/-- The blocks still to come and what follows the last of them. -/
structure Incoming where
  blocks : List Bytes
  ending : Except HttpError Unit

def HttpBody.incoming (body : HttpBody) : Incoming :=
  let delivered := deliver body.metadata body.failure 0 body.chunks
  ⟨delivered.1, delivered.2⟩

inductive ResumeBody where
  | full (body : HttpBody)
  | range (body : HttpBody)
  | complete

def ResumeBody.incoming : ResumeBody → Incoming
  | .full body | .range body => body.incoming
  | .complete => ⟨[], .ok ()⟩

structure PartialDownload where
  writtenBytes : Nat
  metadata : HttpInspection
  deriving DecidableEq, Repr

inductive PartialOutcome where
  | stopped (writtenBytes : Nat)
  | finished (download : PartialDownload)
  deriving DecidableEq, Repr

/-- The counters of the loop over the blocks of a body. -/
structure PartialCursor where
  writtenBytes : Nat
  lastCheckpointBytes : Nat
  resumeState : Option HttpResumeState

abbrev Writing (α : Type) : Type := Attempt PartialDownloadError α

/-- Synchronizes the file and saves its length as durable. A state without a store
is none that a transfer has. -/
def syncCheckpoint (resumeState : Option HttpResumeState) (writtenBytes : Nat) :
    Writing (Option HttpResumeState) := do
  orFail (.file .flush) (← perform .flush)
  orFail (.file .sync) (← perform .syncAll)
  match resumeState with
  | none => pure none
  | some current =>
      if writtenBytes = current.durableBytes then
        pure (some current)
      else
        match HttpResumeState.new current.strongEtag current.totalBytes writtenBytes with
        | none => throw (.resumeStore .invalidData)
        | some candidate => do
            let persisted ← orFail .resumeStore (← perform (.saveState candidate))
            if persisted ≠ candidate then
              throw (.resumeStore .invalidData)
            pure (some persisted)

def discardOwnedPartial : Writing Unit := do
  if !(← orFail (.file .remove) (← perform .matchesPath)) then
    throw .invalidPartial
  orFail (.file .remove) (← perform .removePartial)

def checkpointInterval : Nat := 8 * 1024 * 1024

def checkpointDue (cursor : PartialCursor) : Writing Bool :=
  if cursor.resumeState.isNone then pure false
  else if checkpointInterval ≤ cursor.writtenBytes - cursor.lastCheckpointBytes then pure true
  else perform .checkpointElapsed

def writeBlock (block : Bytes) (cursor : PartialCursor) : Writing PartialCursor := do
  if 2 ^ 64 ≤ cursor.writtenBytes + block.length then
    throw .byteCountOverflow
  orFail (.file .write) (← perform (.write block))
  orFail (.file .flush) (← perform .flush)
  let cursor := { cursor with writtenBytes := cursor.writtenBytes + block.length }
  perform (.report cursor.writtenBytes)
  if ← checkpointDue cursor then
    let resumeState ← syncCheckpoint cursor.resumeState cursor.writtenBytes
    pure { cursor with lastCheckpointBytes := cursor.writtenBytes, resumeState := resumeState }
  else pure cursor

def stopPartial (cursor : PartialCursor) : Writing PartialOutcome := do
  let _ ← syncCheckpoint cursor.resumeState cursor.writtenBytes
  pure (.stopped cursor.writtenBytes)

/-- Without a resume state nothing can be made of what was written. -/
def failPartial (error : HttpError) (cursor : PartialCursor) : Writing PartialOutcome := do
  if cursor.resumeState.isNone then
    discardOwnedPartial
  else
    let _ ← syncCheckpoint cursor.resumeState cursor.writtenBytes
  throw (.http error)

def finishPartial (metadata : HttpInspection) (cursor : PartialCursor) :
    Writing PartialOutcome := do
  let _ ← syncCheckpoint cursor.resumeState cursor.writtenBytes
  if ← perform .isRequested then
    pure (.stopped cursor.writtenBytes)
  else pure (.finished ⟨cursor.writtenBytes, metadata⟩)

/-- The source's loop, one block of the body after another. -/
def streamToPartial (metadata : HttpInspection) (ending : Except HttpError Unit) :
    List Bytes → PartialCursor → Writing PartialOutcome
  | [], cursor => do
      if ← perform .stopped then
        stopPartial cursor
      else match ending with
        | .error error => failPartial error cursor
        | .ok () => finishPartial metadata cursor
  | block :: blocks, cursor => do
      if ← perform .stopped then
        stopPartial cursor
      else
        let cursor ← writeBlock block cursor
        streamToPartial metadata ending blocks cursor

/-- A row is there before the first byte where the representation can be resumed. -/
def initializeResume (metadata : HttpInspection) : Writing (Option HttpResumeState) := do
  match metadata.strongEtag, metadata.contentLength with
  | some tag, some total => do
      let persisted ← orFail .resumeStore (← perform (.initializeState tag total))
      if persisted ≠ ⟨tag, total, 0, Nat.zero_le _⟩ then
        throw (.resumeStore .invalidData)
      pure (some persisted)
  | _, _ => pure none

def createPartial (body : HttpBody) (stored : Bool) : Writing PartialOutcome := do
  orFail (.file .create) (← perform .createNew)
  orFail (.file .openFile) (← perform .identity)
  let resumeState ← if stored then initializeResume body.metadata else pure none
  streamToPartial body.metadata body.incoming.ending body.incoming.blocks ⟨0, 0, resumeState⟩

/-- Whether the job has no saved progress. -/
def expectNoState : Writing Unit := do
  if (← orFail .resumeStore (← perform .findState)).isSome then
    throw (.resumeStore .constraintViolation)

/-- `write_body_to_partial_with_resume`. -/
def writeBodyToPartial (body : HttpBody) (stored : Bool) : Writing PartialOutcome := do
  if ← perform .isRequested then
    pure (.stopped 0)
  else
    if stored then
      expectNoState
    if ← perform .isRequested then
      pure (.stopped 0)
    else createPartial body stored

/-- The opened partial file, cut to the durable bytes and written on from there. -/
def continuePartial (body : ResumeBody) (metadata : HttpInspection) (state : HttpResumeState) :
    Writing PartialOutcome := do
  if !(← orFail (.file .openFile) (← perform .matchesPath)) then
    throw .invalidPartial
  let file ← orFail (.file .openFile) (← perform .metadata)
  if !file.isFile ∨ file.len < state.durableBytes then
    throw .invalidPartial
  if file.len ≠ state.durableBytes then
    orFail (.file .truncate) (← perform (.setLen state.durableBytes))
    orFail (.file .sync) (← perform .syncAll)
  orFail (.file .seek) (← perform (.seek state.durableBytes))
  streamToPartial metadata body.incoming.ending body.incoming.blocks
    ⟨state.durableBytes, state.durableBytes, some state⟩

/-- `resume_body_to_partial`. -/
def resumeBodyToPartial (body : ResumeBody) (metadata : HttpInspection)
    (state : HttpResumeState) : Writing PartialOutcome := do
  if ← perform .isRequested then
    pure (.stopped state.durableBytes)
  else continuePartial body metadata state

end Gunda.Http
