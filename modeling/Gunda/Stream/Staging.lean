import Gunda.Stream.Transfer
import Mathlib.Logic.Function.Basic

/-!
# The staging area of a job

What the operations of a transfer find and change: the staging files, the row of
the resume store, and the byte counts reported so far, newest first. Bodies are
fixed: an origin sends the front of a resource's body, and all of it where the body
ends without a failure. Every file and store operation may fail.
-/
namespace Gunda.Stream

open Gunda.Lib
open Gunda.Core (Url RepositoryErrorKind DownloadControlRequest)
open Gunda.Http (HttpError)

/-- The body of every resource, by its URL and the interval asked for. -/
abbrev Bodies : Type := Url → Option (Nat × Nat) → Bytes

abbrev StagingFile : Type := DurableFile UInt8

structure Staging where
  files : StagingPath → Option StagingFile
  row : Option StreamResumeState
  reports : List Nat

namespace Staging

def empty : Staging := ⟨fun _ => none, none, []⟩

def put (w : Staging) (path : StagingPath) (file : Option StagingFile) : Staging :=
  { w with files := Function.update w.files path file }

def modify (w : Staging) (path : StagingPath) (change : StagingFile → StagingFile) : Staging :=
  w.put path ((w.files path).map change)

def content (w : Staging) (path : StagingPath) : Bytes :=
  ((w.files path).map (·.content)).getD []

@[simp] theorem put_same (w : Staging) (path : StagingPath) (file : Option StagingFile) :
    (w.put path file).files path = file := Function.update_self ..

theorem put_other (w : Staging) {path other : StagingPath} (file : Option StagingFile)
    (different : other ≠ path) : (w.put path file).files other = w.files other :=
  Function.update_of_ne different ..

end Staging

/-- A body an origin may send of fixed bytes. -/
def SegmentBody.Of (body : SegmentBody) (bytes : Bytes) : Prop :=
  body.chunks.flatten <+: bytes ∧ (body.failure = none → body.chunks.flatten = bytes)

instance (body : SegmentBody) (bytes : Bytes) : Decidable (body.Of bytes) :=
  inferInstanceAs (Decidable (_ ∧ _))

/-- How an operation comes out. -/
inductive StagingChoice where
  | proceeds
  /-- A question is answered; a stop may leave part of a block in the file. -/
  | answers (yes : Bool) (torn : Bytes)
  | requests (request : Option DownloadControlRequest)
  | sends (body : SegmentBody)
  | refuses (error : HttpError)
  /-- A file operation fails, and of the file only its synchronized front is certain. -/
  | fails (error : IoErrorKind) (rest : Bytes)
  /-- The store fails, perhaps after the row was changed. -/
  | rejects (error : RepositoryErrorKind) (changed : Bool)
  | muxes (output : Except MuxError Bytes)
  deriving DecidableEq

section

variable (bodies : Bodies)

/-- The answers of the file system to an operation on one file. -/
def fileAnswer (path : StagingPath) (choice : StagingChoice) (w : Staging)
    (change : StagingFile → StagingFile) : Option (Except IoErrorKind Unit × Staging) :=
  match choice with
  | .proceeds => some (.ok (), w.modify path change)
  | .fails error rest => some (.error error, w.modify path (·.damage rest))
  | _ => none

def saveAnswer (state : StreamResumeState) (choice : StagingChoice) (w : Staging) :
    Option (Except RepositoryErrorKind StreamResumeState × Staging) :=
  match choice, saveCheckpoint w.row state with
  | .proceeds, .ok saved => some (.ok saved, { w with row := some saved })
  | .proceeds, .error error => some (.error error, w)
  | .rejects error true, .ok saved => some (.error error, { w with row := some saved })
  | .rejects error false, _ => some (.error error, w)
  | _, _ => none

def staging : Surroundings TransferOp TransferOp.Answer StagingChoice Staging
  | .isRequested, .answers yes _, w => some (yes, w)
  | .requestKind, .requests request, w => some (request, w)
  | .stopped _, .answers false _, w => some (false, w)
  | .stopped path, .answers true torn, w => some (true, w.modify path (·.append torn))
  | .checkpointElapsed, .answers yes _, w => some (yes, w)
  | .openBody request interval, .sends body, w =>
      if body.Of (bodies request.url interval) then some (.ok body, w) else none
  | .openBody _ _, .refuses error, w => some (.error error, w)
  | .report writtenBytes, .proceeds, w => some ((), { w with reports := writtenBytes :: w.reports })
  | .fileType path, .proceeds, w =>
      some (if (w.files path).isSome then .ok .regular else .error .notFound, w)
  | .fileType _, .fails error _, w => if error = .notFound then none else some (.error error, w)
  | .createNew path, .proceeds, w =>
      if (w.files path).isSome then some (.error .alreadyExists, w)
      else some (.ok (), w.put path (some DurableFile.empty))
  | .createNew _, .fails error _, w => some (.error error, w)
  | .openExisting path, .proceeds, w =>
      some (if (w.files path).isSome then .ok () else .error .notFound, w)
  | .openExisting _, .fails error _, w => some (.error error, w)
  | .length path, .proceeds, w => some (.ok (w.content path).length, w)
  | .length _, .fails error _, w => some (.error error, w)
  | .setLen path bytes, choice, w => fileAnswer path choice w (·.setLen 0 bytes)
  | .seekEnd path, choice, w => fileAnswer path choice w id
  | .write path block, .proceeds, w => some (.ok (), w.modify path (·.append block))
  | .write path _, .fails error torn, w => some (.error error, w.modify path (·.append torn))
  | .flush path, choice, w => fileAnswer path choice w id
  | .syncAll path, choice, w => fileAnswer path choice w (·.sync)
  | .removeFile path, .proceeds, w => some (.ok (), w.put path none)
  | .removeFile _, .fails error _, w => some (.error error, w)
  | .saveState state, choice, w => saveAnswer state choice w
  | .clearState, .proceeds, w => some (.ok (), { w with row := none })
  | .clearState, .rejects error changed, w =>
      some (.error error, if changed then { w with row := none } else w)
  | .muxMp4 _ _ output, .muxes (.ok bytes), w =>
      some (.ok bytes.length, w.put output (some (DurableFile.empty.append bytes)))
  | .muxMp4 _ _ _, .muxes (.error error), w => some (.error error, w)
  | _, _, _ => none

/-- A crash takes what was not synchronized; the row is the store's own. -/
structure Staging.Crash (before after : Staging) : Prop where
  files : ∀ path, DurableFile.Crash (before.files path) (after.files path)
  row : after.row = before.row

end

end Gunda.Stream
