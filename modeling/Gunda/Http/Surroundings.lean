import Gunda.Http.Executor

/-!
# A partial file, its row and the origin

What a direct download leaves between operations, and how each operation may come
out. Of the origin only what validators and ranges mean is assumed: a strong tag
names one representation, and a partial answer is the interval that it names.
-/
namespace Gunda.Http

open Gunda.Lib
open Gunda.Core (RepositoryErrorKind)

abbrev PartialFile := DurableFile UInt8

/-- The partial file, the position of the handle on it, the row, and what was
reported, newest first. -/
structure PartialWorld where
  file : Option PartialFile
  position : Nat
  row : Option HttpResumeState
  reports : List Nat

namespace PartialWorld

def empty : PartialWorld := ⟨none, 0, none, []⟩

def content (w : PartialWorld) : Bytes := (w.file.map (·.content)).getD []

/-- The file that is there, changed. -/
def modify (w : PartialWorld) (change : PartialFile → PartialFile) : PartialWorld :=
  { w with file := w.file.map change }

/-- A crash takes the handle and leaves what was durable of the file. -/
structure Crash (before after : PartialWorld) : Prop where
  file : DurableFile.Crash before.file after.file
  row : after.row = before.row

end PartialWorld

/-- How an operation comes out. -/
inductive HttpChoice where
  | proceeds
  | sends (response : Response)
  | refuses (error : HttpError)
  | answers (yes : Bool)
  /-- What is found under the planned output's name. -/
  | sees (output : LocalFileState)
  /-- A file operation fails, and of the file only its synchronized front is certain. -/
  | fails (kind : IoErrorKind) (rest : Bytes)
  /-- The store fails, perhaps after the row was changed. -/
  | rejects (kind : RepositoryErrorKind) (changed : Bool)
  deriving DecidableEq

/-- A file operation that changes the file and leaves the handle at a position. -/
def fileAnswer (choice : HttpChoice) (w : PartialWorld) (change : PartialFile → PartialFile)
    (position : Nat) : Option (Except IoErrorKind Unit × PartialWorld) :=
  match choice with
  | .proceeds => some (.ok (), { w.modify change with position := position })
  | .fails kind rest => some (.error kind, w.modify (·.damage rest))
  | _ => none

/-- An operation on the row, given the row it would leave. -/
def rowAnswer {α : Type} (choice : HttpChoice) (w : PartialWorld)
    (result : Except RepositoryErrorKind (α × Option HttpResumeState)) :
    Option (Except RepositoryErrorKind α × PartialWorld) :=
  match choice, result with
  | .proceeds, .ok (value, row) => some (.ok value, { w with row := row })
  | .proceeds, .error kind => some (.error kind, w)
  | .rejects kind true, .ok (_, row) => some (.error kind, { w with row := row })
  | .rejects kind false, _ => some (.error kind, w)
  | _, _ => none

def inspectFile (choice : HttpChoice) (w : PartialWorld) : Option LocalFileState :=
  match choice with
  | .proceeds => some (match w.file with
      | some file => .regularFile file.content.length
      | none => .missing)
  | .fails kind _ => some (.unavailable kind)
  | _ => none

/-- An answer about the file that changes nothing; without it there is none. -/
def askFile {α : Type} (choice : HttpChoice) (w : PartialWorld) (answer : PartialFile → α) :
    Option (Except IoErrorKind α × PartialWorld) :=
  match choice with
  | .proceeds => some (match w.file with
      | some file => .ok (answer file)
      | none => .error .notFound, w)
  | .fails kind _ => some (.error kind, w)
  | _ => none

/-- Nobody else touches the partial file or its row. -/
def surroundings : Surroundings HttpOp HttpOp.Answer HttpChoice PartialWorld
  | .exchange _, .sends response, w => some (.ok response, w)
  | .exchange _, .refuses error, w => some (.error error, w)
  | .isRequested, .answers yes, w => some (yes, w)
  | .stopped, .answers yes, w => some (yes, w)
  | .checkpointElapsed, .answers yes, w => some (yes, w)
  | .report writtenBytes, .proceeds, w =>
      some ((), { w with reports := writtenBytes :: w.reports })
  | .findState, choice, w => rowAnswer choice w (.ok (w.row, w.row))
  | .initializeState tag total, choice, w =>
      rowAnswer choice w ((initializeState w.row tag total).map fun state => (state, some state))
  | .saveState state, choice, w =>
      rowAnswer choice w ((saveCheckpoint w.row state).map fun saved => (saved, some saved))
  | .clearState, choice, w => rowAnswer choice w (.ok ((), none))
  | .inspectOutput _, .sees output, w => some (output, w)
  | .inspectPartial, choice, w => (inspectFile choice w).map (·, w)
  | .createNew, .proceeds, w =>
      match w.file with
      | none => some (.ok (), { w with file := some .empty, position := 0 })
      | some _ => some (.error .alreadyExists, w)
  | .createNew, .fails kind _, w => some (.error kind, w)
  | .openExisting, choice, w =>
      (askFile choice w fun _ => ()).map fun answered =>
        (answered.1, { answered.2 with position := 0 })
  | .metadata, choice, w => askFile choice w fun file => ⟨true, file.content.length⟩
  | .identity, choice, w => askFile choice w fun _ => ()
  | .matchesPath, choice, w => askFile choice w fun _ => true
  | .setLen bytes, choice, w => fileAnswer choice w (·.setLen 0 bytes) w.position
  | .seek position, choice, w => fileAnswer choice w id position
  | .write block, choice, w =>
      fileAnswer choice w (·.writeAt 0 w.position block) (w.position + block.length)
  | .flush, choice, w => fileAnswer choice w id w.position
  | .syncAll, choice, w => fileAnswer choice w (·.sync) w.position
  | .removePartial, .proceeds, w =>
      match w.file with
      | some _ => some (.ok (), { w with file := none })
      | none => some (.error .notFound, w)
  | .removePartial, .fails kind _, w => some (.error kind, w)
  | _, _, _ => none

/-! ## The origin -/

/-- The response's blocks are the bytes, or a front of them where it is cut short. -/
def Response.Carries (response : Response) (bytes : Bytes) : Prop :=
  ∃ rest, bytes = response.chunks.flatten ++ rest ∧ (response.failure = none → rest = [])

/-- Every representation the origin has ever had for the job, and the one a strong
tag names. -/
structure Origin where
  represents : Bytes → Prop
  tagged : StrongEntityTag → Bytes

namespace Origin

/-- A representation with the tag, where the response names one. -/
def Names (origin : Origin) (response : Response) (bytes : Bytes) : Prop :=
  origin.represents bytes ∧ ∀ tag ∈ responseStrongEtag response.headers, bytes = origin.tagged tag

/-- A full answer is a whole representation of the announced length. -/
def ServesFull (origin : Origin) (response : Response) : Prop :=
  ∃ bytes, origin.Names response bytes ∧ response.Carries bytes ∧
    ∀ metadata, inspectHeaders response.headers = .ok metadata →
      ∀ length ∈ metadata.contentLength, length = bytes.length

/-- A partial answer is the interval it names of a representation of that size. It
leaves its tag out only where the validator of the request still matches. -/
def ServesRange (origin : Origin) (request : Exchange) (response : Response) : Prop :=
  ∀ range, contentRange response.headers = .ok range →
    ∃ bytes, origin.Names response bytes ∧ bytes.length = range.total ∧
      response.Carries ((bytes.drop range.start).take range.bodyLength) ∧
      (response.headers.getAll "etag".toList = [] → ∀ tag : StrongEntityTag,
        request.headers.getAll "if-range".toList = [tag.value] → bytes = origin.tagged tag)

/-- What is relied on of an answer; anything else the origin does is allowed. -/
def Honest (origin : Origin) : (op : HttpOp) → op.Answer → Prop
  | .exchange request, .ok response =>
      (response.status = 200 → origin.ServesFull response) ∧
        (response.status = 206 → origin.ServesRange request response)
  | _, _ => True

end Origin

/-- Every way an operation comes out with an honest origin. -/
def partialSpec (origin : Origin) (requires : HttpOp → PartialWorld → Prop) :
    Spec HttpOp HttpOp.Answer PartialWorld where
  requires := requires
  ensures op w answer t :=
    (∃ choice, surroundings op choice w = some (answer, t)) ∧ origin.Honest op answer

end Gunda.Http
