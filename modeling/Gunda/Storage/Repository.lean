import Gunda.Lib.Transaction
import Gunda.Storage.Columns
import Mathlib.Data.List.Sort

/-!
# The repository of downloads

`SqliteDownloadRepository` of `gunda-storage/src/repository.rs` as programs over statements on
the two tables.
-/
namespace Gunda.Storage

open Gunda.Lib
open Gunda.Core (RepositoryError DownloadId DownloadJob NewDownload OffsetDateTime RequestHeader
  Url)

/-! ## Tables -/

/-- The tables and the largest identifier given out so far. -/
structure RepositoryTables where
  downloads : List DownloadRow
  downloadHeaders : List HeaderRow
  sequence : Int

/-- The values of a row that an insertion names. -/
structure InsertedDownload where
  sourceUrl : Text
  origin : String
  sourcePageUrl : Option Text
  sourcePageTitle : Option String
  destinationDirectory : Bytes
  preferredFilename : Option String
  conflictPolicy : String
  createdAtUnixMs : Int

/-- The values that an update sets. -/
structure UpdatedDownload where
  state : String
  downloadedBytes : Int
  totalBytes : Option Int
  updatedAtUnixMs : Int
  resolvedDestinationPath : Option Bytes
  resourceKind : Option String
  resourceDisplayName : Option String
  resourceContentType : Option String
  lastFailureKind : Option String
  lastFailureMessage : Option String
  lastFailureRetryable : Option Int

def InsertedDownload.row (values : InsertedDownload) (id : Int) : DownloadRow where
  id := id
  sourceUrl := values.sourceUrl
  origin := values.origin
  sourcePageUrl := values.sourcePageUrl
  sourcePageTitle := values.sourcePageTitle
  destinationDirectory := values.destinationDirectory
  preferredFilename := values.preferredFilename
  conflictPolicy := values.conflictPolicy
  state := "queued"
  downloadedBytes := 0
  totalBytes := none
  createdAtUnixMs := values.createdAtUnixMs
  updatedAtUnixMs := values.createdAtUnixMs
  resolvedDestinationPath := none
  resourceKind := none
  resourceDisplayName := none
  resourceContentType := none
  lastFailureKind := none
  lastFailureMessage := none
  lastFailureRetryable := none
  executionSelection := none

def DownloadRow.update (row : DownloadRow) (values : UpdatedDownload) : DownloadRow :=
  { row with
    state := values.state
    downloadedBytes := values.downloadedBytes
    totalBytes := values.totalBytes
    updatedAtUnixMs := values.updatedAtUnixMs
    resolvedDestinationPath := values.resolvedDestinationPath
    resourceKind := values.resourceKind
    resourceDisplayName := values.resourceDisplayName
    resourceContentType := values.resourceContentType
    lastFailureKind := values.lastFailureKind
    lastFailureMessage := values.lastFailureMessage
    lastFailureRetryable := values.lastFailureRetryable }

inductive RepositoryStatement where
  | insertDownload (values : InsertedDownload)
  | updateSelection (selection : Text) (id : Int)
  | insertHeader (id position : Int) (name value : String)
  | selectDownload (id : Int)
  | selectDownloads
  | selectHeaders (id : Int)
  | selectAllHeaders
  | updateDownload (values : UpdatedDownload) (id : Int)

/-- The rows that are found, the identifier that is given or how many rows are affected. -/
abbrev RepositoryStatement.Result : RepositoryStatement → Type
  | .insertDownload _ => Int
  | .updateSelection .. | .insertHeader .. => Unit
  | .selectDownload _ => Option DownloadRow
  | .selectDownloads => List DownloadRow
  | .selectHeaders _ | .selectAllHeaders => List HeaderRow
  | .updateDownload .. => Nat

def HeaderRow.before (first second : HeaderRow) : Prop :=
  first.downloadId < second.downloadId ∨
    first.downloadId = second.downloadId ∧ first.position ≤ second.position

instance (first second : HeaderRow) : Decidable (HeaderRow.before first second) :=
  inferInstanceAs (Decidable (_ ∨ _))

namespace RepositoryTables

def empty : RepositoryTables := ⟨[], [], 0⟩

/-- Changes the row of an identifier, if the changed row meets the constraints. -/
def updateRow (tables : RepositoryTables) (id : Int) (change : DownloadRow → DownloadRow) :
    Option RepositoryTables :=
  let rows := tables.downloads.map fun row => if row.id = id then change row else row
  if rows.all DownloadRow.meetsChecks then some { tables with downloads := rows } else none

/-- One statement; `none` where a constraint of the table refuses it or no identifier is
left. -/
def run : (statement : RepositoryStatement) → RepositoryTables →
    Option (statement.Result × RepositoryTables)
  | .insertDownload values, tables =>
      let row := values.row (tables.sequence + 1)
      if tables.sequence + 1 < 2 ^ 63 ∧ row.meetsChecks then
        some (row.id, { tables with
          downloads := tables.downloads ++ [row]
          sequence := row.id })
      else none
  | .updateSelection selection id, tables =>
      (tables.updateRow id fun row => { row with executionSelection := some selection }).map
        fun tables => ((), tables)
  | .insertHeader id position name value, tables =>
      if 0 ≤ position ∧ tables.downloads.any (·.id = id) ∧
          !tables.downloadHeaders.any (fun row => row.downloadId = id && row.position = position) then
        some ((), { tables with
          downloadHeaders := tables.downloadHeaders ++ [⟨id, position, name, value, "public"⟩] })
      else none
  | .selectDownload id, tables => some (tables.downloads.find? (·.id = id), tables)
  | .selectDownloads, tables =>
      some (tables.downloads.insertionSort fun first second => first.id ≤ second.id, tables)
  | .selectHeaders id, tables =>
      some ((tables.downloadHeaders.filter (·.downloadId = id)).insertionSort
        fun first second => first.position ≤ second.position, tables)
  | .selectAllHeaders, tables =>
      some (tables.downloadHeaders.insertionSort HeaderRow.before, tables)
  | .updateDownload values id, tables =>
      (tables.updateRow id (·.update values)).map fun after =>
        (tables.downloads.countP (·.id = id), after)

variable {tables : RepositoryTables} {id : Int}

theorem run_selectDownload : RepositoryTables.run (.selectDownload id) tables =
    some (tables.downloads.find? (·.id = id), tables) := rfl

theorem run_selectDownloads : RepositoryTables.run .selectDownloads tables =
    some (tables.downloads.insertionSort fun first second => first.id ≤ second.id, tables) := rfl

theorem run_selectHeaders : RepositoryTables.run (.selectHeaders id) tables =
    some ((tables.downloadHeaders.filter (·.downloadId = id)).insertionSort
      fun first second => first.position ≤ second.position, tables) := rfl

theorem run_selectAllHeaders : RepositoryTables.run .selectAllHeaders tables =
    some (tables.downloadHeaders.insertionSort HeaderRow.before, tables) := rfl

end RepositoryTables

abbrev RepositorySession (α : Type) : Type :=
  Sql.Session RepositoryStatement.Result RepositoryError α

/-- The `?` operator on a result. -/
def lift {α : Type} (result : Except RepositoryError α) : RepositorySession α :=
  ExceptT.mk (pure result)

/-- A statement whose failure is reported under the message. -/
def execute (statement : RepositoryStatement) (message : String) :
    RepositorySession statement.Result :=
  Sql.execute statement (internalError message)

/-! ## Headers -/

def insertHeaders (id : DownloadId) : Nat → List RequestHeader → RepositorySession Unit
  | _, [] => pure ()
  | position, header :: headers => do
      if isSensitive header then
        throw ⟨.sensitiveDataUnsupported, "sensitive request headers cannot be persisted yet"⟩
      if 2 ^ 63 ≤ position then
        throw ⟨.constraintViolation, "request contains too many headers"⟩
      let _ : Unit ← execute (.insertHeader id.value position header.name header.value)
        "could not insert request header"
      insertHeaders id (position + 1) headers

def loadHeaders (id : DownloadId) : RepositorySession (List RequestHeader) := do
  let rows : List HeaderRow ← execute (.selectHeaders id.value)
    "could not query request headers"
  lift (rows.mapM decodeHeader)

/-- The headers of each download that has some. -/
abbrev HeaderMap : Type := List (DownloadId × List RequestHeader)

def HeaderMap.push (headers : HeaderMap) (id : DownloadId) (header : RequestHeader) : HeaderMap :=
  match headers with
  | [] => [(id, [header])]
  | (other, found) :: rest =>
      if other = id then (id, found ++ [header]) :: rest
      else (other, found) :: HeaderMap.push rest id header

/-- What is found under an identifier, and what is left. -/
def HeaderMap.remove (headers : HeaderMap) (id : DownloadId) : List RequestHeader × HeaderMap :=
  (((headers.find? (·.1 = id)).map (·.2)).getD [], headers.filter (·.1 ≠ id))

def gatherHeader (headers : HeaderMap) (row : HeaderRow) : Except RepositoryError HeaderMap :=
  if h : 0 < row.downloadId then do
    let header ← decodeHeader row
    return headers.push ⟨row.downloadId, h⟩ header
  else .error (invalidData "stored request header has an invalid download ID")

def loadAllHeaders : RepositorySession HeaderMap := do
  let rows : List HeaderRow ← execute .selectAllHeaders
    "could not query request headers"
  lift (rows.foldlM gatherHeader [])

/-! ## Downloads -/

section

variable (codec : PathCodec String) (parse : Text → Option Url)

def insertDownload (download : NewDownload) (createdAtUnixMs : Int) :
    RepositorySession DownloadId := do
  let (origin, pageUrl, pageTitle) := encodeOrigin download.origin
  let destinationDirectory ← lift (codec.encode download.destination.directory)
  let rowid : Int ← execute
    (.insertDownload ⟨download.request.url.serialization, origin, pageUrl, pageTitle,
      destinationDirectory, download.destination.preferredFilename,
      encodeConflictPolicy download.destination.conflictPolicy, createdAtUnixMs⟩)
    "could not insert download record"
  let id : DownloadId ← lift (if h : 0 < rowid then .ok ⟨rowid, h⟩
    else .error (invalidData "database returned an invalid download ID"))
  match download.request.selection with
  | none => pure ()
  | some selection => do
      let _ : Unit ← execute (.updateSelection selection.value id.value)
        "could not store the execution selection"
  pure id

def create (download : NewDownload) (createdAt : OffsetDateTime) :
    RepositorySession DownloadJob := do
  lift (ensurePersistable download)
  let createdAtUnixMs ← lift (encodeTimestamp createdAt)
  let createdAt ← lift (decodeTimestamp createdAtUnixMs)
  Sql.transaction (internalError "could not start download creation transaction")
    (internalError "could not commit download creation") do
      let id ← insertDownload codec download createdAtUnixMs
      insertHeaders id 0 download.request.headers
      pure (DownloadJob.new id download createdAt)

def findById (id : DownloadId) : RepositorySession (Option DownloadJob) :=
  Sql.transaction (internalError "could not start download lookup transaction")
    (internalError "could not finish download lookup") do
      let found : Option DownloadRow ← execute (.selectDownload id.value)
        "could not load download"
      match found with
      | none => pure none
      | some row => do
          let storedId ← lift row.downloadId
          let headers ← loadHeaders storedId
          some <$> lift (row.toJob codec parse storedId headers)

/-- The jobs of the rows, each with its headers, and the headers that are left. -/
def listedJobs (headers : HeaderMap) :
    List DownloadRow → Except RepositoryError (List DownloadJob × HeaderMap)
  | [] => .ok ([], headers)
  | row :: rows => do
      let id ← row.downloadId
      let job ← row.toJob codec parse id (headers.remove id).1
      let (jobs, left) ← listedJobs (headers.remove id).2 rows
      return (job :: jobs, left)

def list : RepositorySession (List DownloadJob) :=
  Sql.transaction (internalError "could not start download listing transaction")
    (internalError "could not finish download listing") do
      let rows : List DownloadRow ← execute .selectDownloads
        "could not list downloads"
      let headers ← loadAllHeaders
      let (jobs, left) ← lift (listedJobs codec parse headers rows)
      if left ≠ [] then
        throw (invalidData "stored request headers reference missing downloads")
      pure jobs

/-- What a save writes of a job. -/
def updatedDownload (job : DownloadJob) (downloadedBytes : Int) (totalBytes : Option Int)
    (updatedAtUnixMs : Int) (resolvedDestinationPath : Option Bytes) : UpdatedDownload where
  state := encodeState job.state
  downloadedBytes := downloadedBytes
  totalBytes := totalBytes
  updatedAtUnixMs := updatedAtUnixMs
  resolvedDestinationPath := resolvedDestinationPath
  resourceKind := job.resource.map fun resource => encodeResourceKind resource.kind
  resourceDisplayName := job.resource.bind (·.displayName)
  resourceContentType := job.resource.bind (·.contentType)
  lastFailureKind := job.lastFailure.map fun failure => encodeFailureKind failure.kind
  lastFailureMessage := job.lastFailure.map (·.message)
  lastFailureRetryable := job.lastFailure.map fun failure => if failure.retryable then 1 else 0

def save (job : DownloadJob) : RepositorySession DownloadJob := do
  lift (ensurePersistable ⟨job.request, job.destination, job.origin⟩)
  let createdAtUnixMs ← lift (encodeTimestamp job.createdAt)
  let updatedAtUnixMs ← lift (encodeTimestamp job.updatedAt)
  let createdAt ← lift (decodeTimestamp createdAtUnixMs)
  let updatedAt ← lift (decodeTimestamp updatedAtUnixMs)
  let downloadedBytes ← lift (encodeByteCount job.progress.downloadedBytes)
  let totalBytes ← lift (job.progress.totalBytes.mapM encodeByteCount)
  let resolvedDestinationPath ←
    lift (job.resolvedDestination.mapM fun destination => codec.encode destination.finalPath)
  Sql.transaction (internalError "could not start download update transaction")
    (internalError "could not commit download update") do
      let found : Option DownloadRow ← execute (.selectDownload job.id.value)
        "could not load download for update"
      match found with
      | none => throw ⟨.notFound, "download does not exist"⟩
      | some row => do
          let storedId ← lift row.downloadId
          let headers ← loadHeaders storedId
          let current ← lift (row.toJob codec parse storedId headers)
          if current.request ≠ job.request ∨ current.origin ≠ job.origin ∨
              current.destination ≠ job.destination ∨ current.createdAt ≠ createdAt then
            throw ⟨.constraintViolation, "download creation metadata cannot be changed"⟩
          let affected : Nat ← execute
            (.updateDownload (updatedDownload job downloadedBytes totalBytes updatedAtUnixMs
              resolvedDestinationPath) job.id.value)
            "could not update download"
          if affected ≠ 1 then
            throw (internalError "download update affected an unexpected number of records")
          pure { job with createdAt := createdAt, updatedAt := updatedAt }

end

end Gunda.Storage
