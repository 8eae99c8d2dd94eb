import Gunda.Storage.Repository
import Mathlib.Data.List.TakeWhile

/-!
# Jobs as rows

The row and the header rows of a job: they meet the constraints of the tables and are decoded
to that job.
-/
namespace Gunda.Storage

open Gunda.Lib
open Gunda.Core (DownloadJob DownloadOrigin DownloadProgress ExecutionSelection NewDownload
  RequestHeader Url)

/-! ## Paths -/

/-- The bytes that a path is written as. -/
def PathCodec.written {Path : Type} (codec : PathCodec Path) (path : Path) : Bytes :=
  (codec.encode path).toOption.getD []

theorem PathCodec.encode_eq {Path : Type} (codec : PathCodec Path) (path : Path) :
    codec.encode path = .ok (codec.written path) := by
  obtain ⟨bytes, encoded, -⟩ := codec.reads path
  rw [PathCodec.written, encoded]
  rfl

theorem PathCodec.decode_written {Path : Type} (codec : PathCodec Path) (path : Path) :
    codec.decode (codec.written path) = .ok path := by
  obtain ⟨bytes, encoded, decoded⟩ := codec.reads path
  rw [PathCodec.written, encoded]
  exact decoded

/-! ## Timestamps and counts -/

/-- The millisecond a timestamp falls in. -/
def floored (timestamp : Int) : Int := timestamp / 1000000 * 1000000

/-- The timestamp lies in a year from -9999 to 9999, counted in UTC. -/
def InYears (timestamp : Int) : Prop :=
  -377705116800000000000 ≤ timestamp ∧ timestamp < 253402300800000000000
  deriving Decidable

theorem floored_floored (timestamp : Int) : floored (floored timestamp) = floored timestamp := by
  unfold floored
  omega

theorem floored_div (timestamp : Int) : floored timestamp / 1000000 = timestamp / 1000000 := by
  unfold floored
  omega

variable {timestamp : Int}

theorem InYears.floored (inYears : InYears timestamp) :
    InYears (floored timestamp) := by
  obtain ⟨low, high⟩ := inYears
  unfold InYears Storage.floored
  omega

theorem inYears_of_floored (inYears : InYears (floored timestamp)) :
    InYears timestamp := by
  obtain ⟨low, high⟩ := inYears
  unfold Storage.floored at low high
  unfold InYears
  omega

theorem encodeTimestamp_ok (inYears : InYears timestamp) :
    encodeTimestamp timestamp = .ok (timestamp / 1000000) := by
  obtain ⟨low, high⟩ := inYears
  have fits : -2 ^ 63 ≤ timestamp / 1000000 ∧ timestamp / 1000000 < 2 ^ 63 := by omega
  exact if_pos fits

theorem decodeTimestamp_ok (inYears : InYears timestamp) :
    decodeTimestamp (timestamp / 1000000) = .ok (floored timestamp) := by
  have read : fromUnixTimestampNanos (timestamp / 1000000 * 1000000) = some (floored timestamp) :=
    if_pos inYears.floored
  unfold decodeTimestamp
  rw [read]

theorem decode_byteCount {value : Nat} : decodeByteCount value = .ok value := by
  unfold decodeByteCount
  rw [if_neg (by omega), Int.toNat_natCast]

/-! ## Rows of jobs -/

section

variable (codec : PathCodec String) (parse : Text → Option Url)

def rowOf (job : DownloadJob) : DownloadRow where
  id := job.id.value
  sourceUrl := job.request.url.serialization
  origin := (encodeOrigin job.origin).1
  sourcePageUrl := (encodeOrigin job.origin).2.1
  sourcePageTitle := (encodeOrigin job.origin).2.2
  destinationDirectory := codec.written job.destination.directory
  preferredFilename := job.destination.preferredFilename
  conflictPolicy := encodeConflictPolicy job.destination.conflictPolicy
  state := encodeState job.state
  downloadedBytes := job.progress.downloadedBytes
  totalBytes := job.progress.totalBytes.map (↑)
  createdAtUnixMs := job.createdAt / 1000000
  updatedAtUnixMs := job.updatedAt / 1000000
  resolvedDestinationPath := job.resolvedDestination.map fun destination =>
    codec.written destination.finalPath
  resourceKind := job.resource.map fun resource => encodeResourceKind resource.kind
  resourceDisplayName := job.resource.bind (·.displayName)
  resourceContentType := job.resource.bind (·.contentType)
  lastFailureKind := job.lastFailure.map fun failure => encodeFailureKind failure.kind
  lastFailureMessage := job.lastFailure.map (·.message)
  lastFailureRetryable := job.lastFailure.map fun failure => if failure.retryable then 1 else 0
  executionSelection := job.request.selection.map (·.value)

/-- The rows of headers from a position on. -/
def headerRows (id : Int) : Nat → List RequestHeader → List HeaderRow
  | _, [] => []
  | position, header :: headers =>
      ⟨id, position, header.name, header.value, "public"⟩ :: headerRows id (position + 1) headers

def headersOf (job : DownloadJob) : List HeaderRow :=
  headerRows job.id.value 0 job.request.headers

/-- The parts of a download are what their constructors make: its URLs are parsed, its selection
is checked, and its headers have indices. -/
structure Constructed (download : NewDownload) : Prop where
  url : parse download.request.url.serialization = some download.request.url
  page : ∀ pageUrl pageTitle, download.origin = .browser pageUrl pageTitle →
    parse pageUrl.serialization = some pageUrl
  selection : ∀ selection ∈ download.request.selection,
    ExecutionSelection.new selection.value = some selection
  headers : download.request.headers.length ≤ 2 ^ 63

def Public (headers : List RequestHeader) : Prop := headers.any isSensitive = false
  deriving Decidable

def Counted (progress : DownloadProgress) : Prop :=
  progress.downloadedBytes < 2 ^ 63 ∧ ∀ total ∈ progress.totalBytes, total < 2 ^ 63

/-- A job as the tables hold it. -/
structure Storable (job : DownloadJob) : Prop where
  constructed : Constructed parse ⟨job.request, job.destination, job.origin⟩
  headers : Public job.request.headers
  createdAt : InYears job.createdAt ∧ floored job.createdAt = job.createdAt
  updatedAt : InYears job.updatedAt ∧ floored job.updatedAt = job.updatedAt

variable {codec parse}

/-! ## Constraints -/

theorem sqlLength_of_new {selection : ExecutionSelection} {value : Text}
    (made : ExecutionSelection.new value = some selection) :
    1 ≤ sqlLength value ∧ sqlLength value ≤ 128 := by
  unfold ExecutionSelection.new at made
  split at made
  · cases made
  · rename_i sized
    split at made
    · rename_i ascii
      have whole : value.takeWhile (· ≠ Char.ofNat 0) = value := by
        refine List.takeWhile_eq_self_iff.mpr fun c member => ?_
        have allowed := List.all_eq_true.mp ascii c member
        refine decide_eq_true fun zero => ?_
        subst zero
        revert allowed
        decide
      have few : ¬ (value = [] ∨ 128 < value.length) := sized
      have some_ := List.length_pos_of_ne_nil fun none => few (.inl none)
      unfold sqlLength
      rw [whole]
      omega
    · cases made

theorem rowOf_meetsCreation (job : DownloadJob) : (rowOf codec job).meetsCreation = true := by
  have positive : decide (0 < job.id.value) = true := decide_eq_true job.id.positive
  have counted : decide ((0 : Int) ≤ job.progress.downloadedBytes) = true :=
    decide_eq_true (Int.natCast_nonneg _)
  have totals : (job.progress.totalBytes.map (Nat.cast : Nat → Int)).all (decide <| 0 ≤ ·) = true := by
    cases job.progress.totalBytes with
    | none => rfl
    | some total =>
      have positive : (0 : Int) ≤ total := Int.natCast_nonneg total
      exact decide_eq_true positive
  have within : (job.progress.totalBytes.map (Nat.cast : Nat → Int)).all
      (decide <| (job.progress.downloadedBytes : Int) ≤ ·) = true := by
    have held := job.progress.within
    cases known : job.progress.totalBytes with
    | none => rfl
    | some total =>
      have smaller : (job.progress.downloadedBytes : Int) ≤ total :=
        Int.ofNat_le.mpr (held total known)
      exact decide_eq_true smaller
  unfold DownloadRow.meetsCreation rowOf
  rw [positive, counted, totals, within]
  cases job.origin <;> cases job.destination.conflictPolicy <;> cases job.state <;> rfl

theorem rowOf_meetsExecution (job : DownloadJob) : (rowOf codec job).meetsExecution = true := by
  unfold DownloadRow.meetsExecution rowOf
  cases job.resource with
  | none =>
    cases job.lastFailure with
    | none => rfl
    | some failure =>
      obtain ⟨kind, message, retryable⟩ := failure
      cases kind <;> cases retryable <;> rfl
  | some resource =>
    obtain ⟨resourceKind, displayName, contentType⟩ := resource
    cases job.lastFailure with
    | none => cases resourceKind <;> rfl
    | some failure =>
      obtain ⟨kind, message, retryable⟩ := failure
      cases resourceKind <;> cases kind <;> cases retryable <;> rfl

variable {job : DownloadJob}

theorem rowOf_meetsChecks
    (constructed : Constructed parse ⟨job.request, job.destination, job.origin⟩) :
    (rowOf codec job).meetsChecks = true := by
  have selection : (rowOf codec job).meetsSelection = true := by
    unfold DownloadRow.meetsSelection rowOf
    cases chosen : job.request.selection with
    | none => rfl
    | some selection =>
      obtain ⟨low, high⟩ := sqlLength_of_new (constructed.selection selection chosen)
      simp only [Option.map_some, Option.all_some, Bool.and_eq_true, decide_eq_true_eq]
      exact ⟨low, high⟩
  unfold DownloadRow.meetsChecks
  rw [rowOf_meetsCreation, rowOf_meetsExecution, selection]
  rfl

/-! ## Decoding -/

theorem decodeOrigin_encodeOrigin {origin : DownloadOrigin}
    (page : ∀ pageUrl pageTitle, origin = .browser pageUrl pageTitle →
      parse pageUrl.serialization = some pageUrl) :
    decodeOrigin parse (encodeOrigin origin).1 (encodeOrigin origin).2.1 (encodeOrigin origin).2.2 =
      .ok origin := by
  cases origin with
  | desktop => rfl
  | cli => rfl
  | browser pageUrl pageTitle =>
    have read := page pageUrl pageTitle rfl
    unfold decodeOrigin encodeOrigin
    simp only [read]

theorem rowOf_selection
    (constructed : Constructed parse ⟨job.request, job.destination, job.origin⟩) :
    (rowOf codec job).decodeSelection = .ok job.request.selection := by
  unfold DownloadRow.decodeSelection rowOf
  cases chosen : job.request.selection with
  | none => rfl
  | some selection =>
    simp only [Option.map_some]
    rw [constructed.selection selection chosen]

theorem rowOf_newDownload
    (constructed : Constructed parse ⟨job.request, job.destination, job.origin⟩) :
    (rowOf codec job).toNewDownload codec parse job.request.headers =
      .ok ⟨job.request, job.destination, job.origin⟩ := by
  unfold DownloadRow.toNewDownload
  rw [rowOf_selection constructed]
  unfold rowOf
  have url : parse job.request.url.serialization = some job.request.url := constructed.url
  rw [url, decodeOrigin_encodeOrigin constructed.page, codec.decode_written,
    decode_encodeConflictPolicy]
  rfl

theorem rowOf_resource (job : DownloadJob) : (rowOf codec job).decodeResource = .ok job.resource := by
  unfold DownloadRow.decodeResource rowOf
  cases job.resource with
  | none => rfl
  | some resource =>
    simp only [Option.map_some, decode_encodeResourceKind]
    rfl

theorem rowOf_failure (job : DownloadJob) :
    (rowOf codec job).decodeFailure = .ok job.lastFailure := by
  unfold DownloadRow.decodeFailure rowOf
  cases job.lastFailure with
  | none => rfl
  | some failure =>
    obtain ⟨kind, message, retryable⟩ := failure
    simp only [Option.map_some, decode_encodeFailureKind]
    cases retryable <;> rfl

theorem mapM_counts (totals : Option Nat) :
    (totals.map (Nat.cast : Nat → Int)).mapM decodeByteCount = .ok totals := by
  cases totals with
  | none => rfl
  | some total =>
    change some <$> decodeByteCount total = _
    rw [decode_byteCount]
    rfl

theorem rowOf_resolved (job : DownloadJob) :
    (rowOf codec job).resolvedDestinationPath.mapM codec.decode =
      .ok (job.resolvedDestination.map (·.finalPath)) := by
  unfold rowOf
  cases job.resolvedDestination with
  | none => rfl
  | some destination =>
    change some <$> codec.decode (codec.written destination.finalPath) = _
    rw [codec.decode_written]
    rfl

theorem ensurePersistable_ok {download : NewDownload} (headers : Public download.request.headers) :
    ensurePersistable download = .ok () := by
  unfold ensurePersistable
  rw [headers]
  rfl

/-- The row of a job is decoded to that job. -/
theorem toJob_rowOf (storable : Storable parse job) :
    (rowOf codec job).toJob codec parse job.id job.request.headers = .ok job := by
  unfold DownloadRow.toJob
  rw [rowOf_newDownload storable.constructed, rowOf_resolved, rowOf_resource, rowOf_failure]
  have created : decodeTimestamp (rowOf codec job).createdAtUnixMs = .ok job.createdAt :=
    (decodeTimestamp_ok storable.createdAt.1).trans (congrArg _ storable.createdAt.2)
  have updated : decodeTimestamp (rowOf codec job).updatedAtUnixMs = .ok job.updatedAt :=
    (decodeTimestamp_ok storable.updatedAt.1).trans (congrArg _ storable.updatedAt.2)
  have counted : decodeByteCount (rowOf codec job).downloadedBytes =
      .ok job.progress.downloadedBytes := decode_byteCount
  have totals : (rowOf codec job).totalBytes.mapM decodeByteCount = .ok job.progress.totalBytes :=
    mapM_counts _
  have state : decodeState (rowOf codec job).state = .ok job.state := decode_encodeState job.state
  have persistable : ensurePersistable ⟨job.request, job.destination, job.origin⟩ = .ok () :=
    ensurePersistable_ok storable.headers
  have progress := DownloadProgress.new_of_le job.progress.within
  rw [created, updated, counted, totals, state]
  simp only [bind, Except.bind, persistable, progress]
  cases job with
  | mk id request origin destination resolved => cases resolved <;> rfl

end

end Gunda.Storage
